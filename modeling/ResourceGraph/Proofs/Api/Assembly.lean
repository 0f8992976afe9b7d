import Mathlib.Data.List.Forall2
import Mathlib.Logic.Relation
import ResourceGraph.Api.Compilation
import ResourceGraph.Proofs.Schema.Resolution

/-!
# Compilation as a sequence of steps

What a compilation does to its registry, told in steps: a schema is read, a resource is begun, an
enumeration is added, an object type is opened and later closed, and a resource is finished with its
page type, its filter and its query fields. Every invariant of a compilation is an invariant of
these steps.
-/

namespace ResourceGraph

variable {n : Nat}

/-! ## Fields -/

namespace NodeTable

variable (t : NodeTable n)

/-- What the name of a property adds to the name of a type. -/
def elementName (p : String × Node n) : String :=
  if t.isArray p.2 then Naming.sanitizeFieldName p.1 ++ "Item" else Naming.sanitizeFieldName p.1

/-- The type of an element, where `name` is the name of the definition that it may need. -/
def reference (visiting : Visiting n) (name : String) :
    Option (Node n) → Except SchemaError String
  | some (.enumeration _ [] _) => .ok defaultScalar
  | some (.enumeration _ (_ :: _) _) => .ok name
  | some (.object key _ _ _ _) => .ok ((visiting.lookup key).getD name)
  | element => t.scalarOf element

/-- The field of a property, in a type that is called `parent`. -/
def fieldOf (visiting : Visiting n) (required : List String) (parent : String)
    (p : String × Node n) : Except SchemaError Field :=
  match t.reference visiting (Naming.typeName (t.elementName p) parent) (t.element p.2) with
  | .ok type =>
    .ok { name := Naming.sanitizeFieldName p.1, typeName := type, isList := t.isArray p.2,
          isOptional := p.1 ∉ required, sourceName := some p.1 }
  | .error e => .error e

theorem fieldOf_eq_ok {t : NodeTable n} {visiting : Visiting n} {required : List String}
    {parent : String} {p : String × Node n} {f : Field}
    (h : t.fieldOf visiting required parent p = .ok f) :
    ∃ type, t.reference visiting (Naming.typeName (t.elementName p) parent) (t.element p.2)
        = .ok type ∧
      f = { name := Naming.sanitizeFieldName p.1, typeName := type, isList := t.isArray p.2,
            isOptional := p.1 ∉ required, sourceName := some p.1 } := by
  unfold fieldOf at h
  split at h
  · rename_i type href
    exact ⟨type, href, (Except.ok.inj h).symm⟩
  · cases h

end NodeTable

namespace Registry

/-- The name was claimed by an equal node. -/
def Refers (r : Registry n) (kind : String) (x : Node n) (name : String) : Prop :=
  ∃ source, Keyed.find? name r.sources = some (kind, source) ∧ source.same (.node x) = true

/-- An element that needs a definition has one under the name. -/
def Provides (r : Registry n) : Option (Node n) → String → Prop
  | some (.enumeration id (v :: values) type), name =>
    r.Refers "enum" (.enumeration id (v :: values) type) name
  | some (.object key properties required additional other), name =>
    r.Refers "type" (.object key properties required additional other) name
  | _, _ => True

/-- Every name stays with its source. -/
def Keeps (r r' : Registry n) : Prop :=
  ∀ name source, Keyed.find? name r.sources = some source →
    Keyed.find? name r'.sources = some source

/-- The name was claimed for the object of the key. -/
def Builds (r : Registry n) (name : String) (key : ObjectKey n) : Prop :=
  ∃ properties required additional other, Keyed.find? name r.sources
    = some ("type", .node (.object key properties required additional other))

/-- The object types under construction are claimed for their objects. -/
def Claimed (r : Registry n) (visiting : Visiting n) : Prop := ∀ v ∈ visiting, r.Builds v.2 v.1

/-- The name is claimed for a definition of the kind, complete or under construction. -/
def Has (r : Registry n) (kind name : String) : Prop :=
  ∃ source, Keyed.find? name r.sources = some (kind, source)

end Registry

/-- A resource with its names. -/
def ResourceNames.resource (names : ResourceNames) (name : String) (searchable : List String) :
    Resource :=
  { name := name, typeName := names.typeName, listField := names.listField,
    singleField := names.singleField, searchable := searchable }

/-! ## Steps -/

/-- A compilation under way: the nodes read so far, the names of the resource that is being
compiled, the object types under construction, and the registry. -/
structure Assembly (n : Nat) where
  table : NodeTable n
  root : Option ResourceNames
  visiting : Visiting n
  registry : Registry n

namespace Assembly

/-- The outermost type is called after the resource, any other after the type around it and a
property. -/
def Names (root : Option ResourceNames) : Visiting n → String → Prop
  | [], name => ∃ names, root = some names ∧ name = names.typeName
  | (_, parent) :: _, name => ∃ property,
    name = Naming.typeName (Naming.sanitizeFieldName property) parent ∨
      name = Naming.typeName (Naming.sanitizeFieldName property ++ "Item") parent

theorem names_root (names : ResourceNames) :
    Names (some names) ([] : Visiting n) names.typeName := ⟨names, rfl, rfl⟩

/-- A filter field has the name of a property and a type that is there. -/
structure FilterField (n : Nat) (api : Api) (f : Field) : Prop where
  named : ∃ property, f.name = Naming.sanitizeFieldName property
  typed : (∃ x : Option (Node n), Node.scalarName x = .ok f.typeName) ∨
    Keyed.hasKey f.typeName api.enums = true
  plain : f.arguments = []

inductive Step (g : RawGraph) (o : CompileOptions) : Assembly g.size → Assembly g.size → Prop
  | reading {t t' r raw node} (read : Parsing.run g raw t = (.ok node, t')) :
      Step g o ⟨t, none, [], r⟩ ⟨t', none, [], r⟩
  | beginning {t r} (resource : String)
      (free : (ResourceNames.of o.naming resource).conflict? r.api = none) :
      Step g o ⟨t, none, [], r⟩ ⟨t, some (ResourceNames.of o.naming resource), [], r⟩
  | enumeration {t root visiting r name id v values type} (named : Names root visiting name)
      (legal : name ∉ reservedTypeNames) (fresh : Keyed.find? name r.sources = none)
      (yields : t.Yields (.enumeration id (v :: values) type)) :
      Step g o ⟨t, root, visiting, r⟩
        ⟨t, root, visiting,
          (r.claim name "enum" (.node (.enumeration id (v :: values) type))).addEnum
            (EnumDef.ofValues name (v :: values))⟩
  | opening {t root visiting r name key properties required additional other}
      (named : Names root visiting name) (legal : name ∉ reservedTypeNames)
      (fresh : Keyed.find? name r.sources = none) (unseen : key ∉ visiting.map (·.1))
      (yields : t.Yields (.object key properties required additional other)) :
      Step g o ⟨t, root, visiting, r⟩
        ⟨t, root, (key, name) :: visiting,
          r.claim name "type" (.node (.object key properties required additional other))⟩
  | closing {t root visiting r name key properties required additional other}
      {fields : List Field}
      (claimed : Keyed.find? name r.sources
        = some ("type", .node (.object key properties required additional other)))
      (image : List.Forall₂
        (fun p f => t.fieldOf ((key, name) :: visiting) required name p = .ok f ∧
          r.Provides (t.element p.2) f.typeName) properties fields) :
      Step g o ⟨t, root, (key, name) :: visiting, r⟩
        ⟨t, root, visiting,
          r.addType
            { name := name, fields := Compiling.withSomeField (fields.foldl appendField []) }⟩
  | connection {t r names} (claimed : r.Has "type" names.typeName)
      (fresh : Keyed.find? (names.typeName ++ "Connection") r.sources = none) :
      Step g o ⟨t, some names, [], r⟩
        ⟨t, some names, [],
          (r.claim (names.typeName ++ "Connection") "type"
            (.literal [.str "connection", .str names.typeName])).addType
              { name := names.typeName ++ "Connection"
                fields := Compiling.connectionFields names.typeName }⟩
  | filter {t r names} {fields : List Field}
      (fresh : Keyed.find? (names.typeName ++ "Filter") r.sources = none)
      (image : ∀ f ∈ fields, FilterField g.size r.api f) :
      Step g o ⟨t, some names, [], r⟩
        ⟨t, some names, [],
          (r.claim (names.typeName ++ "Filter") "input"
            (.literal [.str "filter", .str names.typeName])).addType
              { name := names.typeName ++ "Filter"
                fields := fields.foldl appendField Compiling.commonFilterFields, isInput := true }⟩
  | finishing {t r} (resource : String) (searchable : List String)
      (claimed : r.Has "type" (ResourceNames.of o.naming resource).typeName)
      (paged : r.Has "type" ((ResourceNames.of o.naming resource).typeName ++ "Connection")) :
      Step g o ⟨t, some (ResourceNames.of o.naming resource), [], r⟩
        ⟨t, none, [], { r with
          api := r.api.addResource
            ((ResourceNames.of o.naming resource).resource resource searchable) }⟩

/-- Any number of steps. -/
def Run (g : RawGraph) (o : CompileOptions) : Assembly g.size → Assembly g.size → Prop :=
  Relation.ReflTransGen (Step g o)

variable {g : RawGraph} {o : CompileOptions}

/-- What every step keeps, every run keeps. -/
theorem Run.invariant {P : Assembly g.size → Prop} (hP : ∀ {s s'}, Step g o s s' → P s → P s')
    {s s' : Assembly g.size} (h : Run g o s s') (hs : P s) : P s' := by
  induction h with
  | refl => exact hs
  | tail _ hstep ih => exact hP hstep ih

end Assembly

end ResourceGraph
