import ResourceGraph.Api.MainSchema
import ResourceGraph.Api.Registry
import ResourceGraph.Config.ResourceSpec
import ResourceGraph.Log
import ResourceGraph.Naming.Sanitize
import ResourceGraph.Naming.Singular
import ResourceGraph.Schema.Parsing
import ResourceGraph.Schema.Paths
import ResourceGraph.Schema.Scalar

/-!
From resource specifications to an API. Generated names follow the path of properties: the `name`
object of `Person` becomes `PersonName`, the items of its `tags` `PersonTagsItem`. An object met
again inside itself is referred to by the name it already has, so compilation ends on every graph.
-/

namespace ResourceGraph

def reservedTypeNames : List String :=
  ["Query", "Mutation", "Subscription", "SearchResults", "String", "Int", "Float", "Boolean", "ID"]

def reservedQueryFields : List String := ["search", "totalCount"]

/-- Words that are no enum values in GraphQL. -/
def reservedEnumValues : List String := ["true", "false", "null"]

/-- The name of a raw value in an enumeration. -/
def enumValueName (v : Value) : String :=
  let name := Naming.sanitizeEnumValue v
  if name ∈ reservedEnumValues then "_" ++ name else name

/-- Adds a raw value to an enumeration: as a value if its name is new, else as an alias. -/
def EnumDef.addValue (e : EnumDef) (v : Value) : EnumDef :=
  let name := enumValueName v
  if e.values.any (·.name == name) then { e with aliases := e.aliases ++ [⟨name, v⟩] }
  else { e with values := e.values ++ [⟨name, v⟩] }

def EnumDef.ofValues (name : String) (values : List Value) : EnumDef :=
  values.foldl EnumDef.addValue { name := name, values := [] }

/-- Adds a field unless there is one of its name. -/
def appendField (fields : List Field) (f : Field) : List Field :=
  if fields.any (·.name == f.name) then fields else fields ++ [f]

def ObjectKey.all (n : Nat) : List (ObjectKey n) :=
  (List.finRange n).map .parsed ++ (List.finRange n).map .merged

theorem ObjectKey.mem_all {n : Nat} (k : ObjectKey n) : k ∈ ObjectKey.all n := by
  cases k <;> simp [all, List.mem_finRange]

/-- The object types under construction, the innermost first. -/
abbrev Visiting (n : Nat) := List (ObjectKey n × String)

def Visiting.unseen {n : Nat} (vs : Visiting n) : Nat :=
  ResourceGraph.unseen (ObjectKey.all n) (vs.map (·.1))

theorem Visiting.unseen_cons_lt {n : Nat} {vs : Visiting n} {k : ObjectKey n} (name : String)
    (h : k ∉ vs.map (·.1)) : Visiting.unseen ((k, name) :: vs) < Visiting.unseen vs :=
  ResourceGraph.unseen_cons_lt k.mem_all h

abbrev Compiling (n : Nat) (α : Type) := StateT (Registry n) (Except CompileError) α

namespace Compiling

variable {n : Nat} (t : NodeTable n)

def isClaimed (name kind : String) (source : Source n) : Compiling n Bool := do
  match (← get).answer name kind source with
  | .ok b => return b
  | .error e => throw e

def checkReserved (name kind : String) : Compiling n Unit :=
  if name ∈ reservedTypeNames then throw (.collision ⟨name, "reserved type", kind⟩) else pure ()

def scalarName (node : Option (Node n)) : Compiling n String :=
  match t.scalarOf node with
  | .ok s => pure s
  | .error e => throw (.schema e)

/-- An enumeration without values is a string. -/
def compileEnum (id : Fin n) (values : List Value) (type : Value) (name : String) :
    Compiling n String := do
  if values.isEmpty then return defaultScalar
  checkReserved name "enum"
  let source := Source.node (.enumeration id values type)
  if ← isClaimed name "enum" source then return name
  modify fun r => (r.claim name "enum" source).addEnum (EnumDef.ofValues name values)
  return name

/-- An object type has at least one field. -/
def withSomeField (fields : List Field) : List Field :=
  if fields.isEmpty then [{ name := "_empty", typeName := defaultScalar }] else fields

mutual

/-- Compiles an object under a name and gives the name of its type. -/
def compileObject (visiting : Visiting n) (key : ObjectKey n)
    (properties : List (String × Node n)) (required : List String) (additional : Option (Node n))
    (other : Value) (name : String) : Compiling n String := do
  if h : key ∈ visiting.map (·.1) then return (visiting.lookup key).getD name
  else
    have := Visiting.unseen_cons_lt name h
    checkReserved name "type"
    let source := Source.node (.object key properties required additional other)
    if ← isClaimed name "type" source then return name
    modify (·.claim name "type" source)
    let fields ← compileFields ((key, name) :: visiting) required name properties []
    modify (·.addType { name := name, fields := withSomeField fields })
    return name
termination_by (visiting.unseen, 0)

/-- Compiles properties in order. Of two fields of one name the first stays, but both are compiled. -/
def compileFields (visiting : Visiting n) (required : List String) (parent : String)
    (properties : List (String × Node n)) (fields : List Field) : Compiling n (List Field) := do
  match properties with
  | [] => return fields
  | (name, node) :: rest =>
    let field ← compileField visiting required parent name node
    compileFields visiting required parent rest (appendField fields field)
termination_by (visiting.unseen, 3 + properties.length)

def compileField (visiting : Visiting n) (required : List String) (parent name : String)
    (node : Node n) : Compiling n Field := do
  let fieldName := Naming.sanitizeFieldName name
  let field : Field :=
    { name := fieldName, typeName := defaultScalar, isOptional := name ∉ required,
      sourceName := some name }
  match t.resolve node with
  | some (.enumeration id values type) =>
    let type ← compileEnum id values type (Naming.typeName fieldName parent)
    return { field with typeName := type }
  | some (.array _ none) => return { field with isList := true }
  | some (.array _ (some items)) =>
    let type ← compileType visiting items (Naming.typeName (fieldName ++ "Item") parent)
    return { field with typeName := type, isList := true }
  | some (.object key properties required additional other) =>
    let type ← compileObject visiting key properties required additional other
      (Naming.typeName fieldName parent)
    return { field with typeName := type }
  | resolved => return { field with typeName := ← scalarName t resolved }
termination_by (visiting.unseen, 2)

/-- Compiles the items of a list. -/
def compileType (visiting : Visiting n) (node : Node n) (name : String) : Compiling n String := do
  match t.resolve node with
  | some (.enumeration id values type) => compileEnum id values type name
  | some (.object key properties required additional other) =>
    compileObject visiting key properties required additional other name
  | resolved => scalarName t resolved
termination_by (visiting.unseen, 1)

end

/-- The page type of a resource. -/
def connectionFields (typeName : String) : List Field :=
  [{ name := "items", typeName := typeName, isList := true, isOptional := false,
     isItemOptional := false },
    { name := "total", typeName := "Int", isOptional := false },
    { name := "limit", typeName := "Int", isOptional := false },
    { name := "offset", typeName := "Int", isOptional := false },
    { name := "hasNext", typeName := "Boolean", isOptional := false }]

def compileConnection (typeName : String) : Compiling n Unit := do
  let name := typeName ++ "Connection"
  let source := Source.literal [.str "connection", .str typeName]
  if ← isClaimed name "type" source then return
  modify fun r =>
    (r.claim name "type" source).addType { name := name, fields := connectionFields typeName }

/-- The arguments that every filter has. -/
def commonFilterFields : List Field :=
  [{ name := "search", typeName := "String" }, { name := "limit", typeName := "Int" },
    { name := "offset", typeName := "Int" }]

/-- The filter field of a property, for properties that are scalars or generated enumerations. -/
def filterField? (typeName : String) (property : String × Node n) :
    Compiling n (Option Field) := do
  let fieldName := Naming.sanitizeFieldName property.1
  let field (type : String) : Field :=
    { name := fieldName, typeName := type, sourceName := some property.1 }
  match t.resolve property.2 with
  | some (.enumeration ..) =>
    let enumName := Naming.typeName fieldName typeName
    return if Keyed.hasKey enumName (← get).api.enums then some (field enumName) else none
  | some (.scalar key type format) =>
    return some (field (← scalarName t (some (.scalar key type format))))
  | _ => return none

def filterFields (typeName : String) :
    List (String × Node n) → List Field → Compiling n (List Field)
  | [], fields => return fields
  | p :: rest, fields => do
    match ← filterField? t typeName p with
    | some f => filterFields typeName rest (appendField fields f)
    | none => filterFields typeName rest fields

def compileFilter (properties : List (String × Node n)) (typeName : String) :
    Compiling n Unit := do
  let name := typeName ++ "Filter"
  let source := Source.literal [.str "filter", .str typeName]
  if ← isClaimed name "input" source then return
  modify (·.claim name "input" source)
  let fields ← filterFields t typeName properties commonFilterFields
  modify (·.addType { name := name, fields := fields, isInput := true })

end Compiling

/-- Why a resource is left out. -/
inductive Skip where
  | noMainSchema
  | reservedType (typeName : String)
  | takenField (field : String)
  | sameNames (name : String)
  | notObject (description : String)
deriving DecidableEq

def Skip.message (resource : String) : Skip → String
  | .noMainSchema => "No main schema found for " ++ resource
  | .reservedType typeName =>
    "Skipping " ++ resource ++ ": type name " ++ typeName ++ " is reserved"
  | .takenField field =>
    "Skipping " ++ resource ++ ": query field " ++ field ++ " is already taken"
  | .sameNames name =>
    "Skipping " ++ resource ++ ": singular and plural names are both " ++ name
  | .notObject description =>
    "Skipping " ++ resource ++ ": main schema is " ++ description ++ ", not an object"

/-- The names that a resource generates. -/
structure ResourceNames where
  singular : String
  typeName : String
  listField : String
  singleField : String

def ResourceNames.of (naming : Naming) (resource : String) : ResourceNames :=
  let singular := naming.singular resource
  { singular := singular
    typeName := Naming.typeName singular ""
    listField := Naming.sanitizeFieldName resource
    singleField := Naming.sanitizeFieldName singular }

/-- Why a resource with a main schema cannot have its names. -/
def ResourceNames.conflict? (names : ResourceNames) (api : Api) : Option Skip :=
  let taken (f : String) : Bool := f ∈ reservedQueryFields || api.hasQueryField f
  if names.typeName ∈ reservedTypeNames then some (.reservedType names.typeName)
  else if taken names.listField then some (.takenField names.listField)
  else if taken names.singleField then some (.takenField names.singleField)
  else if names.listField = names.singleField then some (.sameNames names.listField)
  else none

/-- The query fields of a resource: a page of records, and one record. -/
def Resource.queryFields (r : Resource) : List Field :=
  [{ name := r.listField, typeName := r.connectionType, isOptional := false,
     arguments :=
       [{ name := "search", typeName := "String" }, { name := "limit", typeName := "Int" },
         { name := "offset", typeName := "Int" }] },
    { name := r.singleField, typeName := r.typeName,
      arguments := [{ name := "id", typeName := "ID", isOptional := false }] }]

def Api.addResource (a : Api) (r : Resource) : Api :=
  { a with resources := a.resources ++ [r], queryFields := a.queryFields ++ r.queryFields }

structure CompileOptions where
  naming : Naming := .english
  searchDepth : Nat := 4

/-- A compilation between two resources. -/
structure Compilation (n : Nat) where
  table : NodeTable n := .empty
  registry : Registry n := {}
  log : List LogLine := []

namespace Compilation

variable {g : RawGraph}

def skip (c : Compilation g.size) (resource : String) (s : Skip) : Compilation g.size :=
  { c with log := c.log ++ [⟨.warning, s.message resource⟩] }

/-- Compiles a resource from the resolved object of its main schema. -/
def addObject (o : CompileOptions) (t : NodeTable g.size) (names : ResourceNames)
    (resource : String) (key : ObjectKey g.size) (properties : List (String × Node g.size))
    (required : List String) (additional : Option (Node g.size)) (other : Value) :
    Compiling g.size Unit := do
  let _ ← Compiling.compileObject t [] key properties required additional other names.typeName
  Compiling.compileConnection names.typeName
  Compiling.compileFilter t properties names.typeName
  let root := Node.object key properties required additional other
  let r : Resource :=
    { name := resource
      typeName := names.typeName
      listField := names.listField
      singleField := names.singleField
      searchable := t.stringPaths o.searchDepth "" (some root) }
  modify fun reg => { reg with api := reg.api.addResource r }

/-- Compiles one resource or leaves it out with a warning. -/
def addResource (o : CompileOptions) (c : Compilation g.size) (spec : ResourceSpec g.size) :
    Except CompileError (Compilation g.size) :=
  let names := ResourceNames.of o.naming spec.name
  match mainSchema? spec.schemas names.singular with
  | none | some .null => .ok (c.skip spec.name .noMainSchema)
  | some raw =>
    match names.conflict? c.registry.api with
    | some s => .ok (c.skip spec.name s)
    | none =>
      match Parsing.run g raw c.table with
      | (.error e, _) => .error (.schema e)
      | (.ok node, table) =>
        let c := { c with table := table }
        match table.resolve node with
        | some (.object key properties required additional other) =>
          match (addObject o table names spec.name key properties required additional other).run
              c.registry with
          | .error e => .error e
          | .ok (_, registry) => .ok { c with registry := registry }
        | resolved => .ok (c.skip spec.name (.notObject (table.describe resolved)))

/-- Compiles resources in order. A failure keeps what has been logged before it. -/
def addResources (o : CompileOptions) :
    List (ResourceSpec g.size) → Compilation g.size →
    Except (CompileError × List LogLine) (Compilation g.size)
  | [], c => .ok c
  | spec :: rest, c =>
    match c.addResource o spec with
    | .error e => .error (e, c.log)
    | .ok c => addResources o rest c

end Compilation

/-- The closing lines of a compilation. -/
def Api.summary (a : Api) (specs : Nat) : List LogLine :=
  a.resources.map (fun r =>
    ⟨.info, r.name ++ ": " ++ toString r.searchable.length ++ " searchable fields"⟩)
  ++ [⟨.info, "Compiled " ++ toString a.resources.length ++ " of " ++ toString specs
    ++ " resources (" ++ toString a.types.length ++ " types, " ++ toString a.enums.length
    ++ " enums, " ++ toString a.inputs.length ++ " inputs)"⟩]

/-- Compiles specifications to an API, with the lines that are logged. -/
def compile (o : CompileOptions) (s : Specs) :
    Except (CompileError × List LogLine) (Api × List LogLine) :=
  match Compilation.addResources o s.specs {} with
  | .error e => .error e
  | .ok c => .ok (c.registry.api, c.log ++ c.registry.api.summary s.specs.length)

/-- The searchable paths of every resource, also of one that would not be compiled; a resource
without a main schema has none. -/
def searchablePaths (naming : Naming) (depth : Nat) (s : Specs) :
    Except SchemaError (Keyed.Entries (List String)) :=
  go s.specs .empty []
where
  go : List (ResourceSpec s.graph.size) → NodeTable s.graph.size →
      Keyed.Entries (List String) → Except SchemaError (Keyed.Entries (List String))
    | [], _, acc => .ok acc
    | spec :: rest, t, acc =>
      match mainSchema? spec.schemas (naming.singular spec.name) with
      | none | some .null => go rest t (Keyed.insert spec.name [] acc)
      | some raw =>
        match Parsing.run s.graph raw t with
        | (.error e, _) => .error e
        | (.ok node, t) =>
          go rest t (Keyed.insert spec.name (t.stringPaths depth "" (some node)) acc)

end ResourceGraph
