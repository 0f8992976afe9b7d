import ResourceGraph.Api.Compilation
import ResourceGraph.Proofs.Schema.Decision
import ResourceGraph.Proofs.Schema.Evaluation

/-!
# Compilation as a recursion over numbers

Compilation goes into an object only where it is not inside it already. What is done with a field
is written with its object types still to be compiled, by whatever compiler of objects; compiling
with a number of levels that are left gives the same wherever there are levels enough, so what given
documents compile to is decided by evaluation.
-/

namespace ResourceGraph

deriving instance DecidableEq for LogLine, EnumValue, EnumDef, Source, Collision, CompileError

/-- Whether a success is a given one, for errors of any kind. -/
instance decidableEqOk {ε α : Type} [DecidableEq α] (x : Except ε α) (a : α) :
    Decidable (x = .ok a) :=
  match x with
  | .ok b => decidable_of_iff (b = a) ⟨congrArg _, Except.ok.inj⟩
  | .error _ => .isFalse nofun

/-- Whether there is a success with a property that can be decided. -/
instance decidableExistsOk {ε α : Type} (x : Except ε α) (P : α → Prop) [DecidablePred P] :
    Decidable (∃ a, x = .ok a ∧ P a) :=
  match x with
  | .ok b => decidable_of_iff (P b) ⟨fun h => ⟨b, rfl, h⟩, fun ⟨_, he, h⟩ => Except.ok.inj he ▸ h⟩
  | .error _ => .isFalse nofun

/-- Whether a failure is a given one, for results of any kind. -/
instance decidableEqError {ε α : Type} [DecidableEq ε] (x : Except ε α) (e : ε) :
    Decidable (x = .error e) :=
  match x with
  | .ok _ => .isFalse nofun
  | .error d => decidable_of_iff (d = e) ⟨congrArg _, Except.error.inj⟩

/-! ## Object types -/

namespace Compiling

variable {n : Nat}

/-- A compiler of objects, which gives the name of their type. -/
abbrev Objects (n : Nat) :=
  ObjectKey n → List (String × Node n) → List String → Option (Node n) → Value → String →
    Compiling n String

variable (t : NodeTable n) (object : Objects n)

def typeWith (node : Node n) (name : String) : Compiling n String := do
  match t.resolve node with
  | some (.enumeration id values type) => compileEnum id values type name
  | some (.object key properties required additional other) =>
    object key properties required additional other name
  | resolved => scalarName t resolved

def fieldWith (required : List String) (parent name : String) (node : Node n) :
    Compiling n Field := do
  let fieldName := Naming.sanitizeFieldName name
  let field : Field :=
    { name := fieldName, typeName := defaultScalar, isOptional := name ∉ required,
      sourceName := some name }
  match t.resolve node with
  | some (.enumeration id values type) =>
    let type ← compileEnum id values type (Naming.typeName fieldName parent)
    return { field with typeName := type }
  | some (.array _ none) => return { field with isList := true }
  | some (.array _ (some items)) =>
    let type ← typeWith t object items (Naming.typeName (fieldName ++ "Item") parent)
    return { field with typeName := type, isList := true }
  | some (.object key properties required additional other) =>
    let type ← object key properties required additional other (Naming.typeName fieldName parent)
    return { field with typeName := type }
  | resolved => return { field with typeName := ← scalarName t resolved }

/-- The fields of properties, whose object types are compiled by `object`. -/
def fieldsWith (required : List String) (parent : String) :
    List (String × Node n) → List Field → Compiling n (List Field)
  | [], fields => return fields
  | (name, node) :: rest, fields => do
    let field ← fieldWith t object required parent name node
    fieldsWith required parent rest (appendField fields field)

/-- Compiles an object with at most `limit` levels of objects inside. -/
def objectUpTo (limit : Nat) (visiting : Visiting n) : Objects n :=
  fun key properties required additional other name => do
    if (visiting.map (·.1)).contains key then return (visiting.lookup key).getD name
    else
      checkReserved name "type"
      let source := Source.node (.object key properties required additional other)
      if ← isClaimed name "type" source then return name
      modify (·.claim name "type" source)
      let fields ←
        match limit with
        | 0 => pure []
        | limit + 1 =>
          fieldsWith t (objectUpTo limit ((key, name) :: visiting)) required name properties []
      modify (·.addType { name := name, fields := withSomeField fields })
      return name

variable {t}

theorem compileType_eq (visiting : Visiting n) :
    compileType t visiting = typeWith t (compileObject t visiting) := by
  funext node name
  rw [compileType]
  rfl

theorem compileField_eq (visiting : Visiting n) :
    compileField t visiting = fieldWith t (compileObject t visiting) := by
  funext required parent name node
  rw [compileField, compileType_eq]
  rfl

theorem compileFields_eq (visiting : Visiting n) :
    compileFields t visiting = fieldsWith t (compileObject t visiting) := by
  funext required parent properties
  induction properties with
  | nil => funext fields; rw [compileFields, fieldsWith]
  | cons p rest ih => funext fields; rw [compileFields, fieldsWith, compileField_eq, ih]

/-- Compiling an object that is not under construction compiles its fields inside it. -/
theorem compileObject_eq (visiting : Visiting n) (key : ObjectKey n)
    (properties : List (String × Node n)) (required : List String) (additional : Option (Node n))
    (other : Value) (name : String) :
    compileObject t visiting key properties required additional other name = do
      if key ∈ visiting.map (·.1) then return (visiting.lookup key).getD name
      else
        checkReserved name "type"
        let source := Source.node (.object key properties required additional other)
        if ← isClaimed name "type" source then return name
        modify (·.claim name "type" source)
        let fields ←
          fieldsWith t (compileObject t ((key, name) :: visiting)) required name properties []
        modify (·.addType { name := name, fields := withSomeField fields })
        return name := by
  rw [compileObject, compileFields_eq]
  rfl

/-- What holds inside an object whenever it holds in all objects that are not entered yet. -/
theorem visiting_induction {P : Visiting n → Prop}
    (step : ∀ visiting, (∀ key name, key ∉ visiting.map (·.1) → P ((key, name) :: visiting)) →
      P visiting) (visiting : Visiting n) : P visiting :=
  step visiting fun key name _ => visiting_induction step ((key, name) :: visiting)
termination_by visiting.unseen
decreasing_by exact Visiting.unseen_cons_lt name ‹_›

/-- With no level left, every object is under construction. -/
theorem mem_of_unseen_le_zero {visiting : Visiting n} (h : visiting.unseen ≤ 0)
    (key : ObjectKey n) : key ∈ visiting.map (·.1) :=
  Classical.byContradiction fun hk => absurd (Visiting.unseen_cons_lt "" hk) (by omega)

theorem unseen_nil_le (n : Nat) : Visiting.unseen ([] : Visiting n) ≤ 2 * n := by
  refine Nat.le_trans List.countP_le_length (Nat.le_of_eq ?_)
  simp only [ObjectKey.all, List.length_append, List.length_map, List.length_finRange]
  omega

theorem compileObject_eq_upTo {limit : Nat} {visiting : Visiting n}
    (enough : visiting.unseen ≤ limit) :
    compileObject t visiting = objectUpTo t limit visiting := by
  induction limit generalizing visiting with
  | zero =>
      funext key properties required additional other name
      rw [compileObject_eq, objectUpTo, if_pos (mem_of_unseen_le_zero enough key),
        if_pos (List.contains_iff_mem.mpr (mem_of_unseen_le_zero enough key))]
  | succ limit ih =>
      funext key properties required additional other name
      rw [compileObject_eq, objectUpTo]
      by_cases hk : key ∈ visiting.map (·.1)
      · rw [if_pos hk, if_pos (List.contains_iff_mem.mpr hk)]
      · have := Visiting.unseen_cons_lt name hk
        rw [if_neg hk, if_neg (mt List.contains_iff_mem.mp hk), ih (by omega)]

end Compiling

/-! ## Resources -/

namespace Compilation

variable {g : RawGraph}

def addObjectUpTo (o : CompileOptions) (t : NodeTable g.size) (names : ResourceNames)
    (resource : String) (key : ObjectKey g.size) (properties : List (String × Node g.size))
    (required : List String) (additional : Option (Node g.size)) (other : Value) :
    Compiling g.size Unit := do
  let _ ← Compiling.objectUpTo t (2 * g.size) [] key properties required additional other
    names.typeName
  Compiling.compileConnection names.typeName
  Compiling.compileFilter t properties names.typeName
  let root := Node.object key properties required additional other
  let r : Resource :=
    { name := resource
      typeName := names.typeName
      listField := names.listField
      singleField := names.singleField
      searchable := t.stringPaths o.searchDepth "" (some root) }
  modify fun reg => { reg with api := reg.api.addResource r }

def addResourceUpTo (o : CompileOptions) (c : Compilation g.size) (spec : ResourceSpec g.size) :
    Except CompileError (Compilation g.size) :=
  let names := ResourceNames.of o.naming spec.name
  match mainSchema? spec.schemas names.singular with
  | none | some .null => .ok (c.skip spec.name .noMainSchema)
  | some raw =>
    match names.conflict? c.registry.api with
    | some s => .ok (c.skip spec.name s)
    | none =>
      match ExceptT.run (Parsing.parseUpTo g g.size [] raw) c.table with
      | (.error e, _) => .error (.schema e)
      | (.ok node, table) =>
        let c := { c with table := table }
        match table.resolve node with
        | some (.object key properties required additional other) =>
          match (addObjectUpTo o table names spec.name key properties required additional other).run
              c.registry with
          | .error e => .error e
          | .ok (_, registry) => .ok { c with registry := registry }
        | resolved => .ok (c.skip spec.name (.notObject (table.describe resolved)))

def addResourcesUpTo (o : CompileOptions) :
    List (ResourceSpec g.size) → Compilation g.size →
    Except (CompileError × List LogLine) (Compilation g.size)
  | [], c => .ok c
  | spec :: rest, c =>
    match c.addResourceUpTo o spec with
    | .error e => .error (e, c.log)
    | .ok c => addResourcesUpTo o rest c

theorem addObject_eq_upTo : addObject (g := g) = addObjectUpTo := by
  funext o t names resource key properties required additional other
  rw [addObject, addObjectUpTo, Compiling.compileObject_eq_upTo (Compiling.unseen_nil_le g.size)]

theorem addResource_eq_upTo : addResource (g := g) = addResourceUpTo := by
  funext o c spec
  unfold addResource
  simp only [Parsing.run_eq_upTo, addObject_eq_upTo]
  rfl

theorem addResources_eq_upTo : addResources (g := g) = addResourcesUpTo := by
  funext o specs
  induction specs with
  | nil => rfl
  | cons spec rest ih =>
      funext c
      rw [addResources, addResource_eq_upTo, ih]
      rfl

end Compilation

/-- Compiles specifications level by level. -/
def compileUpTo (o : CompileOptions) (s : Specs) :
    Except (CompileError × List LogLine) (Api × List LogLine) :=
  match Compilation.addResourcesUpTo o s.specs {} with
  | .error e => .error e
  | .ok c => .ok (c.registry.api, c.log ++ c.registry.api.summary s.specs.length)

theorem compile_eq_upTo : compile = compileUpTo := by
  funext o s
  rw [compile, Compilation.addResources_eq_upTo]
  rfl

/-- The searchable paths of every resource, read level by level. -/
def searchablePathsUpTo (naming : Naming) (depth : Nat) (s : Specs) :
    Except SchemaError (Keyed.Entries (List String)) :=
  go s.specs .empty []
where
  go : List (ResourceSpec s.graph.size) → NodeTable s.graph.size →
      Keyed.Entries (List String) → Except SchemaError (Keyed.Entries (List String))
    | [], _, acc => .ok acc
    | spec :: rest, t, acc =>
      match mainSchema? spec.schemas (naming.singular spec.name) with
      | none | some .null => go rest t (Keyed.insert spec.name [] acc)
      | some raw =>
        match ExceptT.run (Parsing.parseUpTo s.graph s.graph.size [] raw) t with
        | (.error e, _) => .error e
        | (.ok node, t) =>
          go rest t (Keyed.insert spec.name (t.stringPaths depth "" (some node)) acc)

theorem searchablePaths_eq_upTo : searchablePaths = searchablePathsUpTo := by
  funext naming depth s
  have same : searchablePaths.go naming depth s = searchablePathsUpTo.go naming depth s := by
    funext specs
    induction specs with
    | nil => rfl
    | cons spec rest ih =>
        funext t acc
        simp only [searchablePaths.go, Parsing.run_eq_upTo, ih]
        rfl
  rw [searchablePaths, same]
  rfl

end ResourceGraph
