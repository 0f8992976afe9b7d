import ResourceGraph.Proofs.Api.Resources

/-!
# Compilation on the record

A compilation that writes down, in order, each request for a name with its answer and each
definition that it adds. The registry is read off the record, and the record is kept when the
compilation fails. Without the record it is the other one.
-/

namespace ResourceGraph

variable {n : Nat}

/-- What goes on the record. A name that nobody asked for before is claimed by the request. -/
inductive Event (n : Nat) where
  | request (name kind : String) (source : Source n) (answer : Except CompileError Bool)
  | enumeration (e : EnumDef)
  | type (d : TypeDef)
  | resource (a : Resource)

namespace Registry

/-- What an event does to a registry. -/
def act (r : Registry n) : Event n → Registry n
  | .request name kind source (.ok false) => r.claim name kind source
  | .request .. => r
  | .enumeration e => r.addEnum e
  | .type d => r.addType d
  | .resource a => { r with api := r.api.addResource a }

/-- The registry that a record leads to. -/
def replay (es : List (Event n)) : Registry n := es.foldl act {}

@[simp] theorem replay_nil : replay ([] : List (Event n)) = {} := rfl

@[simp] theorem replay_concat (es : List (Event n)) (e : Event n) :
    replay (es ++ [e]) = (replay es).act e := List.foldl_concat ..

end Registry

/-- A compilation on the record. -/
abbrev Recording (n : Nat) (α : Type) := ExceptT CompileError (StateM (List (Event n))) α

namespace Recording

/-- How a compilation ends, with the record up to there. -/
abbrev outcome {α : Type} (x : Recording n α) (es : List (Event n)) :
    Except CompileError α × List (Event n) := ExceptT.run x es

/-- What only looks at the registry. -/
def look {α : Type} (x : Compiling n α) : Recording n α :=
  fun es => ((x.run (Registry.replay es)).map (·.1), es)

def note (e : Event n) : Recording n Unit := modify fun es => es ++ [e]

/-- Whether a name was claimed before, by an equal source. If nobody did, this claims it. -/
def request (name kind : String) (source : Source n) : Recording n Bool := fun es =>
  let answer := (Registry.replay es).answer name kind source
  (answer, es ++ [.request name kind source answer])

variable (t : NodeTable n)

def compileEnum (id : Fin n) (values : List Value) (type : Value) (name : String) :
    Recording n String := do
  if values.isEmpty then return defaultScalar
  look (Compiling.checkReserved name "enum")
  if ← request name "enum" (.node (.enumeration id values type)) then return name
  note (.enumeration (EnumDef.ofValues name values))
  return name

mutual

def compileObject (visiting : Visiting n) (key : ObjectKey n)
    (properties : List (String × Node n)) (required : List String) (additional : Option (Node n))
    (other : Value) (name : String) : Recording n String := do
  if h : key ∈ visiting.map (·.1) then return (visiting.lookup key).getD name
  else
    have := Visiting.unseen_cons_lt name h
    look (Compiling.checkReserved name "type")
    if ← request name "type" (.node (.object key properties required additional other)) then
      return name
    let fields ← compileFields ((key, name) :: visiting) required name properties []
    note (.type { name := name, fields := Compiling.withSomeField fields })
    return name
termination_by (visiting.unseen, 0)

def compileFields (visiting : Visiting n) (required : List String) (parent : String)
    (properties : List (String × Node n)) (fields : List Field) : Recording n (List Field) := do
  match properties with
  | [] => return fields
  | (name, node) :: rest =>
    let field ← compileField visiting required parent name node
    compileFields visiting required parent rest (appendField fields field)
termination_by (visiting.unseen, 3 + properties.length)

def compileField (visiting : Visiting n) (required : List String) (parent name : String)
    (node : Node n) : Recording n Field := do
  let fieldName := Naming.sanitizeFieldName name
  let field : Field :=
    { name := fieldName, typeName := defaultScalar, isOptional := name ∉ required,
      sourceName := some name }
  match t.resolve node with
  | some (.enumeration id values type) =>
    let type ← compileEnum id values type (Naming.typeName fieldName parent)
    return { field with typeName := type }
  | some (.array _ none) => return { field with isList := true }
  | some (.array _ (some items)) =>
    let type ← compileType visiting items (Naming.typeName (fieldName ++ "Item") parent)
    return { field with typeName := type, isList := true }
  | some (.object key properties required additional other) =>
    let type ← compileObject visiting key properties required additional other
      (Naming.typeName fieldName parent)
    return { field with typeName := type }
  | resolved => return { field with typeName := ← look (Compiling.scalarName t resolved) }
termination_by (visiting.unseen, 2)

def compileType (visiting : Visiting n) (node : Node n) (name : String) : Recording n String := do
  match t.resolve node with
  | some (.enumeration id values type) => compileEnum id values type name
  | some (.object key properties required additional other) =>
    compileObject visiting key properties required additional other name
  | resolved => look (Compiling.scalarName t resolved)
termination_by (visiting.unseen, 1)

end

def compileConnection (typeName : String) : Recording n Unit := do
  let name := typeName ++ "Connection"
  if ← request name "type" (.literal [.str "connection", .str typeName]) then return
  note (.type { name := name, fields := Compiling.connectionFields typeName })

def compileFilter (properties : List (String × Node n)) (typeName : String) :
    Recording n Unit := do
  let name := typeName ++ "Filter"
  if ← request name "input" (.literal [.str "filter", .str typeName]) then return
  let fields ← look (Compiling.filterFields t typeName properties Compiling.commonFilterFields)
  note (.type { name := name, fields := fields, isInput := true })

/-! ## One level -/

/-- A compiler of objects, which keeps a record. -/
abbrev Objects (n : Nat) :=
  ObjectKey n → List (String × Node n) → List String → Option (Node n) → Value → String →
    Recording n String

section

variable (object : Objects n)

def typeWith (node : Node n) (name : String) : Recording n String := do
  match t.resolve node with
  | some (.enumeration id values type) => compileEnum id values type name
  | some (.object key properties required additional other) =>
    object key properties required additional other name
  | resolved => look (Compiling.scalarName t resolved)

def fieldWith (required : List String) (parent name : String) (node : Node n) :
    Recording n Field := do
  let fieldName := Naming.sanitizeFieldName name
  let field : Field :=
    { name := fieldName, typeName := defaultScalar, isOptional := name ∉ required,
      sourceName := some name }
  match t.resolve node with
  | some (.enumeration id values type) =>
    let type ← compileEnum id values type (Naming.typeName fieldName parent)
    return { field with typeName := type }
  | some (.array _ none) => return { field with isList := true }
  | some (.array _ (some items)) =>
    let type ← typeWith t object items (Naming.typeName (fieldName ++ "Item") parent)
    return { field with typeName := type, isList := true }
  | some (.object key properties required additional other) =>
    let type ← object key properties required additional other (Naming.typeName fieldName parent)
    return { field with typeName := type }
  | resolved => return { field with typeName := ← look (Compiling.scalarName t resolved) }

/-- The fields of properties, whose object types are compiled by `object`. -/
def fieldsWith (required : List String) (parent : String) :
    List (String × Node n) → List Field → Recording n (List Field)
  | [], fields => return fields
  | (name, node) :: rest, fields => do
    let field ← fieldWith t object required parent name node
    fieldsWith required parent rest (appendField fields field)

end

theorem compileType_eq (visiting : Visiting n) :
    compileType t visiting = typeWith t (compileObject t visiting) := by
  funext node name
  rw [compileType]
  rfl

theorem compileField_eq (visiting : Visiting n) :
    compileField t visiting = fieldWith t (compileObject t visiting) := by
  funext required parent name node
  rw [compileField, compileType_eq]
  rfl

theorem compileFields_eq (visiting : Visiting n) :
    compileFields t visiting = fieldsWith t (compileObject t visiting) := by
  funext required parent properties
  induction properties with
  | nil => funext fields; rw [compileFields, fieldsWith]
  | cons p rest ih => funext fields; rw [compileFields, fieldsWith, compileField_eq, ih]

/-- Compiling an object that is not under construction compiles its fields inside it. -/
theorem compileObject_eq (visiting : Visiting n) (key : ObjectKey n)
    (properties : List (String × Node n)) (required : List String) (additional : Option (Node n))
    (other : Value) (name : String) :
    compileObject t visiting key properties required additional other name = do
      if key ∈ visiting.map (·.1) then return (visiting.lookup key).getD name
      else
        look (Compiling.checkReserved name "type")
        if ← request name "type" (.node (.object key properties required additional other)) then
          return name
        let fields ←
          fieldsWith t (compileObject t ((key, name) :: visiting)) required name properties []
        note (.type { name := name, fields := Compiling.withSomeField fields })
        return name := by
  rw [compileObject, compileFields_eq]
  rfl

/-! ## The same compilation -/

/-- Without its record a compilation is the other one. -/
def Erases {α : Type} (x : Recording n α) (y : Compiling n α) : Prop :=
  ∀ es, y.run (Registry.replay es)
    = (outcome x es).1.map fun a => (a, Registry.replay (outcome x es).2)

variable {α β : Type}

theorem erases_pure (a : α) : Erases (n := n) (pure a) (pure a) := fun _ => rfl

theorem outcome_bind (x : Recording n α) (f : α → Recording n β) (es : List (Event n)) :
    outcome (x >>= f) es = match outcome x es with
      | (.ok a, es') => outcome (f a) es'
      | (.error e, es') => (.error e, es') := by
  show outcome (ExceptT.bind x f) es = _
  simp only [outcome, ExceptT.run, ExceptT.bind, ExceptT.mk, bind, StateT.bind]
  rcases x es with ⟨r, es'⟩
  cases r <;> rfl

theorem Erases.bind {x : Recording n α} {y : Compiling n α} {f : α → Recording n β}
    {h : α → Compiling n β} (hx : Erases x y) (hf : ∀ a, Erases (f a) (h a)) :
    Erases (x >>= f) (y >>= h) := by
  intro es
  rw [StateT.run_bind, hx es, outcome_bind]
  rcases outcome x es with ⟨e | a, es'⟩
  · rfl
  · exact hf a es'

theorem erases_look {x : Compiling n α} (hx : ∀ r, Compiling.Preserves (· = r) x) :
    Erases (look x) x := by
  intro es
  show x.run (Registry.replay es) = ((x.run (Registry.replay es)).map (·.1)).map _
  rcases ran : x.run (Registry.replay es) with e | ⟨a, r⟩
  · rfl
  · have same := hx (Registry.replay es) (Registry.replay es) a r rfl ran
    rw [same]
    rfl

theorem erases_note {e : Event n} {f : Registry n → Registry n} (h : ∀ r, f r = r.act e) :
    Erases (note e) (modify f) := by
  intro es
  show Except.ok ((), f (Registry.replay es)) = Except.ok ((), Registry.replay (es ++ [e]))
  rw [h, Registry.replay_concat]

theorem isClaimed_run (name kind : String) (source : Source n) (r : Registry n) :
    (Compiling.isClaimed name kind source).run r
      = (r.answer name kind source).map fun claimed => (claimed, r) := by
  unfold Compiling.isClaimed
  rw [StateT.run_bind, StateT.run_get, pure_bind]
  cases r.answer name kind source <;> rfl

theorem outcome_request (name kind : String) (source : Source n) (es : List (Event n)) :
    outcome (request name kind source) es
      = ((Registry.replay es).answer name kind source,
        es ++ [.request name kind source ((Registry.replay es).answer name kind source)]) := rfl

/-- A request claims the name that the other compilation claims after it. -/
theorem Erases.request {name kind : String} {source : Source n} {f : Bool → Recording n α}
    {h : Bool → Compiling n α} {rest : Compiling n α} (known : Erases (f true) (h true))
    (fresh : Erases (f false) rest)
    (claims : ∀ r, (h false).run r = rest.run (r.claim name kind source)) :
    Erases (Recording.request name kind source >>= f)
      (Compiling.isClaimed name kind source >>= h) := by
  intro es
  rw [outcome_bind, outcome_request, StateT.run_bind, isClaimed_run]
  cases (Registry.replay es).answer name kind source with
  | error c => rfl
  | ok claimed =>
      cases claimed with
      | true =>
          have same := known (es ++ [.request name kind source (.ok true)])
          rw [Registry.replay_concat] at same
          exact same
      | false =>
          have same := fresh (es ++ [.request name kind source (.ok false)])
          rw [Registry.replay_concat] at same
          exact (claims _).trans same

theorem compileEnum_erases (id : Fin n) (values : List Value) (type : Value) (name : String) :
    Erases (compileEnum id values type name) (Compiling.compileEnum id values type name) := by
  unfold compileEnum Compiling.compileEnum
  split
  · exact erases_pure _
  · refine (erases_look fun r => Compiling.preserves_checkReserved name "enum").bind fun _ => ?_
    exact .request (erases_pure _) ((erases_note fun r => rfl).bind fun _ => erases_pure _)
      fun r => rfl

variable {t}

/-- Without its record a compiler of objects is the other one. -/
def ErasesObjects (object : Objects n) (object' : Compiling.Objects n) : Prop :=
  ∀ key properties required additional other name,
    Erases (object key properties required additional other name)
      (object' key properties required additional other name)

section

variable {object : Objects n} {object' : Compiling.Objects n}

theorem ErasesObjects.type (erases : ErasesObjects object object') (node : Node n)
    (name : String) :
    Erases (typeWith t object node name) (Compiling.typeWith t object' node name) := by
  unfold typeWith Compiling.typeWith
  have scalar (x : Option (Node n)) :
      Erases (look (Compiling.scalarName t x)) (Compiling.scalarName t x) :=
    erases_look fun r => Compiling.preserves_scalarName t x
  cases t.resolve node with
  | none => exact scalar _
  | some x =>
      cases x with
      | enumeration => exact compileEnum_erases _ _ _ _
      | object key properties required additional other =>
          exact erases key properties required additional other name
      | _ => exact scalar _

theorem ErasesObjects.field (erases : ErasesObjects object object') (required : List String)
    (parent name : String) (node : Node n) :
    Erases (fieldWith t object required parent name node)
      (Compiling.fieldWith t object' required parent name node) := by
  unfold fieldWith Compiling.fieldWith
  have scalar (x : Option (Node n)) (f : String → Field) :
      Erases (look (Compiling.scalarName t x) >>= fun type => pure (f type))
        (Compiling.scalarName t x >>= fun type => pure (f type)) :=
    (erases_look fun r => Compiling.preserves_scalarName t x).bind fun type => erases_pure _
  cases t.resolve node with
  | none => exact scalar _ _
  | some x =>
      cases x with
      | enumeration => exact (compileEnum_erases _ _ _ _).bind fun type => erases_pure _
      | array id items =>
          cases items with
          | none => exact erases_pure _
          | some items => exact (erases.type items _).bind fun type => erases_pure _
      | object key properties required' additional other =>
          exact (erases key properties required' additional other _).bind
            fun type => erases_pure _
      | _ => exact scalar _ _

theorem ErasesObjects.fields (erases : ErasesObjects object object') (required : List String)
    (parent : String) (properties : List (String × Node n)) (fields : List Field) :
    Erases (fieldsWith t object required parent properties fields)
      (Compiling.fieldsWith t object' required parent properties fields) := by
  induction properties generalizing fields with
  | nil => exact erases_pure _
  | cons p rest ih =>
      exact (erases.field required parent p.1 p.2).bind fun field => ih (appendField fields field)

end

theorem compileObject_erases (visiting : Visiting n) :
    ErasesObjects (compileObject t visiting) (Compiling.compileObject t visiting) := by
  induction visiting using Compiling.visiting_induction with
  | step visiting ih =>
      intro key properties required additional other name
      rw [compileObject_eq, Compiling.compileObject_eq]
      split
      · exact erases_pure _
      · rename_i h
        refine (erases_look fun r => Compiling.preserves_checkReserved name "type").bind
          fun _ => ?_
        exact .request (erases_pure _)
          (((ih key name h).fields required name properties []).bind fun fields =>
            (erases_note fun r => rfl).bind fun _ => erases_pure _) fun r => rfl

theorem compileConnection_erases (typeName : String) :
    Erases (n := n) (compileConnection typeName) (Compiling.compileConnection typeName) := by
  unfold compileConnection Compiling.compileConnection
  exact .request (erases_pure _) (erases_note fun r => rfl) fun r => rfl

theorem compileFilter_erases (properties : List (String × Node n)) (typeName : String) :
    Erases (compileFilter t properties typeName)
      (Compiling.compileFilter t properties typeName) := by
  unfold compileFilter Compiling.compileFilter
  exact .request (erases_pure _)
    ((erases_look fun r => Compiling.preserves_filterFields t typeName properties _).bind
      fun fields => erases_note fun r => rfl) fun r => rfl

end Recording

/-! ## Resources -/

namespace Compilation

variable {g : RawGraph}

def recordObject (o : CompileOptions) (t : NodeTable g.size) (names : ResourceNames)
    (resource : String) (key : ObjectKey g.size) (properties : List (String × Node g.size))
    (required : List String) (additional : Option (Node g.size)) (other : Value) :
    Recording g.size Unit := do
  let _ ← Recording.compileObject t [] key properties required additional other names.typeName
  Recording.compileConnection names.typeName
  Recording.compileFilter t properties names.typeName
  let root := Node.object key properties required additional other
  Recording.note (.resource (names.resource resource (t.stringPaths o.searchDepth "" (some root))))

def recordMain (o : CompileOptions) (c : Compilation g.size) (es : List (Event g.size))
    (spec : ResourceSpec g.size) (raw : RawValue g.size) :
    Except CompileError (Compilation g.size) × List (Event g.size) :=
  let names := ResourceNames.of o.naming spec.name
  match names.conflict? c.registry.api with
  | some s => (.ok (c.skip spec.name s), es)
  | none =>
    match Parsing.run g raw c.table with
    | (.error e, _) => (.error (.schema e), es)
    | (.ok node, table) =>
      let c := { c with table := table }
      match table.resolve node with
      | some (.object key properties required additional other) =>
        match (recordObject o table names spec.name key properties required additional
            other).outcome es with
        | (.error e, es) => (.error e, es)
        | (.ok _, es) => (.ok { c with registry := .replay es }, es)
      | resolved => (.ok (c.skip spec.name (.notObject (table.describe resolved))), es)

/-- Compiles one resource, from a compilation whose registry is the one that the record leads to. -/
def recordResource (o : CompileOptions) (c : Compilation g.size) (es : List (Event g.size))
    (spec : ResourceSpec g.size) :
    Except CompileError (Compilation g.size) × List (Event g.size) :=
  match mainSchema? spec.schemas (o.naming.singular spec.name) with
  | none | some .null => (.ok (c.skip spec.name .noMainSchema), es)
  | some raw => recordMain o c es spec raw

def recordResources (o : CompileOptions) :
    List (ResourceSpec g.size) → Compilation g.size → List (Event g.size) →
    Except (CompileError × List LogLine) (Compilation g.size) × List (Event g.size)
  | [], c, es => (.ok c, es)
  | spec :: rest, c, es =>
    match recordResource o c es spec with
    | (.error e, es) => (.error (e, c.log), es)
    | (.ok c, es) => recordResources o rest c es

theorem recordObject_erases (o : CompileOptions) (t : NodeTable g.size) (names : ResourceNames)
    (resource : String) (key : ObjectKey g.size) (properties : List (String × Node g.size))
    (required : List String) (additional : Option (Node g.size)) (other : Value) :
    (recordObject o t names resource key properties required additional other).Erases
      (addObject o t names resource key properties required additional other) := by
  unfold recordObject addObject
  refine (Recording.compileObject_erases [] _ _ _ _ _ _).bind fun _ => ?_
  refine (Recording.compileConnection_erases _).bind fun _ => ?_
  refine (Recording.compileFilter_erases _ _).bind fun _ => ?_
  exact Recording.erases_note fun r => rfl

/-- A compilation on the record ends as the other one, in the registry that the record leads to. -/
def Replays {ε : Type} (x : Except ε (Compilation g.size))
    (recorded : Except ε (Compilation g.size) × List (Event g.size)) : Prop :=
  x = recorded.1 ∧ ∀ c, recorded.1 = .ok c → c.registry = .replay recorded.2

variable {c : Compilation g.size} {es : List (Event g.size)}

theorem replays_ok {ε : Type} (recorded : c.registry = .replay es) :
    Replays (ε := ε) (.ok c) (.ok c, es) :=
  ⟨rfl, fun _ h => Except.ok.inj h ▸ recorded⟩

theorem replays_error {ε : Type} (e : ε) (es : List (Event g.size)) :
    Replays (.error e) (.error e, es) := ⟨rfl, nofun⟩

theorem recordMain_replays {o : CompileOptions} (recorded : c.registry = .replay es)
    {spec : ResourceSpec g.size} {raw : RawValue g.size}
    (main : mainSchema? spec.schemas (o.naming.singular spec.name) = some raw)
    (given : raw ≠ .null) : Replays (c.addResource o spec) (recordMain o c es spec raw) := by
  rw [addResource_eq main given]
  unfold recordMain
  dsimp only
  cases (ResourceNames.of o.naming spec.name).conflict? c.registry.api with
  | some s => exact replays_ok recorded
  | none =>
      rcases Parsing.run g raw c.table with ⟨e | node, table⟩
      · exact replays_error _ es
      · dsimp only
        cases table.resolve node with
        | none => exact replays_ok recorded
        | some x =>
            cases x with
            | object key properties required additional other =>
                have same := recordObject_erases o table (ResourceNames.of o.naming spec.name)
                  spec.name key properties required additional other es
                dsimp only
                rw [recorded, same]
                rcases (recordObject o table (ResourceNames.of o.naming spec.name) spec.name key
                  properties required additional other).outcome es with ⟨e | u, es'⟩
                · exact replays_error e es'
                · exact replays_ok rfl
            | _ => exact replays_ok recorded

/-- On the record or not, a resource is compiled to the same. -/
theorem recordResource_replays (o : CompileOptions) (recorded : c.registry = .replay es)
    (spec : ResourceSpec g.size) : Replays (c.addResource o spec) (recordResource o c es spec) := by
  unfold recordResource
  cases main : mainSchema? spec.schemas (o.naming.singular spec.name) with
  | none =>
      rw [addResource_none (Or.inl main)]
      exact replays_ok recorded
  | some raw =>
      cases raw with
      | null =>
          rw [addResource_none (Or.inr main)]
          exact replays_ok recorded
      | _ => exact recordMain_replays recorded main nofun

theorem recordResources_replays (o : CompileOptions) (specs : List (ResourceSpec g.size))
    (recorded : c.registry = .replay es) :
    Replays (addResources o specs c) (recordResources o specs c es) := by
  induction specs generalizing c es with
  | nil => exact replays_ok recorded
  | cons spec rest ih =>
      obtain ⟨same, replayed⟩ := recordResource_replays o recorded spec
      rw [addResources, recordResources, same]
      rcases added : recordResource o c es spec with ⟨e | c', es'⟩
      · exact replays_error _ es'
      · rw [added] at replayed
        exact ih (replayed c' rfl)

end Compilation

/-- Compilation on the record. -/
def record (o : CompileOptions) (s : Specs) :
    Except (CompileError × List LogLine) (Api × List LogLine) × List (Event s.graph.size) :=
  match Compilation.recordResources o s.specs {} [] with
  | (.error e, es) => (.error e, es)
  | (.ok c, es) => (.ok (c.registry.api, c.log ++ c.registry.api.summary s.specs.length), es)

/-- Without the record it is the compilation, and an API is the one that the record leads to. -/
theorem record_replays (o : CompileOptions) (s : Specs) :
    compile o s = (record o s).1 ∧
      ∀ api log, (record o s).1 = .ok (api, log) → api = (Registry.replay (record o s).2).api := by
  have start : ({} : Compilation s.graph.size).registry = .replay [] := rfl
  obtain ⟨same, replayed⟩ := Compilation.recordResources_replays o s.specs start
  unfold compile record
  rw [same]
  rcases recorded : Compilation.recordResources o s.specs {} [] with ⟨e | c, es⟩
  · exact ⟨rfl, nofun⟩
  · refine ⟨rfl, fun api log h => ?_⟩
    cases h
    have registry := replayed c (congrArg Prod.fst recorded)
    rw [recorded] at registry
    rw [registry]

end ResourceGraph
