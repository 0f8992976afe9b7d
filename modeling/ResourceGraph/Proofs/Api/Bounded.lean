import ResourceGraph.Proofs.Api.Walk
import ResourceGraph.Proofs.Schema.Bounded

/-!
# Room for compilation

Compilation with a limit to how many object types may be under construction at a time, over limited
resolution. It gives up when there is no room left, and it never does if the limit is the number of
objects and composites in the table, on any graph: what is under construction comes from one of
them, and each of them is under construction once.
-/

namespace ResourceGraph

variable {n : Nat}

/-- A compilation that may also run out of room. -/
abbrev Bounded (n : Nat) (α : Type) := StateT (Registry n) (Except (Option CompileError)) α

namespace Bounded

/-- There is no room left. -/
def full {α : Type} : Bounded n α := throw none

/-- What needs no room. -/
def free {α : Type} (x : Compiling n α) : Bounded n α := fun r => (x.run r).mapError some

variable (t : NodeTable n)

/-- Resolution with room for the composites of the table. -/
def resolve (node : Node n) : Bounded n (Option (Node n)) :=
  match t.resolveTo t.composites.length node with
  | some resolved => return resolved
  | none => full

mutual

/-- Compiles an object with at most `limit` object types under construction besides `visiting`. -/
def compileObject (limit : Nat) (visiting : Visiting n) (key : ObjectKey n)
    (properties : List (String × Node n)) (required : List String) (additional : Option (Node n))
    (other : Value) (name : String) : Bounded n String := do
  if key ∈ visiting.map (·.1) then return (visiting.lookup key).getD name
  else
    free (Compiling.checkReserved name "type")
    let source := Source.node (.object key properties required additional other)
    if ← free (Compiling.isClaimed name "type" source) then return name
    match limit with
    | 0 => full
    | limit + 1 =>
      free (modify (·.claim name "type" source))
      let fields ← compileFields limit ((key, name) :: visiting) required name properties []
      free (modify (·.addType { name := name, fields := Compiling.withSomeField fields }))
      return name
termination_by (limit, 0)

def compileFields (limit : Nat) (visiting : Visiting n) (required : List String) (parent : String)
    (properties : List (String × Node n)) (fields : List Field) : Bounded n (List Field) := do
  match properties with
  | [] => return fields
  | (name, node) :: rest =>
    let field ← compileField limit visiting required parent name node
    compileFields limit visiting required parent rest (appendField fields field)
termination_by (limit, 3 + properties.length)

def compileField (limit : Nat) (visiting : Visiting n) (required : List String)
    (parent name : String) (node : Node n) : Bounded n Field := do
  let fieldName := Naming.sanitizeFieldName name
  let field : Field :=
    { name := fieldName, typeName := defaultScalar, isOptional := name ∉ required,
      sourceName := some name }
  match ← resolve t node with
  | some (.enumeration id values type) =>
    let type ← free (Compiling.compileEnum id values type (Naming.typeName fieldName parent))
    return { field with typeName := type }
  | some (.array _ none) => return { field with isList := true }
  | some (.array _ (some items)) =>
    let type ← compileType limit visiting items (Naming.typeName (fieldName ++ "Item") parent)
    return { field with typeName := type, isList := true }
  | some (.object key properties required additional other) =>
    let type ← compileObject limit visiting key properties required additional other
      (Naming.typeName fieldName parent)
    return { field with typeName := type }
  | resolved => return { field with typeName := ← free (Compiling.scalarName t resolved) }
termination_by (limit, 2)

def compileType (limit : Nat) (visiting : Visiting n) (node : Node n) (name : String) :
    Bounded n String := do
  match ← resolve t node with
  | some (.enumeration id values type) => free (Compiling.compileEnum id values type name)
  | some (.object key properties required additional other) =>
    compileObject limit visiting key properties required additional other name
  | resolved => free (Compiling.scalarName t resolved)
termination_by (limit, 1)

end

def filterField? (typeName : String) (property : String × Node n) :
    Bounded n (Option Field) := do
  let fieldName := Naming.sanitizeFieldName property.1
  let field (type : String) : Field :=
    { name := fieldName, typeName := type, sourceName := some property.1 }
  match ← resolve t property.2 with
  | some (.enumeration ..) =>
    let enumName := Naming.typeName fieldName typeName
    return if Keyed.hasKey enumName (← free get).api.enums then some (field enumName) else none
  | some (.scalar key type format) =>
    return some (field (← free (Compiling.scalarName t (some (.scalar key type format)))))
  | _ => return none

def filterFields (typeName : String) :
    List (String × Node n) → List Field → Bounded n (List Field)
  | [], fields => return fields
  | p :: rest, fields => do
    match ← filterField? t typeName p with
    | some f => filterFields typeName rest (appendField fields f)
    | none => filterFields typeName rest fields

def compileFilter (properties : List (String × Node n)) (typeName : String) :
    Bounded n Unit := do
  let name := typeName ++ "Filter"
  let source := Source.literal [.str "filter", .str typeName]
  if ← free (Compiling.isClaimed name "input" source) then return
  free (modify (·.claim name "input" source))
  let fields ← filterFields t typeName properties Compiling.commonFilterFields
  free (modify (·.addType { name := name, fields := fields, isInput := true }))

variable {t}

/-! ## Steps that need no room -/

theorem free_pure {α : Type} (a : α) : free (pure a : Compiling n α) = pure a := rfl

theorem free_run {α : Type} (x : Compiling n α) (r : Registry n) :
    (free x).run r = (x.run r).mapError some := rfl

theorem free_bind {α β : Type} (x : Compiling n α) (f : α → Compiling n β) :
    free (x >>= f) = free x >>= fun a => free (f a) := by
  funext r
  show Except.mapError some (StateT.run x r >>= fun p => StateT.run (f p.1) p.2)
    = Except.mapError some (StateT.run x r) >>= fun p => Except.mapError some (StateT.run (f p.1) p.2)
  cases StateT.run x r <;> rfl

theorem resolve_eq (ht : t.Sound []) {x : Node n} (hx : x.All (t.Knows [])) :
    resolve t x = pure (t.resolve x) := by
  unfold resolve
  rw [NodeTable.resolveTo_eq ht hx]

/-! ## There is room -/

mutual

theorem compileObject_eq (ht : t.Sound []) {limit : Nat} {visiting : Visiting n}
    (fits : Fits t.objectKeys limit (visiting.map (·.1))) {key : ObjectKey n}
    {properties : List (String × Node n)} {required : List String} {additional : Option (Node n)}
    {other : Value} (yields : t.Yields (.object key properties required additional other))
    (name : String) :
    compileObject t limit visiting key properties required additional other name
      = free (Compiling.compileObject t visiting key properties required additional other name) := by
  rw [compileObject.eq_def, Compiling.compileObject]
  by_cases met : key ∈ visiting.map (·.1)
  · rw [if_pos met, dif_pos met]
    rfl
  · rw [if_neg met, dif_neg met]
    obtain ⟨limit', rfl, fits'⟩ := fits.cons (yields.mem_objectKeys ht) met
    simp only [free_bind]
    refine bind_congr fun _ => bind_congr fun claimed => ?_
    cases claimed with
    | true => rfl
    | false =>
        have opened : Fits t.objectKeys limit' (((key, name) :: visiting).map (·.1)) := fits'
        have fields := compileFields_eq ht opened required name (yields.settled ht).property []
        simp only [Bool.false_eq_true, if_false, free_bind, fields]
        rfl
termination_by (limit, 0)
decreasing_by all_goals decreasing_with omega

theorem compileFields_eq (ht : t.Sound []) {limit : Nat} {visiting : Visiting n}
    (fits : Fits t.objectKeys limit (visiting.map (·.1))) (required : List String)
    (parent : String) {properties : List (String × Node n)}
    (known : ∀ p ∈ properties, p.2.All (t.Knows [])) (fields : List Field) :
    compileFields t limit visiting required parent properties fields
      = free (Compiling.compileFields t visiting required parent properties fields) := by
  match properties with
  | [] =>
      rw [compileFields, Compiling.compileFields]
      rfl
  | (name, node) :: rest =>
      obtain ⟨hnode, hrest⟩ := List.forall_mem_cons.mp known
      rw [compileFields, Compiling.compileFields, free_bind,
        compileField_eq ht fits required parent name hnode]
      exact bind_congr fun field =>
        compileFields_eq ht fits required parent hrest (appendField fields field)
termination_by (limit, 3 + properties.length)
decreasing_by all_goals decreasing_with omega

theorem compileField_eq (ht : t.Sound []) {limit : Nat} {visiting : Visiting n}
    (fits : Fits t.objectKeys limit (visiting.map (·.1))) (required : List String)
    (parent name : String) {node : Node n} (known : node.All (t.Knows [])) :
    compileField t limit visiting required parent name node
      = free (Compiling.compileField t visiting required parent name node) := by
  rw [compileField, Compiling.compileField]
  dsimp only
  rw [resolve_eq ht known, pure_bind]
  cases hr : t.resolve node with
  | none => simp only [free_bind, free_pure]
  | some x =>
      cases x with
      | enumeration id values type => simp only [free_bind, free_pure]
      | array id items =>
          cases items with
          | none => rfl
          | some items =>
              have items := compileType_eq ht fits (NodeTable.resolve_settled ht known hr).items
                (Naming.typeName (Naming.sanitizeFieldName name ++ "Item") parent)
              simp only [free_bind, free_pure, items]
      | object key properties required' additional other =>
          have object := compileObject_eq ht fits ⟨node, known, hr⟩
            (Naming.typeName (Naming.sanitizeFieldName name) parent)
          simp only [free_bind, free_pure, object]
      | _ => simp only [free_bind, free_pure]
termination_by (limit, 2)
decreasing_by all_goals decreasing_with omega

theorem compileType_eq (ht : t.Sound []) {limit : Nat} {visiting : Visiting n}
    (fits : Fits t.objectKeys limit (visiting.map (·.1))) {node : Node n}
    (known : node.All (t.Knows [])) (name : String) :
    compileType t limit visiting node name
      = free (Compiling.compileType t visiting node name) := by
  rw [compileType, Compiling.compileType, resolve_eq ht known, pure_bind]
  cases hr : t.resolve node with
  | none => rfl
  | some x =>
      cases x with
      | object key properties required additional other =>
          exact compileObject_eq ht fits ⟨node, known, hr⟩ name
      | _ => rfl
termination_by (limit, 1)
decreasing_by all_goals decreasing_with omega

end

theorem filterField?_eq (ht : t.Sound []) (typeName : String) {p : String × Node n}
    (known : p.2.All (t.Knows [])) :
    filterField? t typeName p = free (Compiling.filterField? t typeName p) := by
  unfold filterField? Compiling.filterField?
  dsimp only
  rw [resolve_eq ht known, pure_bind]
  cases t.resolve p.2 with
  | none => rfl
  | some x =>
      cases x with
      | enumeration id values type => simp only [free_bind, free_pure]
      | scalar key type format => simp only [free_bind, free_pure]
      | _ => rfl

theorem filterFields_eq (ht : t.Sound []) (typeName : String)
    {properties : List (String × Node n)} (known : ∀ p ∈ properties, p.2.All (t.Knows []))
    (fields : List Field) :
    filterFields t typeName properties fields
      = free (Compiling.filterFields t typeName properties fields) := by
  induction properties generalizing fields with
  | nil => rfl
  | cons p rest ih =>
      obtain ⟨hp, hrest⟩ := List.forall_mem_cons.mp known
      rw [filterFields, Compiling.filterFields, free_bind, filterField?_eq ht typeName hp]
      refine bind_congr fun f => ?_
      cases f with
      | none => exact ih hrest fields
      | some f => exact ih hrest (appendField fields f)

theorem compileFilter_eq (ht : t.Sound []) {properties : List (String × Node n)}
    (known : ∀ p ∈ properties, p.2.All (t.Knows [])) (typeName : String) :
    compileFilter t properties typeName = free (Compiling.compileFilter t properties typeName) := by
  unfold compileFilter Compiling.compileFilter
  simp only [free_bind]
  refine bind_congr fun claimed => ?_
  cases claimed with
  | true => rfl
  | false =>
      simp only [Bool.false_eq_true, if_false, free_bind, filterFields_eq ht typeName known]

end Bounded

/-! ## Resources -/

namespace Compilation

variable {g : RawGraph}

/-- Compiles a resource with at most `limit` object types under construction at a time. -/
def addObjectTo (limit : Nat) (o : CompileOptions) (t : NodeTable g.size) (names : ResourceNames)
    (resource : String) (key : ObjectKey g.size) (properties : List (String × Node g.size))
    (required : List String) (additional : Option (Node g.size)) (other : Value) :
    Bounded g.size Unit := do
  let _ ← Bounded.compileObject t limit [] key properties required additional other names.typeName
  Bounded.free (Compiling.compileConnection names.typeName)
  Bounded.compileFilter t properties names.typeName
  let root := Node.object key properties required additional other
  let r : Resource :=
    { name := resource
      typeName := names.typeName
      listField := names.listField
      singleField := names.singleField
      searchable := t.stringPaths o.searchDepth "" (some root) }
  Bounded.free (modify fun reg => { reg with api := reg.api.addResource r })

variable (room : NodeTable g.size → Nat)

def addMainTo (o : CompileOptions) (c : Compilation g.size) (spec : ResourceSpec g.size)
    (raw : RawValue g.size) : Except (Option CompileError) (Compilation g.size) :=
  let names := ResourceNames.of o.naming spec.name
  match names.conflict? c.registry.api with
  | some s => .ok (c.skip spec.name s)
  | none =>
    match Parsing.run g raw c.table with
    | (.error e, _) => .error (some (.schema e))
    | (.ok node, table) =>
      let c := { c with table := table }
      match table.resolveTo table.composites.length node with
      | none => .error none
      | some (some (.object key properties required additional other)) =>
        match (addObjectTo (room table) o table names spec.name key properties required additional
            other).run c.registry with
        | .error e => .error e
        | .ok (_, registry) => .ok { c with registry := registry }
      | some resolved => .ok (c.skip spec.name (.notObject (table.describe resolved)))

def addResourceTo (o : CompileOptions) (c : Compilation g.size) (spec : ResourceSpec g.size) :
    Except (Option CompileError) (Compilation g.size) :=
  match mainSchema? spec.schemas (o.naming.singular spec.name) with
  | none | some .null => .ok (c.skip spec.name .noMainSchema)
  | some raw => addMainTo room o c spec raw

def addResourcesTo (o : CompileOptions) :
    List (ResourceSpec g.size) → Compilation g.size →
    Except (Option CompileError × List LogLine) (Compilation g.size)
  | [], c => .ok c
  | spec :: rest, c =>
    match addResourceTo room o c spec with
    | .error e => .error (e, c.log)
    | .ok c => addResourcesTo o rest c

/-- The number of objects and composites in a table. -/
abbrev ample (t : NodeTable g.size) : Nat := t.objects.length + t.composites.length

theorem addObjectTo_eq {o : CompileOptions} {t : NodeTable g.size} (ht : t.Sound [])
    {key : ObjectKey g.size} {properties : List (String × Node g.size)} {required : List String}
    {additional : Option (Node g.size)} {other : Value}
    (yields : t.Yields (.object key properties required additional other)) (names : ResourceNames)
    (resource : String) :
    addObjectTo (ample t) o t names resource key properties required additional other
      = Bounded.free (addObject o t names resource key properties required additional other) := by
  have fits : Fits t.objectKeys t.objectKeys.length (([] : Visiting g.size).map (·.1)) :=
    fits_nil t.objectKeys
  rw [NodeTable.length_objectKeys] at fits
  unfold addObjectTo addObject
  simp only [Bounded.free_bind, Bounded.compileObject_eq ht fits yields,
    Bounded.compileFilter_eq ht (yields.settled ht).property]

theorem addMainTo_eq {o : CompileOptions} {c : Compilation g.size} (hc : c.table.Sound [])
    {spec : ResourceSpec g.size} {raw : RawValue g.size}
    (main : mainSchema? spec.schemas (o.naming.singular spec.name) = some raw)
    (given : raw ≠ .null) :
    addMainTo ample o c spec raw = (c.addResource o spec).mapError some := by
  rw [addResource_eq main given]
  unfold addMainTo
  dsimp only
  cases (ResourceNames.of o.naming spec.name).conflict? c.registry.api with
  | some s => rfl
  | none =>
      rcases read : Parsing.run g raw c.table with ⟨e | node, table⟩
      · rfl
      · obtain ⟨grown, known⟩ := Parsing.run_grown hc read
        dsimp only
        rw [NodeTable.resolveTo_eq grown.sound known]
        cases hr : table.resolve node with
        | none => rfl
        | some x =>
            cases x with
            | object key properties required additional other =>
                dsimp only
                rw [addObjectTo_eq grown.sound ⟨node, known, hr⟩, Bounded.free_run]
                cases (addObject o table _ spec.name key properties required additional other).run
                  c.registry <;> rfl
            | _ => rfl

theorem addResourceTo_eq (o : CompileOptions) {c : Compilation g.size} (hc : c.table.Sound [])
    (spec : ResourceSpec g.size) :
    addResourceTo ample o c spec = (c.addResource o spec).mapError some := by
  unfold addResourceTo
  cases main : mainSchema? spec.schemas (o.naming.singular spec.name) with
  | none =>
      rw [addResource_none (Or.inl main)]
      rfl
  | some raw =>
      cases raw with
      | null =>
          rw [addResource_none (Or.inr main)]
          rfl
      | _ => exact addMainTo_eq hc main nofun

theorem addResourcesTo_eq (o : CompileOptions) (specs : List (ResourceSpec g.size))
    {c : Compilation g.size} (hc : c.table.Sound []) :
    addResourcesTo ample o specs c = (addResources o specs c).mapError fun e => (some e.1, e.2) := by
  induction specs generalizing c with
  | nil => rfl
  | cons spec rest ih =>
      rw [addResourcesTo, addResources, addResourceTo_eq o hc]
      cases added : c.addResource o spec with
      | error e => rfl
      | ok c' => exact ih (addResource_run hc added).2

end Compilation

/-- Compilation where at most `room` object types may be under construction at a time, for the table
at that time. -/
def compileTo (s : Specs) (room : NodeTable s.graph.size → Nat) (o : CompileOptions) :
    Except (Option CompileError × List LogLine) (Api × List LogLine) :=
  match Compilation.addResourcesTo room o s.specs {} with
  | .error e => .error e
  | .ok c => .ok (c.registry.api, c.log ++ c.registry.api.summary s.specs.length)

/-- Compilation ends on every graph, with an API or an error, and on the way no more object types
are under construction than the table has objects and composites. -/
theorem compileTo_eq (o : CompileOptions) (s : Specs) :
    compileTo s (fun t => t.objects.length + t.composites.length) o
      = (compile o s).mapError fun e => (some e.1, e.2) := by
  unfold compileTo compile
  rw [Compilation.addResourcesTo_eq o s.specs (NodeTable.sound_empty [])]
  cases Compilation.addResources o s.specs {} <;> rfl

end ResourceGraph
