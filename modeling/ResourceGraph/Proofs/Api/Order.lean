import ResourceGraph.Proofs.Api.Asking
import ResourceGraph.Proofs.Api.Skipping

/-!
# The order of resources

What a resource asks for does not depend on the resources before it. So the names that are claimed
in the end are an index in which the demands of all resources are met, and in whatever order the
resources come, no claim leads out of that index.
-/

namespace ResourceGraph

variable {n : Nat}

namespace Registry

variable {r : Registry n} {t t' : NodeTable n} {I : Index} {opened : List String}
  {name kind : String}

theorem find?_of_index {s : Source 1} (h : r.index name = some (kind, s)) :
    ∃ source, Keyed.find? name r.sources = some (kind, source) ∧ source.shape = s := by
  obtain ⟨⟨kind', source⟩, found, same⟩ := Option.map_eq_some_iff.mp h
  cases same
  exact ⟨source, found, rfl⟩

theorem settles_empty : ({} : Registry n).Settles t [] := ⟨by simp, nofun⟩

theorem under_empty : ({} : Registry n).Under t I := ⟨by simp, nofun⟩

theorem Settles.extends (ht : t.Sound []) (hle : t.Extends t') (h : r.Settles t opened) :
    r.Settles t' opened :=
  ⟨fun p hp => (h.fit p hp).extends ht hle, h.inside⟩

theorem Under.extends (ht : t.Sound []) (hle : t.Extends t') (h : r.Under t I) : r.Under t' I :=
  ⟨fun p hp => (h.fit p hp).extends ht hle, h.supported⟩

/-- When nothing is under construction, all that is asked for is there. -/
theorem Settles.closed (h : r.Settles t []) : r.index.Closed where
  proper name kind s found := by
    obtain ⟨source, hs, rfl⟩ := find?_of_index found
    exact (h.fit _ (Keyed.mem_of_find? hs)).proper
  inside name kind s found := h.inside name kind s List.not_mem_nil found

/-- Under the index of a registry there are only names that are claimed in that registry. -/
theorem Under.has {m : Nat} {r' : Registry m} (h : r.Under t r'.index) (has : r.Has kind name) :
    r'.Has kind name := by
  obtain ⟨source, found⟩ := has
  obtain ⟨s, found', -⟩ := h.supported _ _ _ (index_of_find? found)
  obtain ⟨source', hs, -⟩ := find?_of_index found'
  exact ⟨source', hs⟩

end Registry

/-! ## Resources -/

/-- What a resource asks for is there: its object type, its page type and its filter. -/
structure Index.WantsResource (I : Index) (typeName : String) (root : Node 1) : Prop where
  object : I.WantsType typeName (some root)
  page : I.Supports "type" (typeName ++ "Connection") (.page typeName)
  filter : I.Supports "input" (typeName ++ "Filter") (.filter typeName)

namespace Compilation

open Compiling

variable {g : RawGraph} {o : CompileOptions}

section Objects

variable {t : NodeTable g.size} {z : Node g.size} {key : ObjectKey g.size}
  {properties : List (String × Node g.size)} {required : List String}
  {additional : Option (Node g.size)} {other : Value}

/-- Where the object type of a resource is there, its filter knows the scalars. -/
theorem mapped_of_wantsType {I : Index} {name : String} (ht : t.Sound [])
    (stands : t.Stands (.object key properties required additional other)) (hI : I.Closed)
    (wants : I.WantsType name
      (some (Node.object key properties required additional other).shape)) :
    ∀ p ∈ properties, Index.Mapped p.2.shape.collapse := by
  rw [Node.shape_object, wantsType_object, ← Node.shape_object] at wants
  have inside := hI.inside_of_supports (Source.fit_node ht stands trivial).proper wants.2
  exact fun p hp => (wantsInside_object.mp inside p hp).mapped

theorem addObject_meets (ht : t.Sound []) (hz : t.Grounded z)
    (resolved : t.resolve z = some (.object key properties required additional other))
    {names : ResourceNames} {resource : String} {u : Unit} {r r' : Registry g.size}
    (hr : r.Settles t [])
    (h : (addObject o t names resource key properties required additional other).run r
      = .ok (u, r')) :
    r.index.Below r'.index ∧ r'.Settles t [] ∧ r'.index.WantsResource names.typeName
      (Node.object key properties required additional other).shape := by
  have stands : t.Stands _ := ⟨z, hz, resolved⟩
  have outermost : Encloses t [] (sizeOf z) := by simp [Encloses]
  simp only [addObject, Compiling.bind_eq_ok, modify_eq_ok] at h
  obtain ⟨type, r₁, hobject, _, r₂, hpage, _, r₃, hfilter, rfl⟩ := h
  obtain ⟨below₁, settles₁, object⟩ :=
    (asks_compileObject ht [] hz resolved outermost _).meets _ _ _ _ hr hobject
  obtain ⟨below₂, settles₂, page⟩ :=
    (asks_compileConnection ht _).meets _ _ _ _ settles₁ hpage
  have mapped := mapped_of_wantsType ht stands settles₁.closed object
  obtain ⟨below₃, settles₃, filter⟩ :=
    (asks_compileFilter ht _ stands.properties mapped).meets _ _ _ _ settles₂ hfilter
  refine ⟨(below₁.trans below₂).trans below₃, ⟨settles₃.fit, settles₃.inside⟩, ?_⟩
  exact ⟨object.mono (below₂.trans below₃), page.mono below₃, filter⟩

theorem addObject_succeeds (ht : t.Sound []) (hz : t.Grounded z)
    (resolved : t.resolve z = some (.object key properties required additional other))
    {names : ResourceNames} {resource : String} {I : Index} {r : Registry g.size}
    (hI : I.Closed) (wants : I.WantsResource names.typeName
      (Node.object key properties required additional other).shape) (hr : r.Under t I) :
    ∃ r', (addObject o t names resource key properties required additional other).run r
      = .ok ((), r') ∧ r'.Under t I := by
  have stands : t.Stands _ := ⟨z, hz, resolved⟩
  have outermost : Encloses t [] (sizeOf z) := by simp [Encloses]
  obtain ⟨type, r₁, hobject, under₁⟩ :=
    (asks_compileObject ht [] hz resolved outermost _).succeeds _ _ hI wants.object hr
  obtain ⟨u, r₂, hpage, under₂⟩ :=
    (asks_compileConnection ht _).succeeds _ _ hI wants.page under₁
  have mapped := mapped_of_wantsType ht stands hI wants.object
  obtain ⟨v, r₃, hfilter, under₃⟩ :=
    (asks_compileFilter ht _ stands.properties mapped).succeeds _ _ hI wants.filter under₂
  simp only [addObject, Compiling.bind_eq_ok, modify_eq_ok]
  exact ⟨_, ⟨type, r₁, hobject, u, r₂, hpage, v, r₃, hfilter, rfl⟩, under₃.fit, under₃.supported⟩

end Objects

/-! ## Names of query fields -/

/-- The names of the query fields of a resource. -/
def queryNames (o : CompileOptions) (spec : ResourceSpec n) : List String :=
  [(ResourceNames.of o.naming spec.name).listField, (ResourceNames.of o.naming spec.name).singleField]

theorem conflict?_of_untaken {names : ResourceNames} {api : Api}
    (untaken : ∀ f ∈ [names.listField, names.singleField], f ∉ api.queryFields.map Field.name) :
    names.conflict? api = names.conflict? {} := by
  have free {f : String} (hf : f ∈ [names.listField, names.singleField]) :
      api.hasQueryField f = Api.hasQueryField {} f := by
    apply List.any_eq_false.mpr
    intro q hq same
    exact untaken f hf (List.mem_map.mpr ⟨q, hq, eq_of_beq same⟩)
  have list := free (List.mem_cons_self ..)
  have single := free (List.mem_cons_of_mem _ (List.mem_singleton_self _))
  simp only [ResourceNames.conflict?, list, single]

/-! ## Demands of specifications -/

/-- What a specification asks for is there, where its names are free. -/
def Asked (o : CompileOptions) (spec : ResourceSpec g.size) (I : Index) : Prop :=
  ∀ raw, Candidate o {} spec raw → ∃ x, (g.unfold raw).reading = .ok x ∧
    ∀ key properties required additional other,
      x.collapse = some (.object key properties required additional other) →
      I.WantsResource (ResourceNames.of o.naming spec.name).typeName
        (.object key properties required additional other)

theorem Asked.mono {spec : ResourceSpec g.size} {I J : Index} (h : I.Below J)
    (asked : Asked o spec I) : Asked o spec J := by
  intro raw candidate
  obtain ⟨x, read, wants⟩ := asked raw candidate
  refine ⟨x, read, fun key properties required additional other object => ?_⟩
  have wanted := wants key properties required additional other object
  exact ⟨wanted.object.mono h, wanted.page.mono h, wanted.filter.mono h⟩

/-- What becomes of a specification whose query fields are not taken: a resource or none. -/
inductive Becomes (o : CompileOptions) (spec : ResourceSpec g.size) : Option Resource → Prop
  | unread (barred : ∀ raw, ¬ Candidate o {} spec raw) : Becomes o spec none
  | unsuited {raw x} (candidate : Candidate o {} spec raw) (read : (g.unfold raw).reading = .ok x)
      (other : ∀ key properties required additional other,
        x.collapse ≠ some (.object key properties required additional other)) :
      Becomes o spec none
  | resource {raw} {t : NodeTable g.size} {z key properties required additional other}
      (candidate : Candidate o {} spec raw) (read : (g.unfold raw).reading = .ok z.shape)
      (sound : t.Sound []) (grounded : t.Grounded z)
      (resolved : t.resolve z = some (.object key properties required additional other)) :
      Becomes o spec (some ((ResourceNames.of o.naming spec.name).resource spec.name
        (t.stringPaths o.searchDepth ""
          (some (.object key properties required additional other)))))

theorem Candidate.unique {api : Api} {spec : ResourceSpec g.size} {raw raw' : RawValue g.size}
    (h : Candidate o api spec raw) (h' : Candidate o api spec raw') : raw = raw' :=
  Option.some.inj (h.main.symm.trans h'.main)

/-- What a specification becomes depends on the specification alone. -/
theorem becomes_unique : Relator.RightUnique (Becomes (g := g) o) := by
  intro spec a b ha hb
  cases ha with
  | unread barred =>
      cases hb with
      | unread => rfl
      | unsuited candidate => exact absurd candidate (barred _)
      | resource candidate => exact absurd candidate (barred _)
  | unsuited candidate read other =>
      cases hb with
      | unread | unsuited => rfl
      | resource candidate' read' sound grounded resolved =>
          cases candidate.unique candidate'
          cases read.symm.trans read'
          have shape := NodeTable.resolve_shape grounded
          rw [resolved, Option.map_some, Node.shape_object] at shape
          exact absurd shape.symm (other _ _ _ _ _)
  | resource candidate read sound grounded resolved =>
      cases hb with
      | unread barred => exact absurd candidate (barred _)
      | unsuited candidate' read' other =>
          cases candidate.unique candidate'
          cases read.symm.trans read'
          have shape := NodeTable.resolve_shape grounded
          rw [resolved, Option.map_some, Node.shape_object] at shape
          exact absurd shape.symm (other _ _ _ _ _)
      | resource candidate' read' sound' grounded' resolved' =>
          cases candidate.unique candidate'
          have twins := NodeTable.twins_resolve sound grounded grounded'
            (Except.ok.inj (read.symm.trans read'))
          rw [resolved, resolved'] at twins
          rw [twins.stringPaths sound]

/-- Where a shape collapses to an object, its node resolves to one. -/
theorem exists_object_of_collapse {t : NodeTable g.size} {z : Node g.size} (hz : t.Grounded z)
    {key : ObjectKey 1} {properties : List (String × Node 1)} {required : List String}
    {additional : Option (Node 1)} {other : Value}
    (h : z.shape.collapse = some (.object key properties required additional other)) :
    ∃ key properties required additional other,
      t.resolve z = some (.object key properties required additional other) := by
  rw [← NodeTable.resolve_shape hz] at h
  obtain ⟨x, hx, same⟩ := Option.map_eq_some_iff.mp h
  cases x with
  | object => exact ⟨_, _, _, _, _, hx⟩
  | _ => simp [Node.shape] at same

theorem Becomes.names {spec : ResourceSpec g.size} {a : Option Resource} (h : Becomes o spec a) :
    ∀ f ∈ a.toList.flatMap Resource.queryFields, f.name ∈ queryNames o spec := by
  cases h with
  | unread | unsuited => simp
  | resource => simp [Resource.queryFields, ResourceNames.resource, queryNames]

/-! ## One resource after the other -/

/-- Specifications of trees, whose query fields are not taken and do not take one another's. -/
structure Ready (o : CompileOptions) (c : Compilation g.size) (specs : List (ResourceSpec g.size)) :
    Prop where
  sound : c.table.Sound []
  reads : c.table.Reads g
  acyclic : ∀ spec ∈ specs, ∀ p ∈ spec.schemas, g.Acyclic p.2
  untaken : ∀ spec ∈ specs, ∀ f ∈ queryNames o spec, f ∉ c.registry.api.queryFields.map Field.name
  distinct : specs.Pairwise fun a b => (queryNames o a).Disjoint (queryNames o b)

variable {c c' : Compilation g.size} {spec : ResourceSpec g.size}
  {rest specs : List (ResourceSpec g.size)}

theorem Ready.candidate (h : Ready o c (spec :: rest)) {raw : RawValue g.size} :
    Candidate o c.registry.api spec raw ↔ Candidate o {} spec raw := by
  have same : (ResourceNames.of o.naming spec.name).conflict? c.registry.api
      = (ResourceNames.of o.naming spec.name).conflict? {} :=
    conflict?_of_untaken (h.untaken spec (List.mem_cons_self ..))
  constructor
  · exact fun h => ⟨h.main, h.given, same.symm.trans h.free⟩
  · exact fun h => ⟨h.main, h.given, same.trans h.free⟩

theorem Ready.run (h : Ready o c (spec :: rest)) {raw : RawValue g.size}
    (candidate : Candidate o c.registry.api spec raw) {node : Node g.size}
    {table : NodeTable g.size} (read : Parsing.run g raw c.table = (.ok node, table)) :
    (g.unfold raw).reading = .ok node.shape ∧ table.Reads g ∧ table.Grounded node := by
  obtain ⟨p, hp, rfl⟩ := exists_of_mainSchema? candidate.main
  exact Parsing.run_grounded h.sound h.reads (h.acyclic spec (List.mem_cons_self ..) p hp) read

/-- A specification becomes a resource or none. -/
theorem Ready.becomes (h : Ready o c (spec :: rest)) (step : c.addResource o spec = .ok c') :
    c'.table.Sound [] ∧ c'.table.Reads g ∧ ∃ a, Becomes o spec a ∧
      c'.registry.api.resources = c.registry.api.resources ++ a.toList ∧
      c'.registry.api.queryFields
        = c.registry.api.queryFields ++ a.toList.flatMap Resource.queryFields := by
  cases addResource_outcome step with
  | unread s barred =>
      refine ⟨h.sound, h.reads, none, .unread fun raw candidate => ?_, by simp [skip], by simp [skip]⟩
      exact barred raw (h.candidate.mpr candidate)
  | unsuited s candidate read other =>
      obtain ⟨reading, reads, grounded⟩ := h.run candidate read
      refine ⟨(Parsing.run_grown h.sound read).1.sound, reads, none,
        .unsuited (h.candidate.mp candidate) reading ?_, by simp [skip], by simp [skip]⟩
      intro key properties required additional others object
      obtain ⟨_, _, _, _, _, resolved⟩ := exists_object_of_collapse grounded object
      exact other _ _ _ _ _ resolved
  | compiled candidate read resolved added =>
      obtain ⟨reading, reads, grounded⟩ := h.run candidate read
      obtain ⟨resources, queryFields⟩ := addObject_lists rfl added
      have sound := (Parsing.run_grown h.sound read).1.sound
      exact ⟨sound, reads, _,
        .resource (h.candidate.mp candidate) reading sound grounded resolved, resources,
        queryFields.trans (by simp)⟩

theorem Ready.next (h : Ready o c (spec :: rest)) (step : c.addResource o spec = .ok c') :
    Ready o c' rest := by
  obtain ⟨sound, reads, a, becomes, -, queryFields⟩ := h.becomes step
  obtain ⟨apart, distinct⟩ := List.pairwise_cons.mp h.distinct
  refine ⟨sound, reads, fun other hother => h.acyclic other (List.mem_cons_of_mem _ hother), ?_,
    distinct⟩
  intro other hother f hf
  rw [queryFields, List.map_append, List.mem_append, not_or]
  refine ⟨h.untaken other (List.mem_cons_of_mem _ hother) f hf, ?_⟩
  intro taken
  obtain ⟨q, hq, rfl⟩ := List.mem_map.mp taken
  exact apart other hother (becomes.names q hq) hf

/-- A specification that has been compiled has been given what it asks for. -/
theorem Ready.meets (h : Ready o c (spec :: rest)) (settles : c.registry.Settles c.table [])
    (step : c.addResource o spec = .ok c') :
    c.registry.index.Below c'.registry.index ∧ c'.registry.Settles c'.table [] ∧
      Asked o spec c'.registry.index := by
  cases addResource_outcome step with
  | unread s barred =>
      refine ⟨.refl _, settles, fun raw candidate => ?_⟩
      exact absurd (h.candidate.mpr candidate) (barred raw)
  | unsuited s candidate read other =>
      obtain ⟨reading, reads, grounded⟩ := h.run candidate read
      refine ⟨.refl _, settles.extends h.sound (Parsing.run_grown h.sound read).1.keeps, ?_⟩
      intro raw candidate'
      cases (h.candidate.mp candidate).unique candidate'
      refine ⟨_, reading, fun key properties required additional others object => ?_⟩
      obtain ⟨_, _, _, _, _, resolved⟩ := exists_object_of_collapse grounded object
      exact absurd resolved (other _ _ _ _ _)
  | compiled candidate read resolved added =>
      obtain ⟨reading, reads, grounded⟩ := h.run candidate read
      obtain ⟨grown, -⟩ := Parsing.run_grown h.sound read
      obtain ⟨below, settles', wants⟩ := addObject_meets grown.sound grounded resolved
        (settles.extends h.sound grown.keeps) added
      refine ⟨below, settles', fun raw candidate' => ?_⟩
      cases (h.candidate.mp candidate).unique candidate'
      refine ⟨_, reading, fun key properties required additional others object => ?_⟩
      have shape := NodeTable.resolve_shape grounded
      rw [resolved, object] at shape
      exact Option.some.inj shape ▸ wants

theorem Ready.addObject_succeeds (h : Ready o c (spec :: rest)) {I : Index} (hI : I.Closed)
    (asked : Asked o spec I) (under : c.registry.Under c.table I) {raw : RawValue g.size}
    {node : Node g.size} {table : NodeTable g.size} {key : ObjectKey g.size}
    {properties : List (String × Node g.size)} {required : List String}
    {additional : Option (Node g.size)} {other : Value}
    (candidate : Candidate o c.registry.api spec raw)
    (read : Parsing.run g raw c.table = (.ok node, table))
    (resolved : table.resolve node = some (.object key properties required additional other)) :
    ∃ r', (addObject o table (ResourceNames.of o.naming spec.name) spec.name key properties required
      additional other).run c.registry = .ok ((), r') ∧ r'.Under table I := by
  obtain ⟨reading, reads, grounded⟩ := h.run candidate read
  obtain ⟨grown, -⟩ := Parsing.run_grown h.sound read
  obtain ⟨x, reading', wants⟩ := asked _ (h.candidate.mp candidate)
  cases reading.symm.trans reading'
  have shape := NodeTable.resolve_shape grounded
  rw [resolved, Option.map_some, Node.shape_object] at shape
  apply Compilation.addObject_succeeds grown.sound grounded resolved hI
  · rw [Node.shape_object]
    exact wants _ _ _ _ _ shape.symm
  · exact under.extends h.sound grown.keeps

/-- Under a closed index, a specification that is given what it asks for is compiled. -/
theorem Ready.succeeds (h : Ready o c (spec :: rest)) {I : Index} (hI : I.Closed)
    (asked : Asked o spec I) (under : c.registry.Under c.table I) :
    ∃ c', c.addResource o spec = .ok c' ∧ c'.registry.Under c'.table I := by
  generalize step : c.addResource o spec = x
  cases addResource_outcome step with
  | unread s => exact ⟨_, rfl, under⟩
  | unsuited s candidate read =>
      exact ⟨_, rfl, under.extends h.sound (Parsing.run_grown h.sound read).1.keeps⟩
  | compiled candidate read resolved added =>
      obtain ⟨r', run, under'⟩ := h.addObject_succeeds hI asked under candidate read resolved
      cases added.symm.trans run
      exact ⟨_, rfl, under'⟩
  | unreadable candidate read =>
      obtain ⟨x, reading, -⟩ := asked _ (h.candidate.mp candidate)
      obtain ⟨p, hp, rfl⟩ := exists_of_mainSchema? candidate.main
      have acyclic := h.acyclic spec (List.mem_cons_self ..) p hp
      cases reading.symm.trans (Parsing.run_error h.reads acyclic read)
  | failed candidate read resolved added =>
      obtain ⟨r', run, -⟩ := h.addObject_succeeds hI asked under candidate read resolved
      cases added.symm.trans run

/-! ## Whole compilations -/

theorem addResources_meets (h : Ready o c specs) (settles : c.registry.Settles c.table [])
    (run : addResources o specs c = .ok c') :
    c.registry.index.Below c'.registry.index ∧ c'.registry.Settles c'.table [] ∧
      ∀ spec ∈ specs, Asked o spec c'.registry.index := by
  induction specs generalizing c with
  | nil =>
      cases run
      exact ⟨.refl _, settles, by simp⟩
  | cons spec rest ih =>
      rw [addResources] at run
      split at run
      · cases run
      · rename_i c₁ step
        obtain ⟨below, settles₁, asked⟩ := h.meets settles step
        obtain ⟨below', settles', askedRest⟩ := ih (h.next step) settles₁ run
        refine ⟨below.trans below', settles', ?_⟩
        exact List.forall_mem_cons.mpr ⟨asked.mono below', askedRest⟩

theorem addResources_succeeds (h : Ready o c specs) {I : Index} (hI : I.Closed)
    (asked : ∀ spec ∈ specs, Asked o spec I) (under : c.registry.Under c.table I) :
    ∃ c', addResources o specs c = .ok c' ∧ c'.registry.Under c'.table I := by
  induction specs generalizing c with
  | nil => exact ⟨c, rfl, under⟩
  | cons spec rest ih =>
      obtain ⟨asked, askedRest⟩ := List.forall_mem_cons.mp asked
      obtain ⟨c₁, step, under₁⟩ := h.succeeds hI asked under
      obtain ⟨c', run, under'⟩ := ih (h.next step) askedRest under₁
      exact ⟨c', (addResources_cons step).trans run, under'⟩

theorem addResources_becomes (h : Ready o c specs) (run : addResources o specs c = .ok c') :
    ∃ as, List.Forall₂ (Becomes o) specs as ∧
      c'.registry.api.resources = c.registry.api.resources ++ as.reduceOption := by
  induction specs generalizing c with
  | nil =>
      cases run
      exact ⟨[], .nil, (List.append_nil _).symm⟩
  | cons spec rest ih =>
      rw [addResources] at run
      split at run
      · cases run
      · rename_i c₁ step
        obtain ⟨-, -, a, becomes, resources, -⟩ := h.becomes step
        obtain ⟨as, becomesRest, resources'⟩ := ih (h.next step) run
        refine ⟨a :: as, .cons becomes becomesRest, ?_⟩
        rw [resources', resources, List.append_assoc]
        cases a <;> rfl

theorem ready_initial (acyclic : ∀ spec ∈ specs, ∀ p ∈ spec.schemas, g.Acyclic p.2)
    (distinct : specs.Pairwise fun a b => (queryNames o a).Disjoint (queryNames o b)) :
    Ready o ({} : Compilation g.size) specs where
  sound := NodeTable.sound_empty []
  reads := fun i x h => by simp at h
  acyclic := acyclic
  untaken := by simp
  distinct := distinct

theorem Ready.perm {specs' : List (ResourceSpec g.size)} (h : Ready o c specs)
    (perm : specs.Perm specs') : Ready o c specs' where
  sound := h.sound
  reads := h.reads
  acyclic spec hspec := h.acyclic spec (perm.mem_iff.mpr hspec)
  untaken spec hspec := h.untaken spec (perm.mem_iff.mpr hspec)
  distinct := (perm.pairwise_iff List.disjoint_symm).mp h.distinct

/-- In another order the same specifications compile under the index of the first compilation. -/
theorem addResources_perm {specs' : List (ResourceSpec g.size)} (perm : specs.Perm specs')
    (h : Ready o {} specs) (run : addResources o specs {} = .ok c) :
    ∃ c', addResources o specs' {} = .ok c' ∧ c'.registry.Under c'.table c.registry.index := by
  obtain ⟨-, settles, asked⟩ := addResources_meets h Registry.settles_empty run
  exact addResources_succeeds (h.perm perm) settles.closed
    (fun spec hspec => asked spec (perm.mem_iff.mpr hspec)) Registry.under_empty

end Compilation

/-! ## APIs up to order -/

/-- The definitions of two APIs have the same names, and their resources and query fields are the
same, up to order. -/
structure Api.SameUpToOrder (a b : Api) : Prop where
  enums : (Keyed.keys a.enums).Perm (Keyed.keys b.enums)
  types : (Keyed.keys a.types).Perm (Keyed.keys b.types)
  inputs : (Keyed.keys a.inputs).Perm (Keyed.keys b.inputs)
  resources : a.resources.Perm b.resources
  queryFields : a.queryFields.Perm b.queryFields

theorem Registry.Consistent.sameUpToOrder {r r' : Registry n} (h : r.Consistent [])
    (h' : r'.Consistent []) (has : ∀ kind name, r.Has kind name ↔ r'.Has kind name)
    (resources : r.api.resources.Perm r'.api.resources) : r.api.SameUpToOrder r'.api where
  enums := (List.perm_ext_iff_of_nodup h.enums_nodup h'.enums_nodup).mpr fun name => by
    rw [h.enums, h'.enums, has]
  types := (List.perm_ext_iff_of_nodup h.types_nodup h'.types_nodup).mpr fun name => by
    rw [h.types, h'.types, has]
  inputs := (List.perm_ext_iff_of_nodup h.inputs_nodup h'.inputs_nodup).mpr fun name => by
    rw [h.inputs, h'.inputs, has]
  resources := resources
  queryFields := by
    rw [h.queries, h'.queries]
    exact resources.flatMap_right _

open Compilation in
/-- Specifications of trees whose query fields differ compile in every order or in none, and in
every order to the same names, resources and query fields. -/
theorem compile_perm (o : CompileOptions) {g : RawGraph} {specs specs' : List (ResourceSpec g.size)}
    (perm : specs.Perm specs') (acyclic : Specs.Acyclic ⟨g, specs⟩)
    (distinct : specs.Pairwise fun a b => (queryNames o a).Disjoint (queryNames o b)) :
    ((∃ api log, compile o ⟨g, specs⟩ = .ok (api, log)) ↔
      ∃ api log, compile o ⟨g, specs'⟩ = .ok (api, log)) ∧
    ∀ api log api' log', compile o ⟨g, specs⟩ = .ok (api, log) →
      compile o ⟨g, specs'⟩ = .ok (api', log') → api.SameUpToOrder api' := by
  have ready : Ready o {} specs := ready_initial acyclic distinct
  have ready' := ready.perm perm
  constructor
  · constructor
    · rintro ⟨api, log, h⟩
      obtain ⟨c, run, -⟩ := Assembly.compile_run h
      obtain ⟨c', run', -⟩ := addResources_perm perm ready run
      exact ⟨_, _, by rw [compile, run']⟩
    · rintro ⟨api, log, h⟩
      obtain ⟨c, run, -⟩ := Assembly.compile_run h
      obtain ⟨c', run', -⟩ := addResources_perm perm.symm ready' run
      exact ⟨_, _, by rw [compile, run']⟩
  · intro api log api' log' h h'
    obtain ⟨c, run, rfl, steps⟩ := Assembly.compile_run h
    obtain ⟨c', run', rfl, steps'⟩ := Assembly.compile_run h'
    obtain ⟨d, rerun, under⟩ := addResources_perm perm ready run
    cases rerun.symm.trans run'
    obtain ⟨d, rerun, under'⟩ := addResources_perm perm.symm ready' run'
    cases rerun.symm.trans run
    obtain ⟨as, becomes, resources⟩ := addResources_becomes ready run
    obtain ⟨as', becomes', resources'⟩ := addResources_becomes ready' run'
    apply Registry.Consistent.sameUpToOrder
      (steps.consistent Assembly.consistent_initial).registry
      (steps'.consistent Assembly.consistent_initial).registry
    · exact fun kind name => ⟨under'.has, under.has⟩
    · rw [resources, resources']
      exact (List.rel_perm_imp becomes_unique becomes becomes' perm).filterMap _

/-- Cars with a door, and doors of cars, which claim one name for equal sources. -/
abbrev Specs.doors : Specs where
  graph :=
    { size := 6
      objects := #v[
        [("type", .str "object"), ("properties", .obj 1)],
        [("door", .obj 2)],
        [("type", .str "object"), ("properties", .obj 4)],
        [("type", .str "object"), ("properties", .obj 4)],
        [("id", .obj 5)],
        [("type", .str "string")]]
      nodup := by decide }
  specs := [{ name := "cars", schemas := [("Car", .obj 0)] },
    { name := "carDoors", schemas := [("CarDoor", .obj 3)] }]

theorem Specs.doors_acyclic : Specs.doors.Acyclic :=
  fun _ _ _ _ => RawGraph.acyclic_of_forward (by decide) _

namespace Compilation

theorem doors_names : Specs.doors.specs.map (queryNames {})
    = [["cars", "car"], ["carDoors", "carDoor"]] := by decide +kernel

theorem doors_distinct :
    Specs.doors.specs.Pairwise fun a b => (queryNames {} a).Disjoint (queryNames {} b) := by
  apply List.pairwise_map.mp
  rw [doors_names]
  simp

end Compilation

theorem compile_doors :
    (compile {} Specs.doors).map (fun c => Keyed.keys c.1.types)
      = .ok ["CarDoor", "Car", "CarConnection", "CarDoorConnection"] := by
  rw [compile_eq_upTo]
  decide +kernel

theorem doors_compile_reversed : ∃ api log api' log',
    compile {} Specs.doors = .ok (api, log) ∧
    compile {} ⟨Specs.doors.graph, Specs.doors.specs.reverse⟩ = .ok (api', log') ∧
    Keyed.keys api.types = ["CarDoor", "Car", "CarConnection", "CarDoorConnection"] ∧
    api.SameUpToOrder api' := by
  obtain ⟨⟨api, log⟩, h, types⟩ := exists_of_map_eq_ok compile_doors
  obtain ⟨both, same⟩ := compile_perm {} (List.reverse_perm _).symm Specs.doors_acyclic
    Compilation.doors_distinct
  obtain ⟨api', log', h'⟩ := both.mp ⟨api, log, h⟩
  exact ⟨api, log, api', log', h, h', types, same _ _ _ _ h h'⟩

end ResourceGraph
