import ResourceGraph.Proofs.Api.Skipping
import ResourceGraph.Proofs.Service.CrossSearch

/-!
# The pagination of a resource

The list of a resource and the search over all resources use one and the same pagination for it.
They find it by name, so among specifications of one name it is that of the last, while the
resource is made from one that was not skipped.
-/

namespace ResourceGraph

/-! ## What a store is asked with -/

/-- About the resources of a name, a program asks a store only with one pagination. -/
def AsksWith {σ α : Type} (name : String) (p : Pagination)
    (x : StateM (σ × List StoreCall) α) : Prop :=
  ∀ s calls, ∃ asked, (x (s, calls)).2.2 = calls ++ asked ∧
    ∀ params paths q, .search name params paths q ∈ asked → q = p

namespace AsksWith

variable {σ α β : Type} {name : String} {p : Pagination}

theorem pure (v : α) : AsksWith name p (Pure.pure v : StateM (σ × List StoreCall) α) :=
  fun _ _ => ⟨[], (List.append_nil _).symm, nofun⟩

theorem bind {x : StateM (σ × List StoreCall) α} {f : α → StateM (σ × List StoreCall) β}
    (hx : AsksWith name p x) (hf : ∀ v, AsksWith name p (f v)) : AsksWith name p (x >>= f) := by
  intro s calls
  obtain ⟨asked, grown, same⟩ := hx s calls
  obtain ⟨more, grown', same'⟩ := hf (x (s, calls)).1 (x (s, calls)).2.1 (x (s, calls)).2.2
  refine ⟨asked ++ more, ?_, fun params paths q hq => ?_⟩
  · rw [stateM_bind]
    exact grown'.trans (by rw [grown, List.append_assoc])
  · exact (List.mem_append.mp hq).elim (same params paths q) (same' params paths q)

variable {store : Store σ} {a : Resource} {q : Pagination}

theorem page (h : a.name = name → q = p) (params : Keyed.Entries Value) :
    AsksWith name p (Resolver.page store.watched a q params) := by
  intro s calls
  refine ⟨_, by rw [Store.page_watched], fun params' paths q' hq => ?_⟩
  cases List.mem_singleton.mp hq
  exact h rfl

theorem list (h : a.name = name → q = p) (source : Value) (args : Keyed.Entries Value) :
    AsksWith name p ((Resolver.list a q).run store.watched source args) := by
  rw [Resolver.run]
  refine (AsksWith.page h _).bind fun answer => ?_
  cases answer <;> exact .pure _

theorem searchAll {query limit : Value} {rs : List (Resource × Pagination)}
    (h : ∀ e ∈ rs, e.1.name = name → e.2 = p) (results : Keyed.Entries Value) (total : Value) :
    AsksWith name p (Resolver.searchAll store.watched query limit rs results total) := by
  induction rs generalizing results total with
  | nil => exact .pure _
  | cons e rest ih =>
      obtain ⟨first, others⟩ := List.forall_mem_cons.mp h
      rw [Resolver.searchAll]
      split
      · exact ih others _ _
      · refine (AsksWith.page first _).bind fun answer => ?_
        cases answer with
        | error e => exact .pure _
        | ok found =>
            dsimp only
            cases Resolver.addTotal total ((Value.obj found).get "total") with
            | error e => exact .pure _
            | ok sum => exact ih others _ _

theorem crossSearch {rs : List (Resource × Pagination)}
    (h : ∀ e ∈ rs, e.1.name = name → e.2 = p) (source : Value) (args : Keyed.Entries Value) :
    AsksWith name p ((Resolver.crossSearch rs).run store.watched source args) := by
  rw [Resolver.run]
  refine (AsksWith.searchAll h _ _).bind fun answer => ?_
  cases answer <;> exact .pure _

end AsksWith

/-! ## The pagination that resolvers use -/

namespace ResolverMap

/-- The list of a resource and the search over all resources use a pagination for it, and whatever
the store and the request are, they ask about the resource with no other. -/
structure Paginates (R : ResolverMap) (a : Resource) (p : Pagination) : Prop where
  list : R.resolver? "Query" a.listField = some (.list a p)
  search : ∃ rs, R.resolver? "Query" "search" = some (.crossSearch rs) ∧
    (a, p) ∈ rs ∧ ∀ e ∈ rs, e.1.name = a.name → e.2 = p
  asks : ∀ field ∈ [a.listField, "search"], ∀ x, R.resolver? "Query" field = some x →
    ∀ {σ : Type} (store : Store σ) source args,
      AsksWith a.name p (x.run store.watched source args)

variable {R : ResolverMap} {a : Resource} {p q : Pagination}

theorem Paginates.unique (hp : R.Paginates a p) (hq : R.Paginates a q) : p = q :=
  (Resolver.list.inj (Option.some.inj (hp.list.symm.trans hq.list))).2

theorem Paginates.of_search {rs : List (Resource × Pagination)}
    (list : R.resolver? "Query" a.listField = some (.list a p))
    (search : R.resolver? "Query" "search" = some (.crossSearch rs)) (listed : (a, p) ∈ rs)
    (same : ∀ e ∈ rs, e.1.name = a.name → e.2 = p) : R.Paginates a p where
  list := list
  search := ⟨rs, search, listed, same⟩
  asks field hf x hx σ store source args := by
    rcases List.mem_pair.mp hf with rfl | rfl
    · cases list.symm.trans hx
      exact .list (fun _ => rfl) source args
    · cases search.symm.trans hx
      exact .crossSearch same source args

end ResolverMap

theorem Registry.Finished.paginates {n : Nat} {naming : Naming} {r : Registry n}
    (h : r.Finished naming) (ps : Keyed.Entries Pagination) {a : Resource}
    (ha : a ∈ r.api.resources) : (r.api.resolvers ps).Paginates a (paginationFor ps a.name) := by
  refine .of_search (h.agrees.resources a ha).1 (h.resolver?_search ps)
    (List.mem_map_of_mem ha) fun e he named => ?_
  obtain ⟨b, -, rfl⟩ := List.mem_map.mp he
  exact congrArg (paginationFor ps) named

namespace Specs

variable {g : RawGraph}

/-- A specification is the last of a name. -/
def IsLast (specs : List (ResourceSpec g.size)) (name : String) (last : ResourceSpec g.size) :
    Prop :=
  last.name = name ∧
    ∃ before after, specs = before ++ last :: after ∧ ∀ spec ∈ after, spec.name ≠ name

theorem exists_isLast {specs : List (ResourceSpec g.size)} {spec : ResourceSpec g.size}
    (h : spec ∈ specs) : ∃ last, IsLast specs spec.name last := by
  obtain ⟨last, found⟩ := Option.isSome_iff_exists.mp
    (List.find?_isSome (p := fun s : ResourceSpec g.size => s.name = spec.name).mpr
      ⟨spec, List.mem_reverse.mpr h, decide_eq_true rfl⟩)
  obtain ⟨named, after, before, split, others⟩ := List.find?_eq_some_iff_append.mp found
  refine ⟨last, of_decide_eq_true named, before.reverse, after.reverse, ?_, fun s hs => ?_⟩
  · rw [← List.reverse_reverse specs, split]
    simp
  · simpa using others s (List.mem_reverse.mp hs)

/-- Of specifications of one name, the last gives the pagination. -/
theorem paginationFor_last {s : Specs} {name : String} {last : ResourceSpec s.graph.size}
    (h : IsLast s.specs name last) :
    paginationFor (paginations s) name = last.paginationDefaults := by
  obtain ⟨named, before, after, split, others⟩ := h
  have none : Keyed.find? name ((after.map fun spec =>
      (spec.name, spec.paginationDefaults)).reverse) = none := by
    refine List.lookup_eq_none_iff.mpr fun e he => ?_
    obtain ⟨spec, hs, rfl⟩ := List.mem_map.mp (List.mem_reverse.mp he)
    exact bne_iff_ne.mpr (others spec hs).symm
  rw [paginationFor, paginations, Keyed.find?_ofPairs, split, List.map_append, List.map_cons,
    List.reverse_append, List.reverse_cons, List.append_assoc, Keyed.find?_append, none,
    Option.none_or, List.cons_append, Keyed.find?_cons, if_pos named.symm]
  rfl

end Specs

theorem Compilation.Course.named {g : RawGraph} {o : CompileOptions} {c c' : Compilation g.size}
    {course : List (ResourceSpec g.size × Except Skip Resource)} (h : Course o c course c')
    {spec : ResourceSpec g.size} {a : Resource} (ha : (spec, .ok a) ∈ course) :
    a.name = spec.name := by
  induction h with
  | done => cases ha
  | completed _ completes _ ih =>
      rcases List.mem_cons.mp ha with first | later
      · cases first
        obtain ⟨_, made, _⟩ := completes.source
        obtain ⟨_, here, named, _⟩ := made.main
        rw [← named, List.mem_singleton.mp here]
      · exact ih later
  | skipped _ _ _ ih =>
      rcases List.mem_cons.mp ha with first | later
      · cases first
      · exact ih later

/-- A resource has the pagination of the last specification of its name. -/
theorem Compilation.Course.paginates {s : Specs} {o : CompileOptions}
    {course : List (ResourceSpec s.graph.size × Except Skip Resource)}
    {c : Compilation s.graph.size} (h : Course o {} course c) (specs : course.map (·.1) = s.specs)
    (finished : c.registry.Finished o.naming) {spec : ResourceSpec s.graph.size} {a : Resource}
    (ha : (spec, .ok a) ∈ course) : ∃ last, Specs.IsLast s.specs spec.name last ∧
      (c.registry.api.resolvers (paginations s)).Paginates a last.paginationDefaults := by
  have listed : spec ∈ s.specs := specs ▸ List.mem_map_of_mem ha
  have compiled : a ∈ c.registry.api.resources := by
    rw [h.resources]
    exact List.mem_append_right _ (List.mem_filterMap.mpr ⟨_, ha, rfl⟩)
  obtain ⟨last, is_last⟩ := Specs.exists_isLast listed
  have paginates := finished.paginates (paginations s) compiled
  rw [h.named ha, Specs.paginationFor_last is_last] at paginates
  exact ⟨last, is_last, paginates⟩

/-- If specifications compile, then each gives a resource or is skipped, and for a resource its
list and the search over all resources use the pagination of the last specification of its name,
whether this one was skipped or not. So they use the pagination of the very specification that the
resource was compiled from exactly if the last of the name asks for the same one. -/
theorem compile_paginates_iff {o : CompileOptions} {s : Specs} {api : Api} {log : List LogLine}
    (h : compile o s = .ok (api, log)) :
    ∃ (course : List (ResourceSpec s.graph.size × Except Skip Resource))
        (c : Compilation s.graph.size) (R : ResolverMap),
      course.map (·.1) = s.specs ∧ Compilation.Course o {} course c ∧ c.registry.api = api ∧
      api.resources = Compilation.compiled course ∧
      ResolverMap.ofApi api (paginations s) = .ok R ∧
      ∀ spec a, (spec, .ok a) ∈ course → ∃ last, Specs.IsLast s.specs spec.name last ∧
        R.Paginates a last.paginationDefaults ∧
        (R.Paginates a spec.paginationDefaults
          ↔ last.paginationDefaults = spec.paginationDefaults) := by
  obtain ⟨c, hc, rfl, finished⟩ := compile_finished h
  obtain ⟨course, specs, after⟩ := Compilation.addResources_course (NodeTable.sound_empty []) hc
  refine ⟨course, c, _, specs, after, rfl, after.resources, finished.ofApi_eq (paginations s),
    fun spec a ha => ?_⟩
  obtain ⟨last, is_last, paginates⟩ := after.paginates specs finished ha
  exact ⟨last, is_last, paginates, fun own => paginates.unique own, fun same => same ▸ paginates⟩

/-- Persons with pages of ten, and once more without schemas and with pages of twenty. -/
abbrev Specs.crowd : Specs where
  graph := Specs.colored.graph
  specs := [
    { name := "persons", schemas := [("Person", .obj 0)]
      pagination := some
        { Pagination.default with limitDefault := 10, one_le_limitDefault := by decide } },
    { name := "persons"
      pagination := some
        { Pagination.default with limitDefault := 20, one_le_limitDefault := by decide } }]

namespace Specs.crowd

abbrev tens : ResourceSpec Specs.crowd.graph.size :=
  { name := "persons", schemas := [("Person", .obj 0)]
    pagination := some
      { Pagination.default with limitDefault := 10, one_le_limitDefault := by decide } }

abbrev twenties : ResourceSpec Specs.crowd.graph.size :=
  { name := "persons"
    pagination := some
      { Pagination.default with limitDefault := 20, one_le_limitDefault := by decide } }

theorem tens_compiled : ∃ c, Compilation.addResource {} {} tens = .ok c ∧
    c.registry.api.resources.map Resource.name = ["persons"] := by
  rw [Compilation.addResource_eq_upTo]
  decide +kernel

theorem twenties_skipped (c : Compilation Specs.crowd.graph.size) :
    c.addResource {} twenties = .ok (c.skip "persons" .noMainSchema) := rfl

theorem compiles : ∃ api log, compile {} Specs.crowd = .ok (api, log) := by
  obtain ⟨c, persons, -⟩ := tens_compiled
  have run : Compilation.addResources {} Specs.crowd.specs {}
      = .ok (c.skip "persons" .noMainSchema) := by
    apply (Compilation.addResources_cons persons).trans
    exact Compilation.addResources_cons (twenties_skipped c)
  exact ⟨_, _, Assembly.compile_of_addResources run⟩

theorem isLast {last : ResourceSpec Specs.crowd.graph.size}
    (h : Specs.IsLast Specs.crowd.specs "persons" last) : last = twenties := by
  obtain ⟨-, before, after, split, others⟩ := h
  rcases before with _ | ⟨_, _ | ⟨_, _⟩⟩
  · cases split
    exact absurd rfl (others twenties (List.mem_singleton_self _))
  · cases split
    rfl
  · simp at split

/-- The persons are made of the specification that has schemas. -/
theorem course {course : List (ResourceSpec Specs.crowd.graph.size × Except Skip Resource)}
    {c : Compilation Specs.crowd.graph.size} (specs : course.map (·.1) = Specs.crowd.specs)
    (h : Compilation.Course {} {} course c) : ∃ a, (tens, .ok a) ∈ course := by
  obtain ⟨c', persons, names⟩ := tens_compiled
  cases h with
  | done => cases specs
  | completed =>
      obtain ⟨rfl, -⟩ := List.cons.inj specs
      exact ⟨_, List.mem_cons_self ..⟩
  | skipped step skips =>
      obtain ⟨rfl, -⟩ := List.cons.inj specs
      cases persons.symm.trans step
      rw [skips.registry] at names
      cases names

end Specs.crowd

open Specs.crowd in
/-- The persons have pages of twenty. -/
theorem crowd_paginates : ∃ api log R a, compile {} Specs.crowd = .ok (api, log) ∧
    ResolverMap.ofApi api (paginations Specs.crowd) = .ok R ∧ a ∈ api.resources ∧
    R.Paginates a twenties.paginationDefaults := by
  obtain ⟨api, log, h⟩ := compiles
  obtain ⟨_, _, R, specs, run, -, resources, made, paginates⟩ := compile_paginates_iff h
  obtain ⟨a, ha⟩ := Specs.crowd.course specs run
  obtain ⟨last, is_last, uses, -⟩ := paginates tens a ha
  rw [isLast is_last] at uses
  exact ⟨api, log, R, a, h, made, resources ▸ List.mem_filterMap.mpr ⟨_, ha, rfl⟩, uses⟩

open Specs.crowd in
/-- The persons were compiled from a specification that asks for pages of ten. -/
theorem crowd_not_paginates : ∃ api log course c R a, compile {} Specs.crowd = .ok (api, log) ∧
    course.map (·.1) = Specs.crowd.specs ∧ Compilation.Course {} {} course c ∧
    c.registry.api = api ∧ ResolverMap.ofApi api (paginations Specs.crowd) = .ok R ∧
    (tens, .ok a) ∈ course ∧ ¬ R.Paginates a tens.paginationDefaults := by
  obtain ⟨api, log, h⟩ := compiles
  obtain ⟨c, hc, rfl, finished⟩ := compile_finished h
  obtain ⟨course, specs, after⟩ := Compilation.addResources_course (NodeTable.sound_empty []) hc
  obtain ⟨a, ha⟩ := Specs.crowd.course specs after
  obtain ⟨last, is_last, uses⟩ := after.paginates specs finished ha
  rw [isLast is_last] at uses
  refine ⟨_, log, course, c, _, a, h, specs, after, rfl, finished.ofApi_eq _, ha, fun own => ?_⟩
  exact absurd (congrArg Pagination.limitDefault (own.unique uses)) (by decide)

end ResourceGraph
