import ResourceGraph.Proofs.Service.Resolvers
import ResourceGraph.Proofs.Store.Paging

/-!
# Searching all resources at once

A search over all resources is the lists of the resources side by side: under the list field of a
resource with searchable paths stand the items of the first page of its list, and the total is the
sum of the totals of these pages. A resource without searchable paths is not asked.
-/

namespace ResourceGraph

theorem stateM_bind {σ α β : Type} (x : StateM σ α) (f : α → StateM σ β) (s : σ) :
    (x >>= f) s = f (x s).1 (x s).2 := rfl

/-- A store that also keeps a list of what it was asked. -/
def Store.watched {σ : Type} (store : Store σ) : Store (σ × List StoreCall) where
  find resource id := fun (s, calls) =>
    let (answer, s) := store.find resource id s
    (answer, s, calls ++ [.find resource id])
  search resource params paths p := fun (s, calls) =>
    let (answer, s) := store.search resource params paths p s
    (answer, s, calls ++ [.search resource params paths p])

namespace Store

variable {σ : Type} (store : Store σ)

/-- Watching a store does not change what it answers. -/
theorem page_watched (a : Resource) (p : Pagination) (params : Keyed.Entries Value) (s : σ)
    (calls : List StoreCall) :
    Resolver.page store.watched a p params (s, calls)
      = ((Resolver.page store a p params s).1, (Resolver.page store a p params s).2,
          calls ++ [.search a.name params a.searchable p]) := by
  have answered : store.watched.search a.name params a.searchable p (s, calls)
      = ((store.search a.name params a.searchable p s).1,
          (store.search a.name params a.searchable p s).2,
          calls ++ [.search a.name params a.searchable p]) := rfl
  rw [Resolver.page, Resolver.page, stateM_bind, stateM_bind, answered]
  cases (store.search a.name params a.searchable p s).1 <;> rfl

end Store

/-! ## Going through the resources -/

namespace Resource

variable (a : Resource) (page : Page)

/-- What is shown of a page of the resource. -/
def gathered : List Value := if a.searchable = [] then [] else page.items

/-- What a page of the resource adds to the total. -/
def counted : Int := if a.searchable = [] then 0 else page.total

end Resource

namespace Resolver

/-- The parameters that a resource is searched with. -/
def searchParams (term : String) (limit : Option Int) : Keyed.Entries Value :=
  [("search", .str term), ("limit", limit.elim .null .int), ("offset", .int 0)]

/-- The resources that are searched are asked for the first records that hold a term. -/
def searchCalls (term : String) (limit : Option Int) (pagination : Resource → Pagination)
    (resources : List Resource) : List StoreCall :=
  (resources.filter fun a => a.searchable ≠ []).map fun a =>
    .search a.name (searchParams term limit) a.searchable (pagination a)

variable (pageOf : Resource → Page)

/-- The members that resources have in the answer. -/
def gatheredMembers (resources : List Resource) : Keyed.Entries Value :=
  resources.map fun a => (a.listField, .arr (a.gathered (pageOf a)))

/-- The sum of what the pages add to the total. -/
def countedTotal (resources : List Resource) : Int :=
  resources.foldr (fun a total => a.counted (pageOf a) + total) 0

/-- What a search over all resources shows. -/
def gatheredPages (resources : List Resource) : Keyed.Entries Value :=
  gatheredMembers pageOf resources ++ [("totalCount", .int (countedTotal pageOf resources))]

variable {pageOf} {τ : Type} {store : Store τ} {term : String} {limit : Option Int}
  {pagination : Resource → Pagination} (after : List StoreCall → τ) {resources : List Resource}

/-- If the store has a page for every resource that is asked, whatever it was asked before, the
answer is made of these pages. -/
theorem searchAll_eq
    (answers : ∀ a ∈ resources, a.searchable ≠ [] → ∀ calls,
      page store a (pagination a) (searchParams term limit) (after calls)
        = (normalizePage (pagination a) (pageOf a).toValue, after (calls ++
            [.search a.name (searchParams term limit) a.searchable (pagination a)])))
    (results : Keyed.Entries Value) (total : Int) (calls : List StoreCall) :
    searchAll store (.str term) (limit.elim .null .int) (resources.map fun a => (a, pagination a))
        results (.int total) (after calls)
      = (.ok (Keyed.insert "totalCount" (.int (total + countedTotal pageOf resources))
            (Keyed.update results (gatheredMembers pageOf resources))),
          after (calls ++ searchCalls term limit pagination resources)) := by
  induction resources generalizing results total calls with
  | nil =>
      have none : countedTotal pageOf [] = 0 := rfl
      rw [List.map_nil, searchAll, none, Int.add_zero, searchCalls, List.filter_nil, List.map_nil,
        List.append_nil]
      rfl
  | cons a rest ih =>
      obtain ⟨first, others⟩ := List.forall_mem_cons.mp answers
      have members : Keyed.update results (gatheredMembers pageOf (a :: rest))
          = Keyed.update (Keyed.insert a.listField (.arr (a.gathered (pageOf a))) results)
              (gatheredMembers pageOf rest) := rfl
      have sum : total + countedTotal pageOf (a :: rest)
          = total + a.counted (pageOf a) + countedTotal pageOf rest := by
        rw [Int.add_assoc]
        rfl
      rw [List.map_cons, searchAll, members, sum, searchCalls]
      by_cases unsearched : a.searchable = []
      · rw [if_pos (List.isEmpty_iff.mpr unsearched), ih others,
          List.filter_cons_of_neg (by simp [unsearched]), Resource.gathered, Resource.counted,
          if_pos unsearched, if_pos unsearched, Int.add_zero, searchCalls]
      · rw [if_neg (mt List.isEmpty_iff.mp unsearched),
          List.filter_cons_of_pos (by simp [unsearched]), List.map_cons, List.append_cons,
          Resource.gathered, Resource.counted, if_neg unsearched, if_neg unsearched]
        have answered := first unsearched calls
        rw [Page.normalizePage_toValue] at answered
        show (page store a (pagination a) (searchParams term limit) >>= _) (after calls) = _
        rw [stateM_bind, answered]
        exact ih others ..

theorem run_crossSearch {given : Keyed.Entries Value}
    (answers : ∀ a ∈ resources, a.searchable ≠ [] → ∀ calls,
      page store a (pagination a) (searchParams term limit) (after calls)
        = (normalizePage (pagination a) (pageOf a).toValue, after (calls ++
            [.search a.name (searchParams term limit) a.searchable (pagination a)])))
    (distinct : (resources.map Resource.listField ++ ["totalCount"]).Nodup)
    (query : (Value.obj given).get "query" = .str term)
    (limited : (Value.obj given).get "limit" = limit.elim .null .int) (source : Value)
    (calls : List StoreCall) :
    (crossSearch (resources.map fun a => (a, pagination a))).run store source given (after calls)
      = (.ok (.obj (gatheredPages pageOf resources)),
          after (calls ++ searchCalls term limit pagination resources)) := by
  have keys : Keyed.keys (gatheredMembers pageOf resources) = resources.map Resource.listField :=
    List.map_map
  rw [← keys] at distinct
  obtain ⟨members, -, apart⟩ := List.nodup_append.mp distinct
  have fresh : "totalCount" ∉ Keyed.keys (gatheredMembers pageOf resources) := fun listed =>
    apart _ listed _ (List.mem_singleton_self _) rfl
  have gathered : Keyed.update [] (gatheredMembers pageOf resources)
      = gatheredMembers pageOf resources := Keyed.update_eq_append members
  rw [run, stateM_bind, query, limited, searchAll_eq after answers, gathered, Int.zero_add,
    Keyed.insert_of_not_mem fresh]
  rfl

end Resolver

/-! ## A store in memory -/

namespace ListQuery

variable (q : ListQuery)

/-- Arguments that ask a list for its first page, and for nothing but what is queried. -/
structure AskedBy (given : Keyed.Entries Value) : Prop where
  term : (Value.obj given).get "search" = q.term.elim .null .str
  limit : (Value.obj given).get "limit" = q.limit.elim .null .int
  offset : (Value.obj given).get "offset" = .int 0
  unfiltered : MemoryStore.filtersOf given = []

theorem askedBy_arguments : q.AskedBy (q.arguments 0) := by
  obtain ⟨term, limit⟩ := q
  cases term <;> cases limit <;> exact ⟨rfl, rfl, rfl, rfl⟩

/-- It makes no difference whether what is not asked for is left out or null. -/
theorem AskedBy.listParams_eq {q : ListQuery} {given : Keyed.Entries Value} (h : q.AskedBy given)
    (paths : List String) :
    Resolver.listParams paths given = Resolver.listParams paths (q.arguments 0) := by
  have same {given' : Keyed.Entries Value} (h' : q.AskedBy given') :
      Resolver.listParams paths given'
        = (if (q.term.elim Value.null .str).truthy && !paths.isEmpty
            then [("search", q.term.elim .null .str)] else [])
          ++ [("limit", q.limit.elim .null .int), ("offset", .int 0)] := by
    rw [← h'.term, ← h'.limit, ← h'.offset]
    show Keyed.update _ (MemoryStore.filtersOf given') = _
    rw [h'.unfiltered]
    rfl
  rw [same h, same q.askedBy_arguments]

/-- A term that is given selects the records that match, also if it is empty. -/
theorem select_term {term : String} (given : q.term = some term) {paths : List String}
    (nonempty : paths ≠ []) (records : List Record) :
    MemoryStore.select [] (.str term) paths records
      = .ok (records.filter fun r => q.Matches paths r) := by
  rw [← select_searched]
  by_cases empty : term = ""
  · have unsearched : q.searched paths = none := by
      rw [searched, given, empty]
      rfl
    rw [unsearched, MemoryStore.select_all (by rw [empty]; rfl) paths,
      Option.elim_none, MemoryStore.select_all rfl paths]
  · rw [searched_eq_some.mpr ⟨given, empty, nonempty⟩]
    rfl

end ListQuery

namespace Resolver

variable (term : String) (limit : Option Int)

/-- The page of a resource that a store has for a term. -/
def firstPage (ps : Keyed.Entries Pagination) (store : MemoryStore) (a : Resource) : Page :=
  let q : ListQuery := ⟨some term, limit⟩
  .ofMatches (q.window (paginationFor ps a.name) 0) (q.found a (store.database a.name))

theorem search_searchParams (records : List Record) {paths : List String} (nonempty : paths ≠ [])
    (p : Pagination) :
    let q : ListQuery := ⟨some term, limit⟩
    MemoryStore.search records (searchParams term limit) paths p
      = .ok (Page.ofMatches (q.window p 0)
          ((records.filter fun r => q.Matches paths r).map .obj)) := by
  intro q
  have window : Window.ofParams (searchParams term limit) p = .ok (q.window p 0) := by
    rw [ListQuery.window]
    cases limit <;> rfl
  have selected := q.select_term rfl nonempty records
  have unfiltered : MemoryStore.filtersOf (searchParams term limit) = [] := rfl
  rw [MemoryStore.search, window, unfiltered]
  show (MemoryStore.select [] (.str term) paths records >>= _) = _
  rw [selected]
  rfl

variable {term limit} {ps : Keyed.Entries Pagination} (store : MemoryStore)

theorem search_store {a : Resource} (searched : a.searchable ≠ []) :
    MemoryStore.store.search a.name (searchParams term limit) a.searchable
        (paginationFor ps a.name) store
      = (.ok (firstPage term limit ps store a).toValue, store) := by
  have found := search_searchParams term limit (store.database a.name) searched
    (paginationFor ps a.name)
  show ((MemoryStore.search (store.database a.name) _ _ _).map Page.toValue, store) = _
  rw [found]
  rfl

theorem page_store {a : Resource} (searched : a.searchable ≠ []) :
    page MemoryStore.store a (paginationFor ps a.name) (searchParams term limit) store
      = (normalizePage (paginationFor ps a.name) (firstPage term limit ps store a).toValue,
          store) := by
  rw [page, stateM_bind, search_store store searched]
  rfl

end Resolver

theorem Registry.Finished.resolver?_search {n : Nat} {naming : Naming} {r : Registry n}
    (h : r.Finished naming) (ps : Keyed.Entries Pagination) :
    (r.api.resolvers ps).resolver? "Query" "search"
      = some (.crossSearch (r.api.resources.map fun a => (a, paginationFor ps a.name))) := by
  have distinct : (Keyed.keys (r.api.queryResolvers ps)).Nodup := by
    rw [r.api.keys_queryResolvers ps h.consistent.queries]
    exact h.consistent.wellFormed.distinctQueries
  rw [ResolverMap.resolver?, Api.resolvers, Keyed.find?_cons, if_pos rfl]
  exact Keyed.find?_of_mem distinct (List.mem_append_right _ (List.mem_singleton_self _))

/-- Whatever the resources are, if they compile then the API has a resolver for each list and one
for a search over all of them, and no list field is named as another or as the total. For every
store in memory, every term, also an empty one, and every limit, the lists answer with their first
pages, and the search answers with one entry for each resource, and with the total: the items of the
page if the resource has searchable paths, else none, and the sum of the totals of these pages. The
store is searched once for each of these resources, in order, and for no other; nothing else in the
arguments counts, such as an offset. -/
theorem search_gathers_lists {o : CompileOptions} {s : Specs} {api : Api} {log : List LogLine}
    (h : compile o s = .ok (api, log)) :
    ∃ R search, ResolverMap.ofApi api (paginations s) = .ok R ∧
      R.resolver? "Query" "search" = some search ∧
      (api.resources.map Resource.listField ++ ["totalCount"]).Nodup ∧
      ∀ (store : MemoryStore) (term : String) (limit : Option Int), ∃ pageOf : Resource → Page,
        (∀ a ∈ api.resources, ∃ list, R.resolver? "Query" a.listField = some list ∧
          ∀ source given, ListQuery.AskedBy ⟨some term, limit⟩ given →
            list.run MemoryStore.store source given store = (.ok (pageOf a).toValue, store)) ∧
        ∀ source given, (Value.obj given).get "query" = .str term →
          (Value.obj given).get "limit" = limit.elim .null .int →
          search.run MemoryStore.store source given store
            = (.ok (.obj (Resolver.gatheredPages pageOf api.resources)), store) ∧
          ∀ calls, search.run MemoryStore.store.watched source given (store, calls)
            = (.ok (.obj (Resolver.gatheredPages pageOf api.resources)), store, calls ++
                Resolver.searchCalls term limit (fun a => paginationFor (paginations s) a.name)
                  api.resources) := by
  obtain ⟨c, -, rfl, finished⟩ := compile_finished h
  have distinct : (c.registry.api.resources.map Resource.listField ++ ["totalCount"]).Nodup := by
    have results := finished.consistent.wellFormed.distinctResults
    rwa [Api.searchResultsType, List.map_append, List.map_map] at results
  refine ⟨_, _, finished.ofApi_eq (paginations s), finished.resolver?_search _, distinct,
    fun store term limit => ⟨Resolver.firstPage term limit (paginations s) store, ?_, ?_⟩⟩
  · intro a ha
    refine ⟨_, (finished.agrees.resources a ha).1, fun source given asked => ?_⟩
    let q : ListQuery := ⟨some term, limit⟩
    have same : (Resolver.list a (paginationFor (paginations s) a.name)).run MemoryStore.store
          source given
        = q.ask a (paginationFor (paginations s) a.name) source 0 := by
      rw [ListQuery.ask, Resolver.run, Resolver.run, asked.listParams_eq]
    rw [same]
    exact q.run_ask _ store a source 0
  · intro source given query limited
    constructor
    · exact Resolver.run_crossSearch (fun _ => store)
        (fun a _ searched _ => Resolver.page_store store searched) distinct query limited source []
    · intro calls
      refine Resolver.run_crossSearch (fun calls => (store, calls))
        (fun a _ searched calls => ?_) distinct query limited source calls
      rw [Store.page_watched, Resolver.page_store store searched]

/-- Pupils with a name, and rooms with a number, by which they cannot be searched. -/
def Specs.school : Specs where
  graph :=
    { size := 6
      objects := #v[
        [("type", .str "object"), ("properties", .obj 1)],
        [("name", .obj 2)],
        [("type", .str "string")],
        [("type", .str "object"), ("properties", .obj 4)],
        [("number", .obj 5)],
        [("type", .str "integer")]]
      nodup := by decide }
  specs := [{ name := "pupils", schemas := [("Pupil", .obj 0)] },
    { name := "rooms", schemas := [("Room", .obj 3)] }]

theorem compile_school :
    (compile {} Specs.school).map (fun c =>
        c.1.resources.map fun a => (a.listField, a.searchable))
      = .ok [("pupils", ["name"]), ("rooms", [])] := by
  rw [compile_eq_upTo]
  decide +kernel

/-- A search of the school shows the pupils that their list shows, and no rooms. -/
theorem school_gathers : ∃ api log R list search, compile {} Specs.school = .ok (api, log) ∧
    ResolverMap.ofApi api (paginations Specs.school) = .ok R ∧
    R.resolver? "Query" "pupils" = some list ∧ R.resolver? "Query" "search" = some search ∧
    ∀ (store : MemoryStore) (term : String) (offset : Int), ∃ page : Page,
      list.run MemoryStore.store .null [("search", .str term), ("offset", .int 0)] store
        = (.ok page.toValue, store) ∧
      search.run MemoryStore.store .null [("query", .str term), ("offset", .int offset)] store
        = (.ok (.obj [("pupils", .arr page.items), ("rooms", .arr []),
            ("totalCount", .int page.total)]), store) := by
  have shown := compile_school
  rcases hc : compile {} Specs.school with e | ⟨api, log⟩
  · rw [hc] at shown
    cases shown
  rw [hc] at shown
  have resources : api.resources.map (fun a => (a.listField, a.searchable))
      = [("pupils", ["name"]), ("rooms", [])] := Except.ok.inj shown
  obtain ⟨pupils, rest, here, hp, hr⟩ := List.map_eq_cons_iff.mp resources
  obtain ⟨rooms, others, rfl, hm, hn⟩ := List.map_eq_cons_iff.mp hr
  obtain rfl := List.map_eq_nil_iff.mp hn
  obtain ⟨listed, searched⟩ := Prod.mk.inj hp
  obtain ⟨listed', unsearched⟩ := Prod.mk.inj hm
  obtain ⟨R, search, made, found, -, gathers⟩ := search_gathers_lists hc
  rw [here] at gathers
  obtain ⟨_, lists, _⟩ := gathers {} "" none
  obtain ⟨list, hl, -⟩ := lists pupils (List.mem_cons_self ..)
  refine ⟨api, log, R, list, search, rfl, made, listed ▸ hl, found, fun store term offset => ?_⟩
  obtain ⟨pageOf, lists, runs⟩ := gathers store term none
  obtain ⟨list', hl', shows⟩ := lists pupils (List.mem_cons_self ..)
  obtain rfl := Option.some.inj (hl.symm.trans hl')
  refine ⟨pageOf pupils, shows .null _ ⟨rfl, rfl, rfl, rfl⟩, ?_⟩
  rw [(runs .null _ rfl rfl).1]
  have members : Resolver.gatheredPages pageOf [pupils, rooms]
      = [("pupils", .arr (pageOf pupils).items), ("rooms", .arr []),
          ("totalCount", .int (pageOf pupils).total)] := by
    simp [Resolver.gatheredPages, Resolver.gatheredMembers, Resolver.countedTotal,
      Resource.gathered, Resource.counted, listed, listed', searched, unsearched]
  rw [members]

end ResourceGraph
