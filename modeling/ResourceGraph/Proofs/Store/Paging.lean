import ResourceGraph.Proofs.Store.Search
import ResourceGraph.Resolver

/-!
# Paging through a list

A list field shows one page at a time. Asking again from where the last page ended, until there is
none after it, shows every record that matches once for each time it was added, in that order.
-/

namespace ResourceGraph

/-! ## Stores that were filled step by step -/

namespace MemoryStore

/-- Adds one value after the other, each to the resource beside it. What is no record is not
added. -/
def addEach (s : MemoryStore) : List (String × Value) → MemoryStore
  | [] => s
  | (resource, v) :: rest => addEach ((s.add resource v).toOption.getD s) rest

/-- The records that were added to a resource, in order. -/
def added (resource : String) (additions : List (String × Value)) : List Record :=
  additions.filterMap fun (name, v) =>
    if name = resource then (Record.ofValue v).toOption else none

@[simp] theorem database_insert (s : MemoryStore) (name resource : String) (r : Record) :
    (s.insert name r).database resource
      = if name = resource then s.database resource ++ [r] else s.database resource := by
  rw [insert, database, Keyed.find?_insert]
  by_cases same : resource = name
  · subst same
    simp
  · rw [if_neg same, if_neg (Ne.symm same), database]

theorem database_add (s : MemoryStore) (name resource : String) (v : Value) :
    ((s.add name v).toOption.getD s).database resource
      = s.database resource ++ added resource [(name, v)] := by
  rw [add]
  cases hv : Record.ofValue v with
  | error e => by_cases same : name = resource <;> simp [Except.map, Except.toOption, added, hv]
  | ok r =>
      by_cases same : name = resource <;> simp [Except.map, Except.toOption, added, hv, same]

theorem database_addEach (s : MemoryStore) (resource : String) (additions : List (String × Value)) :
    (s.addEach additions).database resource = s.database resource ++ added resource additions := by
  induction additions generalizing s with
  | nil => simp [addEach, added]
  | cons addition rest ih =>
      obtain ⟨name, v⟩ := addition
      rw [addEach, ih, database_add, List.append_assoc, added, added, added,
        ← List.filterMap_append, List.singleton_append]

/-- Without a term, or with an empty one, and without filters a search selects all records. -/
theorem select_all {term : Value} (absent : term.truthy = false) (paths : List String)
    (records : List Record) : select [] term paths records = .ok records := by
  induction records with
  | nil => rfl
  | cons r rest ih =>
      have given : matchesSearch term paths r = .ok true := if_pos (by rw [absent]; rfl)
      rw [select, matchesFilters, List.all_nil, if_pos rfl, given, ih]
      rfl

instance (term : String) : DecidablePred (Contains term)
  | .str text =>
      inferInstanceAs (Decidable ((Text.lower term).toList <:+: (Text.lower text).toList))
  | .null | .bool _ | .int _ | .double _ | .arr _ | .obj _ | .knot _ =>
      inferInstanceAs (Decidable False)

end MemoryStore

/-! ## Pages of a list -/

namespace Page

/-- A page shows so much of a list from a place on, and whether there is more after it. -/
structure Shows (found : List Value) (size start : Nat) (page : Page) : Prop where
  items : page.items = (found.drop start).take size
  total : page.total = found.length
  limit : page.limit = size
  offset : page.offset = start
  hasNext : page.hasNext = true ↔ (found.drop (start + page.items.length)).take size ≠ []

theorem shows_ofMatches (w : Window) (found : List Value) :
    (ofMatches w found).Shows found w.limit w.offset where
  items := rfl
  total := rfl
  limit := rfl
  offset := rfl
  hasNext := by
    have positive := w.limit_pos
    rw [ne_eq, List.take_eq_nil_iff, List.drop_eq_nil_iff]
    show decide (w.offset + (ofMatches w found).items.length < found.length) = true ↔ _
    rw [decide_eq_true_iff]
    omega

variable {found : List Value} {size start : Nat} {page : Page}

theorem Shows.length_items (h : page.Shows found size start) :
    page.items.length = min size (found.length - start) := by
  rw [h.items, List.length_take, List.length_drop]

theorem Shows.hasNext_iff (h : page.Shows found size start) (positive : 1 ≤ size) :
    page.hasNext = true ↔ start + page.items.length < found.length := by
  rw [h.hasNext, ne_eq, List.take_eq_nil_iff, List.drop_eq_nil_iff]
  omega

/-- What comes before the next page is what was shown so far. -/
theorem Shows.items_append (h : page.Shows found size start) :
    page.items ++ found.drop (start + page.items.length) = found.drop start := by
  have shown : page.items <+: found.drop start := h.items ▸ List.take_prefix size _
  rw [← List.drop_drop]
  exact List.prefix_iff_eq_append.mp shown

theorem toValue_injective : Function.Injective Page.toValue := by
  rintro ⟨items, total, limit, offset, hasNext⟩ ⟨items', total', limit', offset', hasNext'⟩ same
  simp only [toValue, Value.obj.injEq, List.cons.injEq, Prod.mk.injEq, Value.arr.injEq,
    Value.int.injEq, Value.bool.injEq, Int.natCast_inj, true_and, and_true] at same
  obtain ⟨rfl, rfl, rfl, rfl, rfl⟩ := same
  rfl

/-- A page has all its members, so nothing is put in place of what is missing. -/
theorem normalizePage_toValue (p : Pagination) (page : Page) :
    normalizePage p page.toValue = .ok [("items", .arr page.items), ("total", .int page.total),
      ("limit", .int page.limit), ("offset", .int page.offset),
      ("hasNext", .bool page.hasNext)] := by
  simp [normalizePage, toValue, Value.items?]

end Page

/-! ## Asking for pages -/

/-- What a list can be asked for: a term, and how many records a page has. -/
structure ListQuery where
  term : Option String := none
  limit : Option Int := none

namespace ListQuery

/-- The arguments that ask for the page from an offset on. What is not asked for is left out. -/
def arguments (q : ListQuery) (start : Int) : Keyed.Entries Value :=
  (q.term.map fun term => ("search", .str term)).toList
    ++ (q.limit.map fun limit => ("limit", .int limit)).toList ++ [("offset", .int start)]

/-- Every record matches without a term, or if there are no paths to search. -/
def Matches (q : ListQuery) (paths : List String) (r : Record) : Prop :=
  ∀ term, q.term = some term → term ≠ "" → paths ≠ [] →
    ∃ path ∈ paths, MemoryStore.Contains term (Record.readPath (.obj r) path)

instance (q : ListQuery) (paths : List String) : DecidablePred (q.Matches paths) := fun r =>
  match h : q.term with
  | none => .isTrue fun term given => by rw [h] at given; cases given
  | some term => decidable_of_iff (term ≠ "" → paths ≠ [] →
      ∃ path ∈ paths, MemoryStore.Contains term (Record.readPath (.obj r) path)) <| by
        simp [Matches, h]

/-- What a list shows of the records of its resource. -/
def found (q : ListQuery) (a : Resource) (records : List Record) : List Value :=
  (records.filter fun r => q.Matches a.searchable r).map .obj

/-- Asks the list resolver of a resource for the page from an offset on. -/
def ask (q : ListQuery) (a : Resource) (p : Pagination) (source : Value) (start : Int) :
    StateM MemoryStore (Except Fault Value) :=
  (Resolver.list a p).run MemoryStore.store source (q.arguments start)

/-- The window that a page from an offset on shows. -/
def window (q : ListQuery) (p : Pagination) (start : Int) : Window :=
  .clamp p (q.limit.getD p.limitDefault) start

/-- The term that is passed on to the store. -/
def searched (q : ListQuery) (paths : List String) : Option String :=
  q.term.filter fun term => term != "" && !paths.isEmpty

theorem searched_eq_some {q : ListQuery} {paths : List String} {term : String} :
    q.searched paths = some term ↔ q.term = some term ∧ term ≠ "" ∧ paths ≠ [] := by
  simp [searched, Option.filter_eq_some_iff]

theorem matches_iff {q : ListQuery} {paths : List String} {r : Record} :
    q.Matches paths r ↔ ∀ term, q.searched paths = some term →
      ∃ path ∈ paths, MemoryStore.Contains term (Record.readPath (.obj r) path) := by
  simp only [Matches, searched_eq_some, and_imp]

variable (q : ListQuery) (paths : List String)

/-- The parameters that the store is asked with. -/
theorem listParams_arguments (start : Int) :
    Resolver.listParams paths (q.arguments start)
      = ((q.searched paths).map fun term => ("search", .str term)).toList
        ++ [("limit", q.limit.elim .null .int), ("offset", .int start)] := by
  obtain ⟨term, limit⟩ := q
  cases term <;> cases limit <;>
    simp [Resolver.listParams, arguments, searched, Value.get, Value.truthy, Keyed.update,
      Option.filter]
  all_goals split <;> simp

theorem select_searched (records : List Record) :
    MemoryStore.select [] ((q.searched paths).elim .null .str) paths records
      = .ok (records.filter fun r => q.Matches paths r) := by
  cases hs : q.searched paths with
  | none =>
      have all : ∀ r ∈ records, decide (q.Matches paths r) = true := fun r _ =>
        decide_eq_true (matches_iff.mpr fun term given => by rw [hs] at given; cases given)
      rw [List.filter_eq_self.mpr all]
      exact MemoryStore.select_all rfl paths records
  | some term =>
      obtain ⟨-, nonempty, -⟩ := searched_eq_some.mp hs
      refine (MemoryStore.select_eq_filter nonempty paths records).trans (congrArg Except.ok ?_)
      refine List.filter_congr fun r _ => ?_
      rw [Bool.eq_iff_iff, MemoryStore.matchesTerm_iff, decide_eq_true_iff, matches_iff]
      simp [hs]

variable (p : Pagination)

/-- The store answers with a page of the records that match. -/
theorem search_arguments (records : List Record) (start : Int) :
    MemoryStore.search records (Resolver.listParams paths (q.arguments start)) paths p
      = .ok (Page.ofMatches (q.window p start)
          ((records.filter fun r => q.Matches paths r).map .obj)) := by
  generalize given : Resolver.listParams paths (q.arguments start) = params
  rw [listParams_arguments] at given
  have unfiltered : MemoryStore.filtersOf params = [] := by
    rw [← given]
    cases q.searched paths <;> rfl
  have asked : (Value.obj params).get "search" = (q.searched paths).elim .null .str := by
    rw [← given]
    cases q.searched paths <;> rfl
  have window : Window.ofParams params p = .ok (q.window p start) := by
    rw [← given, ListQuery.window]
    cases q.searched paths <;> cases q.limit <;> rfl
  rw [MemoryStore.search, window, unfiltered, asked]
  show (MemoryStore.select [] ((q.searched paths).elim .null .str) paths records >>= _) = _
  rw [select_searched]
  rfl

/-- The resolver answers with this page and leaves the store as it is. -/
theorem run_ask (s : MemoryStore) (a : Resource) (source : Value) (start : Int) :
    (q.ask a p source start).run s
      = (.ok (Page.ofMatches (q.window p start) (q.found a (s.database a.name))).toValue, s) := by
  have answered := search_arguments q a.searchable p (s.database a.name) start
  simp only [ask, Resolver.run, Resolver.page, MemoryStore.store, StateT.run_bind, StateT.run_get,
    pure_bind, StateT.run_pure, answered, Except.map, Page.normalizePage_toValue]
  rfl

/-- The page that the resolver answers with shows what was found, from the offset on. -/
theorem shows_window (found : List Value) (start : Int) :
    (Page.ofMatches (q.window p start) found).Shows found (q.window p 0).limit start.toNat := by
  have offset : (q.window p start).offset = start.toNat := by
    show (max 0 start).toNat = start.toNat
    omega
  rw [← offset]
  exact Page.shows_ofMatches (q.window p start) found

theorem limit_window :
    ((q.window p 0).limit : Int) = max 1 (min (q.limit.getD p.limitDefault) p.limitMax) := by
  show ((max 1 (min (q.limit.getD p.limitDefault) p.limitMax)).toNat : Int) = _
  omega

end ListQuery

/-! ## Going through all pages -/

/-- Going from page to page: the next one is asked for from where the last one ended, until there is
none. Each answer may change the state of the store. -/
inductive PageWalk {σ : Type} (ask : Int → StateM σ (Except Fault Value)) :
    σ → Int → List Page → σ → Prop
  | last {s s' : σ} {start : Int} {page : Page} :
      (ask start).run s = (.ok page.toValue, s') → page.hasNext = false →
      PageWalk ask s start [page] s'
  | next {s s' s'' : σ} {start : Int} {page : Page} {pages : List Page} :
      (ask start).run s = (.ok page.toValue, s') → page.hasNext = true →
      PageWalk ask s' (start + page.items.length) pages s'' →
      PageWalk ask s start (page :: pages) s''

namespace PageWalk

variable {σ : Type} {ask : Int → StateM σ (Except Fault Value)} {s : σ} {found : List Value}
  {size : Nat} {pageAt : Int → Page}

theorem eq_of_answered {start : Int} {page other : Page} {s' : σ}
    (answers : (ask start).run s = (.ok page.toValue, s))
    (answered : (ask start).run s = (.ok other.toValue, s')) : other = page ∧ s' = s := by
  obtain ⟨same, rfl⟩ := Prod.mk.inj (answered.symm.trans answers)
  exact ⟨Page.toValue_injective (Except.ok.inj same), rfl⟩

theorem iff_of_last {start : Int} {others : List Page} {s' : σ}
    (answers : (ask start).run s = (.ok (pageAt start).toValue, s))
    (last : (pageAt start).hasNext = false) :
    PageWalk ask s start others s' ↔ others = [pageAt start] ∧ s' = s := by
  constructor
  · intro walk
    cases walk with
    | last answered _ =>
        obtain ⟨rfl, rfl⟩ := eq_of_answered answers answered
        exact ⟨rfl, rfl⟩
    | next answered more _ =>
        obtain ⟨rfl, rfl⟩ := eq_of_answered answers answered
        exact absurd (last.symm.trans more) Bool.false_ne_true
  · rintro ⟨rfl, rfl⟩
    exact .last answers last

theorem iff_of_next {start : Int} {others : List Page} {s' : σ}
    (answers : (ask start).run s = (.ok (pageAt start).toValue, s))
    (more : (pageAt start).hasNext = true) :
    PageWalk ask s start others s' ↔ ∃ rest, others = pageAt start :: rest ∧
      PageWalk ask s (start + (pageAt start).items.length) rest s' := by
  constructor
  · intro walk
    cases walk with
    | last answered last =>
        obtain ⟨rfl, rfl⟩ := eq_of_answered answers answered
        exact absurd (last.symm.trans more) Bool.false_ne_true
    | next answered _ walk =>
        obtain ⟨rfl, rfl⟩ := eq_of_answered answers answered
        exact ⟨_, rfl, walk⟩
  · rintro ⟨rest, rfl, walk⟩
    exact .next answers more walk

/-- If every answer is a page of the same list, then there is one walk from a place, and it shows
the rest of the list. -/
theorem exists_unique (positive : 1 ≤ size)
    (answers : ∀ start, (ask start).run s = (.ok (pageAt start).toValue, s))
    (shows : ∀ start, (pageAt start).Shows found size start.toNat) (start : Nat) :
    ∃ pages, (∀ others s', PageWalk ask s start others s' ↔ others = pages ∧ s' = s) ∧
      pages.flatMap Page.items = found.drop start ∧ ∀ page ∈ pages, ∃ k : Nat, page = pageAt k := by
  -- the induction is on what is left of the list, which gets shorter with each page but the last
  induction left : found.length - start using Nat.strongRecOn generalizing start with
  | ind n ih =>
  have shown := shows start
  rw [Int.toNat_natCast] at shown
  have split := shown.items_append
  cases more : (pageAt start).hasNext with
  | false =>
      have ended : found.length ≤ start + (pageAt start).items.length := by
        rw [← Nat.not_lt, ← shown.hasNext_iff positive, more]
        exact Bool.false_ne_true
      have rest := List.drop_eq_nil_iff.mpr ended
      refine ⟨[pageAt start], fun others s' => iff_of_last (answers start) more, ?_, ?_⟩
      · rw [rest, List.append_nil] at split
        simpa using split
      · rintro page hp
        exact ⟨start, List.mem_singleton.mp hp⟩
  | true =>
      have shorter : found.length - (start + (pageAt start).items.length) < n := by
        have before := (shown.hasNext_iff positive).mp more
        have length := shown.length_items
        omega
      obtain ⟨pages, unique, items, places⟩ := ih _ shorter _ rfl
      rw [Int.natCast_add] at unique
      refine ⟨pageAt start :: pages, fun others s' => ?_, ?_, ?_⟩
      · rw [iff_of_next (answers start) more]
        constructor
        · rintro ⟨rest, rfl, walk⟩
          obtain ⟨rfl, rfl⟩ := (unique rest s').mp walk
          exact ⟨rfl, rfl⟩
        · rintro ⟨rfl, rfl⟩
          exact ⟨pages, rfl, (unique pages s').mpr ⟨rfl, rfl⟩⟩
      · rw [List.flatMap_cons, items, split]
      · rintro page hp
        rcases List.mem_cons.mp hp with rfl | hp
        · exact ⟨start, rfl⟩
        · exact places page hp

end PageWalk

/-- However a store was filled, and whatever a list of a resource is asked for, the answer from any
offset on is a page of the records that match, in the order in which they were added, with as many
as the limits allow. There is one walk through the pages from the first on; it ends, leaves the
store as it is, and shows each of these records once for each time it was added. -/
theorem list_pages (idField : String) (additions : List (String × Value)) (a : Resource)
    (q : ListQuery) (p : Pagination) (source : Value) :
    let s := MemoryStore.addEach { idField := idField } additions
    let found := q.found a (MemoryStore.added a.name additions)
    ∃ (size : Nat) (pageAt : Int → Page),
      (size : Int) = max 1 (min (q.limit.getD p.limitDefault) p.limitMax) ∧
      (∀ start, (q.ask a p source start).run s = (.ok (pageAt start).toValue, s) ∧
        (pageAt start).Shows found size start.toNat ∧
        ((pageAt start).hasNext = true ↔
          (pageAt ((pageAt start).offset + (pageAt start).items.length)).items ≠ [])) ∧
      ∃ pages, (∀ others s', PageWalk (q.ask a p source) s 0 others s' ↔ others = pages ∧ s' = s) ∧
        pages.flatMap Page.items = found ∧
        ∀ page ∈ pages, (∃ k : Nat, page = pageAt k) ∧ page.total = found.length ∧
          1 ≤ page.limit ∧ page.limit ≤ p.limitMax ∧ page.items.length ≤ page.limit := by
  intro s found
  have database : s.database a.name = MemoryStore.added a.name additions := by
    rw [MemoryStore.database_addEach]
    rfl
  let pageAt (start : Int) : Page := .ofMatches (q.window p start) found
  have answers (start : Int) :
      (q.ask a p source start).run s = (.ok (pageAt start).toValue, s) := by
    rw [q.run_ask p, database]
  have shows (start : Int) : (pageAt start).Shows found (q.window p 0).limit start.toNat :=
    q.shows_window p found start
  have size := q.limit_window p
  have positive := (q.window p 0).limit_pos
  have bounded := p.one_le_limitMax
  obtain ⟨pages, unique, items, places⟩ := PageWalk.exists_unique positive answers shows 0
  refine ⟨_, pageAt, size, fun start => ⟨answers start, shows start, ?_⟩, pages, unique, items,
    fun page hp => ?_⟩
  · have next := (shows ((pageAt start).offset + (pageAt start).items.length)).items
    rw [(shows start).hasNext, next, (shows start).offset, ← Int.natCast_add, Int.toNat_natCast]
  · obtain ⟨k, rfl⟩ := places page hp
    have shown := shows k
    have length := shown.length_items
    rw [shown.limit]
    exact ⟨⟨k, rfl⟩, shown.total, positive, by omega, by omega⟩

end ResourceGraph
