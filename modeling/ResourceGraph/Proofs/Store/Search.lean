import ResourceGraph.Proofs.Api.Resources
import ResourceGraph.Proofs.Api.WellFormed
import ResourceGraph.Store.Memory

/-!
# What a search finds

A search reads the searchable paths of a resource in every record. It is meant to find the records
that hold the term at the end of a chain of names which the schema leads to a string, and it does so
exactly when every such chain can be read back from its path.
-/

namespace ResourceGraph

variable {n : Nat}

/-! ## Records with a text inside -/

namespace Record

/-- A text inside objects, one for each name. -/
def nest (text : String) : List String → Value
  | [] => .str text
  | name :: rest => .obj [(name, nest text rest)]

@[simp] theorem readKeys_null (names : List String) : readKeys names .null = .null := by
  induction names with
  | nil => rfl
  | cons name rest ih => exact ih

theorem readKeys_nest (text : String) (chain : List String) :
    readKeys chain (nest text chain) = .str text := by
  induction chain with
  | nil => rfl
  | cons name rest ih => simpa [readKeys, nest, Value.get] using ih

/-- Only the names of the objects lead to the text. -/
theorem eq_of_readKeys_nest {text found : String} {names chain : List String}
    (h : readKeys names (nest text chain) = .str found) : names = chain := by
  induction chain generalizing names with
  | nil =>
      cases names with
      | nil => rfl
      | cons name rest => simp [nest, readKeys, Value.get] at h
  | cons outer chain ih =>
      cases names with
      | nil => simp [nest, readKeys] at h
      | cons name rest =>
          by_cases same : name = outer
          · subst same
            simp only [nest, readKeys, Value.get, Keyed.find?_cons, if_true, Option.getD_some] at h
            rw [ih h]
          · simp [nest, readKeys, Value.get, same] at h

end Record

/-! ## Matching -/

namespace MemoryStore

theorem occursIn_iff {needle text : List Char} : occursIn needle text = true ↔ needle <:+: text := by
  induction text with
  | nil =>
      rw [occursIn, Bool.or_false, List.isPrefixOf_iff_prefix, List.prefix_nil, List.infix_nil]
  | cons c rest ih =>
      rw [occursIn, Bool.or_eq_true, ih, List.isPrefixOf_iff_prefix, List.infix_cons_iff]

/-- A text that has the term in it, whatever its case. -/
def Contains (term : String) : Value → Prop
  | .str text => (Text.lower term).toList <:+: (Text.lower text).toList
  | _ => False

theorem matchesTerm_iff {term : String} {paths : List String} {r : Record} :
    matchesTerm (Text.lower term) paths r = true ↔
      ∃ path ∈ paths, Contains term (Record.readPath (.obj r) path) := by
  rw [matchesTerm, List.any_eq_true]
  refine exists_congr fun path => and_congr_right fun _ => ?_
  cases Record.readPath (.obj r) path with
  | str text => exact occursIn_iff
  | _ => simp [Contains]

/-- Without filters a search selects the records that match its term. -/
theorem select_eq_filter {term : String} (h : term ≠ "") (paths : List String)
    (records : List Record) :
    select [] (.str term) paths records
      = .ok (records.filter (matchesTerm (Text.lower term) paths)) := by
  induction records with
  | nil => rfl
  | cons r rest ih =>
      have given : matchesSearch (.str term) paths r
          = .ok (matchesTerm (Text.lower term) paths r) := by simp [matchesSearch, Value.truthy, h]
      rw [select, matchesFilters, List.all_nil, if_pos rfl, given, ih, List.filter_cons]
      rfl

/-- Parameters that ask for a term and for a window and filter by nothing else. -/
structure Asks (params : Keyed.Entries Value) (p : Pagination) (term : String) (w : Window) :
    Prop where
  asked : (Value.obj params).get "search" = .str term
  nonempty : term ≠ ""
  unfiltered : filtersOf params = []
  window : Window.ofParams params p = .ok w

/-- A search by the paths is answered, whatever the records, with the page of those that have the
property for its term. -/
def Finds (paths : List String) (holds : String → Record → Prop) : Prop :=
  ∀ (records : List Record) (params : Keyed.Entries Value) (p : Pagination) (term : String)
    (w : Window) [DecidablePred (holds term)], Asks params p term w →
    search records params paths p
      = .ok (Page.ofMatches w ((records.filter fun r => holds term r).map .obj))

theorem Asks.search_eq {params : Keyed.Entries Value} {p : Pagination} {term : String} {w : Window}
    (h : Asks params p term w) (records : List Record) (paths : List String) :
    search records params paths p
      = .ok (Page.ofMatches w
          ((records.filter (matchesTerm (Text.lower term) paths)).map .obj)) := by
  rw [search, h.window, h.unfiltered, h.asked]
  show (select [] (.str term) paths records >>= _) = _
  rw [select_eq_filter h.nonempty]
  rfl

/-- The parameters that ask for a term and leave the rest open. -/
theorem asks_term {term : String} (h : term ≠ "") :
    Asks [("search", .str term)] .default term (.clamp .default 25 0) where
  asked := rfl
  nonempty := h
  unfiltered := rfl
  window := rfl

/-- A search finds what matches, record by record. -/
theorem finds_iff {paths : List String} {holds : String → Record → Prop} :
    Finds paths holds ↔ ∀ term r, term ≠ "" →
      (matchesTerm (Text.lower term) paths r = true ↔ holds term r) := by
  classical
  constructor
  · intro finds term r nonempty
    have asks := asks_term nonempty
    have same := (asks.search_eq [r] paths).symm.trans (finds [r] _ _ term _ asks)
    have total := congrArg Page.total (Except.ok.inj same)
    by_cases hm : matchesTerm (Text.lower term) paths r = true <;>
      by_cases hh : holds term r <;> simp [Page.ofMatches, hm, hh] at total ⊢
  · intro iff records params p term w _ asks
    rw [asks.search_eq]
    refine congrArg (fun l : List Record => Except.ok (Page.ofMatches w (l.map .obj))) ?_
    refine List.filter_congr fun r _ => ?_
    rw [Bool.eq_iff_iff, iff term r asks.nonempty, decide_eq_true_iff]

end MemoryStore

/-! ## Searching by the paths of a schema -/

namespace NodeTable

open MemoryStore

/-- Some chain of names that leads to a string leads in the record to a text with the term in it. -/
def Holds (t : NodeTable n) (depth : Nat) (root : Node n) (term : String) (r : Record) : Prop :=
  ∃ chain, t.LeadsWithin depth chain root ∧ Contains term (Record.readKeys chain (.obj r))

variable {t : NodeTable n} {depth : Nat} {root : Node n}

/-- What matches: the chain is read as its path is taken apart. -/
theorem matches_stringPaths (concrete : root.IsConcrete) {term : String} {r : Record} :
    matchesTerm (Text.lower term) (t.stringPaths depth "" (some root)) r = true ↔
      ∃ chain, t.LeadsWithin depth chain root ∧
        Contains term (Record.readKeys (Record.segments (pathFrom "" chain)) (.obj r)) := by
  rw [matchesTerm_iff]
  constructor
  · rintro ⟨path, hpath, found⟩
    obtain ⟨chain, x, hx, leads, rfl⟩ := mem_stringPaths.mp hpath
    cases (resolve_of_concrete concrete).symm.trans hx
    exact ⟨chain, leads, found⟩
  · rintro ⟨chain, leads, found⟩
    exact ⟨_, mem_stringPaths.mpr ⟨chain, root, resolve_of_concrete concrete, leads, rfl⟩, found⟩

/-- If a record that holds a text at the end of a chain is found by its path, then some chain has a
path with these segments. -/
theorem exists_segments_eq (concrete : root.IsConcrete)
    (finds : Finds (t.stringPaths depth "" (some root)) (t.Holds depth root)) {chain : List String}
    (leads : t.LeadsWithin depth chain root) :
    ∃ other, t.LeadsWithin depth other root ∧ Record.segments (pathFrom "" other) = chain := by
  obtain ⟨name, rest, rfl⟩ := List.exists_cons_of_ne_nil leads.2.ne_nil
  have holds : t.Holds depth root "a" [(name, Record.nest "a" rest)] := by
    refine ⟨name :: rest, leads, ?_⟩
    show Contains "a" (Record.readKeys (name :: rest) (Record.nest "a" (name :: rest)))
    rw [Record.readKeys_nest]
    exact List.infix_refl _
  have found := (finds_iff.mp finds "a" _ (by decide)).mpr holds
  obtain ⟨other, leads', contains⟩ := (matches_stringPaths concrete).mp found
  refine ⟨other, leads', ?_⟩
  change Contains "a" (Record.readKeys (Record.segments (pathFrom "" other))
    (Record.nest "a" (name :: rest))) at contains
  cases hr : Record.readKeys (Record.segments (pathFrom "" other))
      (Record.nest "a" (name :: rest)) with
  | str text => exact Record.eq_of_readKeys_nest hr
  | _ =>
      rw [hr] at contains
      exact contains.elim

/-- Searching is exact if and only if every chain is read back from its path. -/
theorem finds_stringPaths_iff (concrete : root.IsConcrete) :
    Finds (t.stringPaths depth "" (some root)) (t.Holds depth root) ↔
      ∀ chain, t.LeadsWithin depth chain root → Addressable chain := by
  constructor
  · intro finds
    have dotless : ∀ chain, t.LeadsWithin depth chain root → ∀ name ∈ chain, '.' ∉ name.toList := by
      intro chain leads name hn
      obtain ⟨other, -, rfl⟩ := exists_segments_eq concrete finds leads
      exact Record.notMem_of_mem_segments hn
    intro chain leads
    refine ⟨dotless chain leads, fun head => ?_⟩
    obtain ⟨other, leads', rfl⟩ := exists_segments_eq concrete finds leads
    exact head_segments_pathFrom (dotless other leads') head
  · intro addressable
    refine finds_iff.mpr fun term r _ => (matches_stringPaths concrete).trans ?_
    refine exists_congr fun chain => and_congr_right fun leads => ?_
    rw [(segments_pathFrom_eq_iff leads.2.ne_nil).mpr (addressable chain leads)]

end NodeTable

open NodeTable in
/-- Whatever the resources are, the searchable paths of a compiled one are those of the chains that
lead its main schema to a string. Searching by them is exact if and only if each of these chains is
addressable, that is, if and only if each is what its path is taken apart into. -/
theorem compile_finds_iff {o : CompileOptions} {s : Specs} {api : Api} {log : List LogLine}
    (h : compile o s = .ok (api, log)) :
    ∃ c, Compilation.addResources o s.specs {} = .ok c ∧ c.registry.api = api ∧
      ∀ a ∈ api.resources, ∃ root, Compilation.Makes o s.specs c.table root a ∧
        (∀ path, path ∈ a.searchable ↔
          ∃ chain, c.table.LeadsWithin o.searchDepth chain root ∧ path = pathFrom "" chain) ∧
        (∀ chain, c.table.LeadsWithin o.searchDepth chain root →
          (Record.segments (pathFrom "" chain) = chain ↔ Addressable chain)) ∧
        (MemoryStore.Finds a.searchable (c.table.Holds o.searchDepth root) ↔
          ∀ chain, c.table.LeadsWithin o.searchDepth chain root → Addressable chain) := by
  obtain ⟨c, hc, rfl, -⟩ := Assembly.compile_run h
  refine ⟨c, hc, rfl, fun a ha => ?_⟩
  obtain ⟨root, makes⟩ := Compilation.resources_sourced hc a ha
  have concrete : root.IsConcrete := by
    obtain ⟨_, _, _, _, _, rfl⟩ := makes.object
    trivial
  have paths : a.searchable = c.table.stringPaths o.searchDepth "" (some root) :=
    congrArg Resource.searchable makes.made
  rw [paths]
  refine ⟨root, makes, fun path => ?_, fun chain leads => segments_pathFrom_eq_iff leads.2.ne_nil,
    finds_stringPaths_iff concrete⟩
  rw [mem_stringPaths, resolve?, Option.bind_some, resolve_of_concrete concrete]
  constructor
  · rintro ⟨chain, x, hx, leads⟩
    cases hx
    exact ⟨chain, leads⟩
  · rintro ⟨chain, leads⟩
    exact ⟨chain, root, rfl, leads⟩

theorem family_finds : ∃ api log, compile {} Specs.family = .ok (api, log) ∧
    api.resources.map (fun a => (a.name, a.connectionType)) = [("persons", "PersonConnection")] ∧
    ∃ c, Compilation.addResources {} Specs.family.specs {} = .ok c ∧ c.registry.api = api ∧
      ∀ a ∈ api.resources, ∃ root, Compilation.Makes {} Specs.family.specs c.table root a ∧
        (∀ path, path ∈ a.searchable ↔ ∃ chain, c.table.LeadsWithin 4 chain root ∧
          path = NodeTable.pathFrom "" chain) ∧
        (∀ chain, c.table.LeadsWithin 4 chain root →
          (Record.segments (NodeTable.pathFrom "" chain) = chain ↔ Addressable chain)) ∧
        (MemoryStore.Finds a.searchable (c.table.Holds 4 root) ↔
          ∀ chain, c.table.LeadsWithin 4 chain root → Addressable chain) := by
  obtain ⟨api, log, hc, -, resources⟩ := family_compiles
  exact ⟨api, log, hc, resources, compile_finds_iff hc⟩

/-- Persons with a name that has a dot. -/
def Specs.dotted : Specs where
  graph :=
    { size := 3
      objects := #v[
        [("type", .str "object"), ("properties", .obj 1)],
        [("a.b", .obj 2)],
        [("type", .str "string")]]
      nodup := by decide }
  specs := [{ name := "persons", schemas := [("Person", .obj 0)] }]

/-- The node of a person. -/
def Specs.dottedRoot : Node 3 :=
  .object (.parsed 0) [("a.b", .scalar (.parsed 2) (.str "string") .null)] [] none .null

theorem addResources_dotted :
    (Compilation.addResources {} Specs.dotted.specs {}).toOption.map
        (fun c => (c.table.find? (0 : Fin 3), c.registry.api.resources.map Resource.searchable))
      = (some (some Specs.dottedRoot, [["a.b"]]) :
          Option (Option (Node Specs.dotted.graph.size) × List (List String))) := by
  rw [Compilation.addResources_eq_upTo]
  decide +kernel

theorem dotted_main (spec) (h : spec ∈ Specs.dotted.specs) :
    mainSchema? spec.schemas (Naming.english.singular spec.name) = some (.obj (0 : Fin 3)) := by
  obtain rfl := List.mem_singleton.mp h
  cbv

open NodeTable in
/-- A name with a dot is searched for as if it were two. -/
theorem dotted_not_finds :
    ¬ ∀ (o : CompileOptions) (s : Specs) (api : Api) (log : List LogLine)
        (c : Compilation s.graph.size) (a : Resource) (root : Node s.graph.size),
      compile o s = .ok (api, log) → Compilation.addResources o s.specs {} = .ok c →
      a ∈ api.resources → Compilation.Makes o s.specs c.table root a →
      MemoryStore.Finds a.searchable (c.table.Holds o.searchDepth root) := by
  intro all
  have outcome := addResources_dotted
  rcases hc : Compilation.addResources {} Specs.dotted.specs {} with e | c
  · rw [hc] at outcome
    cases outcome
  · rw [hc] at outcome
    obtain ⟨found, paths⟩ := Prod.mk.inj (Option.some.inj outcome)
    have compiled : compile {} Specs.dotted
        = .ok (c.registry.api, c.log ++ c.registry.api.summary 1) := by
      rw [compile, hc]
      rfl
    obtain ⟨a, ha, -⟩ : ∃ a ∈ c.registry.api.resources, a.searchable = ["a.b"] :=
      List.mem_map.mp (paths ▸ List.mem_singleton_self _)
    obtain ⟨root, makes⟩ := Compilation.resources_sourced hc a ha
    obtain ⟨spec, hspec, -, i, node, main, hnode, resolved⟩ := makes.main
    cases (dotted_main spec hspec).symm.trans main
    cases found.symm.trans hnode
    cases resolved
    have leads : c.table.LeadsWithin 4 ["a.b"] Specs.dottedRoot :=
      ⟨by decide, .leaf (List.mem_singleton_self _) rfl⟩
    have finds := all _ _ _ _ c a _ compiled hc ha makes
    rw [congrArg Resource.searchable makes.made] at finds
    have concrete : Specs.dottedRoot.IsConcrete := trivial
    have addressable := (finds_stringPaths_iff concrete).mp finds ["a.b"] leads
    exact absurd (addressable.1 "a.b" (List.mem_singleton_self _)) (by decide)

end ResourceGraph
