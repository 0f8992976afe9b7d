import ResourceGraph.Proofs.Api.Resources
import ResourceGraph.Proofs.Api.Sharing
import ResourceGraph.Proofs.Api.WellFormed

/-!
# A resource is compiled as a whole or not at all

A resource that is compiled brings its object type, its page type, its filter, two query fields and
one list of search results. One that is skipped leaves a warning and nothing else: what has been
read for it stays in the table, but a table that knows more gives no other answers. So without the
skipped resources the same API comes out, and no warning.
-/

namespace ResourceGraph

variable {n : Nat}

/-- The field of a resource among the search results. -/
def Resource.resultsField (a : Resource) : Field :=
  { name := a.listField, typeName := a.typeName, isList := true, isOptional := false,
    isItemOptional := false }

/-! ## Page types and filters -/

namespace Source

def page (typeName : String) : Source n := .literal [.str "connection", .str typeName]

def filter (typeName : String) : Source n := .literal [.str "filter", .str typeName]

theorem same_text {kind kind' typeName typeName' : String} :
    (literal [.str kind, .str typeName] : Source n).same (.literal [.str kind', .str typeName']) = true
      ↔ kind = kind' ∧ typeName = typeName' := by
  simp [same, Value.looseEq, Value.looseEqItems, Value.isNaN]

end Source

namespace Registry

variable {r r' : Registry n} {name kind : String} {source : Source n}

theorem isClaimed_of_find? {existing : Source n}
    (found : Keyed.find? name r.sources = some (kind, existing))
    (same : existing.same source = true) : r.isClaimed name kind source = .ok true := by
  simp [isClaimed, found, same]

theorem isClaimed_keeps (keeps : r.Keeps r') (h : r.isClaimed name kind source = .ok true) :
    r'.isClaimed name kind source = .ok true := by
  obtain ⟨existing, found, same⟩ := isClaimed_eq_true h
  exact isClaimed_of_find? (keeps _ _ found) same

/-- The names of the types of a resource are claimed for it. -/
structure Serves (r : Registry n) (a : Resource) : Prop where
  object : r.Has "type" a.typeName
  page : r.isClaimed a.connectionType "type" (.page a.typeName) = .ok true
  filter : r.isClaimed a.filterType "input" (.filter a.typeName) = .ok true

theorem Serves.keeps {a : Resource} (h : r.Serves a) (keeps : r.Keeps r') : r'.Serves a :=
  ⟨h.object.keeps keeps, isClaimed_keeps keeps h.page, isClaimed_keeps keeps h.filter⟩

end Registry

namespace Compiling

variable {typeName : String} {u : Unit} {r r' : Registry n}

theorem compileConnection_claims (h : (compileConnection typeName).run r = .ok (u, r')) :
    r'.isClaimed (typeName ++ "Connection") "type" (.page typeName) = .ok true := by
  simp only [compileConnection, bind_eq_ok, isClaimed_eq_ok] at h
  obtain ⟨seen, _, ⟨claimed, rfl⟩, h⟩ := h
  cases seen with
  | true =>
      obtain ⟨-, rfl⟩ := pure_eq_ok.mp h
      exact claimed
  | false =>
      simp only [Bool.false_eq_true, if_false, modify_eq_ok] at h
      subst h
      apply Registry.isClaimed_of_find? (Registry.find?_claim ..)
      exact Source.same_text.mpr ⟨rfl, rfl⟩

theorem compileFilter_claims {t : NodeTable n} {properties : List (String × Node n)}
    (h : (compileFilter t properties typeName).run r = .ok (u, r')) :
    r'.isClaimed (typeName ++ "Filter") "input" (.filter typeName) = .ok true := by
  simp only [compileFilter, bind_eq_ok, isClaimed_eq_ok] at h
  obtain ⟨seen, _, ⟨claimed, rfl⟩, h⟩ := h
  cases seen with
  | true =>
      obtain ⟨-, rfl⟩ := pure_eq_ok.mp h
      exact claimed
  | false =>
      simp only [Bool.false_eq_true, if_false, bind_eq_ok, modify_eq_ok] at h
      obtain ⟨_, r₁, hr, fields, r₂, hf, rfl⟩ := h
      obtain rfl : r₂ = r₁ := preserves_filterFields (I := (· = r₁)) t _ _ _ r₁ fields r₂ rfl hf
      subst hr
      apply Registry.isClaimed_of_find? (Registry.find?_claim ..)
      exact Source.same_text.mpr ⟨rfl, rfl⟩

end Compiling

/-! ## What is written out -/

/-- The page type or the filter that a literal stands for is defined under the name. -/
inductive Api.Spells (a : Api) (name : String) : String → List Value → Prop
  | page {typeName} (found : Keyed.find? name a.types
      = some { name := name, fields := Compiling.connectionFields typeName }) :
      Spells a name "type" [.str "connection", .str typeName]
  | filter {typeName d} (found : Keyed.find? name a.inputs = some d)
      (common : Compiling.commonFilterFields <+: d.fields) :
      Spells a name "input" [.str "filter", .str typeName]

theorem Api.Spells.of_type {a : Api} {name : String} {items : List Value}
    (h : a.Spells name "type" items) : ∃ typeName, items = [.str "connection", .str typeName] ∧
      Keyed.find? name a.types
        = some { name := name, fields := Compiling.connectionFields typeName } := by
  generalize hk : "type" = kind at h
  cases h with
  | page found => exact ⟨_, rfl, found⟩
  | filter => exact absurd hk (by decide)

theorem Api.Spells.of_input {a : Api} {name : String} {items : List Value}
    (h : a.Spells name "input" items) : ∃ d, Keyed.find? name a.inputs = some d ∧
      Compiling.commonFilterFields <+: d.fields := by
  generalize hk : "input" = kind at h
  cases h with
  | page => exact absurd hk (by decide)
  | filter found common => exact ⟨_, found, common⟩

namespace Registry

/-- What is claimed for a literal is what the literal stands for. -/
def Written (r : Registry n) : Prop := ∀ name kind items,
  Keyed.find? name r.sources = some (kind, .literal items) → r.api.Spells name kind items

variable {r : Registry n} {name kind : String} {source : Source n}

theorem find?_sources_claim (name' : String) :
    Keyed.find? name' (r.claim name kind source).sources
      = if name' = name then some (kind, source) else Keyed.find? name' r.sources :=
  Keyed.find?_insert ..

theorem Written.congr {r' : Registry n} (h : r.Written) (sources : r'.sources = r.sources)
    (types : r'.api.types = r.api.types) (inputs : r'.api.inputs = r.api.inputs) : r'.Written := by
  intro name kind items claimed
  cases h name kind items (sources ▸ claimed) with
  | page found => exact .page (types ▸ found)
  | filter found common => exact .filter (inputs ▸ found) common

theorem Written.claim_node (h : r.Written) {x : Node n} : (r.claim name kind (.node x)).Written := by
  intro name' kind' items found
  rw [find?_sources_claim] at found
  split at found
  · cases found
  · exact h name' kind' items found

/-- A definition under a name that no literal was claimed for. -/
theorem Written.addType (h : r.Written) {d : TypeDef}
    (free : ∀ kind items, Keyed.find? d.name r.sources ≠ some (kind, .literal items)) :
    (r.addType d).Written := by
  intro name kind items claimed
  have other : name ≠ d.name := fun he => free kind items (he ▸ claimed)
  cases hd : d.isInput with
  | true =>
      rw [addType_input hd]
      cases h name kind items claimed with
      | page found => exact .page found
      | filter found common =>
          exact .filter (by rw [Keyed.find?_insert, if_neg other, found]) common
  | false =>
      rw [addType_output hd]
      cases h name kind items claimed with
      | page found => exact .page (by rw [Keyed.find?_insert, if_neg other, found])
      | filter found common => exact .filter found common

/-- A fresh name is claimed for a literal and defined as what the literal stands for. -/
theorem Written.write (h : r.Written) (fresh : Keyed.find? name r.sources = none) {d : TypeDef}
    (named : d.name = name) {items : List Value}
    (spells : ((r.claim name kind (.literal items)).addType d).api.Spells name kind items) :
    ((r.claim name kind (.literal items)).addType d).Written := by
  intro name' kind' items' found
  change Keyed.find? name' (r.claim name kind (.literal items)).sources = _ at found
  rw [find?_sources_claim] at found
  split at found
  · rename_i same
    cases found
    exact same ▸ spells
  · rename_i other
    have before : (r.addType d).Written :=
      h.addType fun kind items taken => nomatch (named ▸ taken).symm.trans fresh
    exact before name' kind' items' found

end Registry

theorem prefix_foldl_appendField (fs fields : List Field) : fields <+: fs.foldl appendField fields := by
  rw [appendField_eq, foldl_appendNew]
  exact List.prefix_append ..

theorem Assembly.Step.written {g : RawGraph} {o : CompileOptions} {s s' : Assembly g.size}
    (h : Step g o s s') (hs : s.registry.Written) : s'.registry.Written := by
  cases h with
  | reading | beginning => exact hs
  | finishing => exact hs.congr rfl rfl rfl
  | enumeration => exact (Registry.Written.claim_node hs).congr rfl rfl rfl
  | opening => exact hs.claim_node
  | closing claimed =>
      apply hs.addType
      intro kind items found
      cases claimed.symm.trans found
  | connection claimed fresh =>
      apply hs.write fresh rfl
      apply Api.Spells.page
      exact (Keyed.find?_insert ..).trans (if_pos rfl)
  | filter fresh image =>
      apply hs.write fresh rfl
      apply Api.Spells.filter
      · exact (Keyed.find?_insert ..).trans (if_pos rfl)
      · exact prefix_foldl_appendField ..

/-! ## Resources in an API -/

/-- The API has the types of the resource, exactly its two query fields under their names, and one
field for it among the search results. -/
structure Api.Presents (api : Api) (a : Resource) : Prop where
  object : a.typeName ∈ Keyed.keys api.types
  page : Keyed.find? a.connectionType api.types
    = some { name := a.connectionType, fields := Compiling.connectionFields a.typeName }
  filter : ∃ d, Keyed.find? a.filterType api.inputs = some d ∧
    Compiling.commonFilterFields <+: d.fields
  queries : api.queryType.fields.filter (·.name ∈ [a.listField, a.singleField]) = a.queryFields
  results : api.searchResultsType.fields.filter (·.name ∈ [a.listField]) = [a.resultsField]

theorem filter_mem_names {before fields after : List Field}
    (distinct : ((before ++ fields ++ after).map Field.name).Nodup) :
    (before ++ fields ++ after).filter (·.name ∈ fields.map Field.name) = fields := by
  simp only [List.map_append, List.nodup_append] at distinct
  obtain ⟨⟨-, -, apart⟩, -, apart'⟩ := distinct
  have none : before.filter (·.name ∈ fields.map Field.name) = [] := by
    apply List.filter_eq_nil_iff.mpr
    intro f hf hm
    exact apart f.name (List.mem_map_of_mem hf) f.name (of_decide_eq_true hm) rfl
  have none' : after.filter (·.name ∈ fields.map Field.name) = [] := by
    apply List.filter_eq_nil_iff.mpr
    intro f hf hm
    exact apart' f.name (List.mem_append_right _ (of_decide_eq_true hm)) f.name
      (List.mem_map_of_mem hf) rfl
  have all : fields.filter (·.name ∈ fields.map Field.name) = fields := by
    apply List.filter_eq_self.mpr
    intro f hf
    exact decide_eq_true (List.mem_map_of_mem hf)
  rw [List.filter_append, List.filter_append, none, none', all, List.nil_append, List.append_nil]

namespace Registry.Consistent

variable {r : Registry n}

theorem queries_of_mem (h : r.Consistent []) {a : Resource} (ha : a ∈ r.api.resources) :
    r.api.queryType.fields.filter (·.name ∈ [a.listField, a.singleField]) = a.queryFields := by
  obtain ⟨before, after, split⟩ := List.append_of_mem ha
  have fields : r.api.queryType.fields = before.flatMap Resource.queryFields ++ a.queryFields
      ++ (after.flatMap Resource.queryFields ++ [Api.searchField]) := by
    simp [Api.queryType, h.queries, split]
  have distinct := h.distinctQueries
  rw [fields] at distinct ⊢
  exact filter_mem_names distinct

theorem results_of_mem (h : r.Consistent []) {a : Resource} (ha : a ∈ r.api.resources) :
    r.api.searchResultsType.fields.filter (·.name ∈ [a.listField]) = [a.resultsField] := by
  obtain ⟨before, after, split⟩ := List.append_of_mem ha
  have fields : r.api.searchResultsType.fields
      = before.map Resource.resultsField ++ [a.resultsField] ++ (after.map Resource.resultsField
        ++ [{ name := "totalCount", typeName := "Int", isOptional := false }]) := by
    rw [show r.api.searchResultsType.fields = r.api.resources.map Resource.resultsField ++ _ from rfl,
      split]
    simp
  have distinct := h.distinctResults
  rw [fields] at distinct ⊢
  exact filter_mem_names distinct

theorem presents (h : r.Consistent []) (written : r.Written) {a : Resource}
    (ha : a ∈ r.api.resources) (serves : r.Serves a) : r.api.Presents a := by
  obtain ⟨page, hpage, same⟩ := Registry.isClaimed_eq_true serves.page
  obtain ⟨filter, hfilter, same'⟩ := Registry.isClaimed_eq_true serves.filter
  constructor
  · exact (h.types _).mpr ⟨serves.object, List.not_mem_nil⟩
  · cases page with
    | literal items =>
        obtain ⟨typeName, rfl, found⟩ := (written _ _ _ hpage).of_type
        obtain ⟨-, rfl⟩ := Source.same_text.mp same
        exact found
    | _ => cases same
  · cases filter with
    | literal items => exact (written _ _ _ hfilter).of_input
    | _ => cases same'
  · exact h.queries_of_mem ha
  · exact h.results_of_mem ha

end Registry.Consistent

/-! ## One resource after the other -/

namespace Compilation

open Compiling

variable {g : RawGraph} {o : CompileOptions}

/-- The resource of a specification is added, with its types and its query fields. -/
structure Completes (o : CompileOptions) (spec : ResourceSpec g.size) (c c' : Compilation g.size)
    (a : Resource) : Prop where
  source : ∃ root, Makes o [spec] c'.table root a ∧ c'.registry.Refers "type" root a.typeName
  serves : c'.registry.Serves a
  resources : c'.registry.api.resources = c.registry.api.resources ++ [a]
  queryFields : c'.registry.api.queryFields = c.registry.api.queryFields ++ a.queryFields
  log : c'.log = c.log

/-- The specification is left out with a warning. -/
structure Skips (spec : ResourceSpec g.size) (c c' : Compilation g.size) (s : Skip) : Prop where
  registry : c'.registry = c.registry
  log : c'.log = c.log ++ [⟨.warning, s.message spec.name⟩]

/-- What becomes of specifications in order: each gives a resource or a reason to skip it. -/
inductive Course (o : CompileOptions) : Compilation g.size →
    List (ResourceSpec g.size × Except Skip Resource) → Compilation g.size → Prop
  | done (c) : Course o c [] c
  | completed {c c' c'' spec a rest} (step : c.addResource o spec = .ok c')
      (completes : Completes o spec c c' a) (after : Course o c' rest c'') :
      Course o c ((spec, .ok a) :: rest) c''
  | skipped {c c' c'' spec s rest} (step : c.addResource o spec = .ok c')
      (skips : Skips spec c c' s) (after : Course o c' rest c'') :
      Course o c ((spec, .error s) :: rest) c''

theorem addObject_serves {t : NodeTable g.size} (ht : t.Sound []) {names : ResourceNames}
    {resource : String} {key : ObjectKey g.size} {properties : List (String × Node g.size)}
    {required : List String} {additional : Option (Node g.size)} {other : Value} {u : Unit}
    {r r' : Registry g.size} (yields : t.Yields (.object key properties required additional other))
    (h : (addObject o t names resource key properties required additional other).run r
      = .ok (u, r')) (searchable : List String) :
    r'.Refers "type" (.object key properties required additional other) names.typeName ∧
      r'.Serves (names.resource resource searchable) := by
  simp only [addObject, Compiling.bind_eq_ok, modify_eq_ok] at h
  obtain ⟨type, r₁, hobject, _, r₂, hconnection, _, r₃, hfilter, rfl⟩ := h
  obtain ⟨-, rfl, refers⟩ :=
    compileObject_run (o := o) ht yields (Assembly.names_root _) (by simp [Registry.Claimed]) hobject
  obtain ⟨source, hs, -⟩ := id refers
  have run := (compileConnection_run (o := o) (t := t) ⟨source, hs⟩ hconnection).1
  have run' := compileFilter_run (o := o) (t := t) hfilter
  have keeps := run.keeps.trans run'.keeps
  have serves : r₃.Serves (names.resource resource searchable) :=
    ⟨⟨source, keeps _ _ hs⟩,
      Registry.isClaimed_keeps run'.keeps (compileConnection_claims hconnection),
      compileFilter_claims hfilter⟩
  exact ⟨refers.keeps keeps, serves.object, serves.page, serves.filter⟩

/-- A resource is completed or skipped. -/
theorem addResource_course {c c' : Compilation g.size} {spec : ResourceSpec g.size}
    (hc : c.table.Sound []) (h : c.addResource o spec = .ok c') :
    (∃ a, Completes o spec c c' a) ∨ ∃ s, Skips spec c c' s := by
  cases addResource_outcome h with
  | unread s => exact Or.inr ⟨s, rfl, rfl⟩
  | unsuited s => exact Or.inr ⟨s, rfl, rfl⟩
  | compiled candidate read resolved added =>
      obtain ⟨grown, known⟩ := Parsing.run_grown hc read
      obtain ⟨refers, serves⟩ := addObject_serves grown.sound ⟨_, known, resolved⟩ added _
      obtain ⟨resources, queryFields⟩ := addObject_lists rfl added
      obtain ⟨i, rfl⟩ := read_object read resolved
      have makes := makes_of_read (List.mem_singleton_self spec) candidate.main read resolved
      exact Or.inl ⟨_, ⟨_, makes, refers⟩, serves, resources, queryFields, rfl⟩

theorem addResources_course {specs : List (ResourceSpec g.size)} {c c' : Compilation g.size}
    (hc : c.table.Sound []) (h : addResources o specs c = .ok c') :
    ∃ course, course.map (·.1) = specs ∧ Course o c course c' := by
  induction specs generalizing c with
  | nil =>
      cases h
      exact ⟨[], rfl, .done _⟩
  | cons spec rest ih =>
      rw [addResources] at h
      split at h
      · cases h
      · rename_i c₁ step
        obtain ⟨course, rfl, after⟩ := ih (addResource_run hc step).2 h
        rcases addResource_course hc step with ⟨a, completes⟩ | ⟨s, skips⟩
        · exact ⟨(spec, .ok a) :: course, rfl, .completed step completes after⟩
        · exact ⟨(spec, .error s) :: course, rfl, .skipped step skips after⟩

theorem addResources_cons {spec : ResourceSpec g.size} {rest : List (ResourceSpec g.size)}
    {c c' : Compilation g.size} (step : c.addResource o spec = .ok c') :
    addResources o (spec :: rest) c = addResources o rest c' := by
  rw [addResources, step]

/-- The resources that come of specifications. -/
def compiled (course : List (ResourceSpec g.size × Except Skip Resource)) : List Resource :=
  course.filterMap (·.2.toOption)

/-- The warnings about specifications that are left out. -/
def warnings (course : List (ResourceSpec g.size × Except Skip Resource)) : List LogLine :=
  course.filterMap fun
    | (_, .ok _) => none
    | (spec, .error s) => some ⟨.warning, s.message spec.name⟩

/-- The specifications that become resources. -/
def kept (course : List (ResourceSpec g.size × Except Skip Resource)) :
    List (ResourceSpec g.size) :=
  course.filterMap fun
    | (spec, .ok _) => some spec
    | (_, .error _) => none

namespace Course

variable {course : List (ResourceSpec g.size × Except Skip Resource)} {c c' : Compilation g.size}

theorem addResources (h : Course o c course c') :
    addResources o (course.map (·.1)) c = .ok c' := by
  induction h with
  | done c => rfl
  | completed step _ _ ih | skipped step _ _ ih => exact (addResources_cons step).trans ih

theorem resources (h : Course o c course c') :
    c'.registry.api.resources = c.registry.api.resources ++ compiled course := by
  induction h with
  | done c => simp [compiled]
  | completed step completes after ih =>
      rw [ih, completes.resources, List.append_assoc]
      rfl
  | skipped step skips after ih =>
      rw [ih, skips.registry]
      rfl

theorem log (h : Course o c course c') : c'.log = c.log ++ warnings course := by
  induction h with
  | done c => simp [warnings]
  | completed step completes after ih =>
      rw [ih, completes.log]
      rfl
  | skipped step skips after ih =>
      rw [ih, skips.log, List.append_assoc]
      rfl

/-- What is claimed for a resource stays claimed for it. -/
theorem serves (h : Course o c course c') (hc : c.table.Sound []) :
    ∀ a ∈ compiled course, c'.registry.Serves a := by
  induction h with
  | done c => simp [compiled]
  | @completed c c₁ c' spec a rest step completes after ih =>
      obtain ⟨-, sound⟩ := addResource_run hc step
      show ∀ b ∈ a :: compiled rest, c'.registry.Serves b
      exact List.forall_mem_cons.mpr
        ⟨completes.serves.keeps (addResources_run sound after.addResources).keeps, ih sound⟩
  | skipped step skips after ih => exact ih (addResource_run hc step).2

/-! ## Without the skipped resources -/

/-- A completed resource is compiled alike whatever has been logged. -/
theorem unlogged {spec : ResourceSpec g.size} {a : Resource} (h : c.addResource o spec = .ok c')
    (completes : Completes o spec c c' a) :
    Compilation.addResource o { c with log := [] } spec = .ok { c' with log := [] } := by
  have quiet (table : NodeTable g.size) (s : Skip) :
      ({ c with table := table }.skip spec.name s).log ≠ c.log := by
    simp [skip]
  cases addResource_outcome h with
  | unread s => exact absurd completes.log (quiet c.table s)
  | unsuited s => exact absurd completes.log (quiet _ s)
  | compiled candidate read resolved added =>
      rw [addResource_eq candidate.main candidate.given]
      dsimp only
      rw [candidate.free, read]
      dsimp only
      rw [resolved]
      dsimp only
      rw [added]

/-- A skipped resource leaves a compilation that goes on like the one before. -/
theorem skipped_mirrors {spec : ResourceSpec g.size} {s : Skip} (h : c.addResource o spec = .ok c')
    (skips : Skips spec c c' s) (acyclic : ∀ p ∈ spec.schemas, g.Acyclic p.2)
    {d : Compilation g.size} (mirrors : Mirrors { c with log := [] } d) :
    Mirrors { c' with log := [] } d := by
  cases addResource_outcome h with
  | unread s => exact mirrors
  | unsuited s candidate read =>
      obtain ⟨p, hp, rfl⟩ := exists_of_mainSchema? candidate.main
      have grown := (Parsing.run_grown mirrors.sound read).1
      exact { mirrors with
        sound := grown.sound
        reads := (Parsing.run_grounded mirrors.sound mirrors.reads (acyclic p hp) read).2.1
        registry := mirrors.registry.extends mirrors.sound grown.keeps mirrors.sound' (.refl _) }
  | compiled =>
      have same := skips.log
      simp at same

/-- The kept specifications compile like all of them. -/
theorem mirrors (h : Course o c course c')
    (acyclic : ∀ p ∈ course, ∀ q ∈ p.1.schemas, g.Acyclic q.2) {d : Compilation g.size}
    (hd : Mirrors { c with log := [] } d) :
    ∃ d', Compilation.addResources o (kept course) d = .ok d' ∧
      Mirrors { c' with log := [] } d' := by
  induction h generalizing d with
  | done c => exact ⟨d, rfl, hd⟩
  | @completed c c₁ c' spec a rest step completes after ih =>
      obtain ⟨acyclic, acyclicRest⟩ := List.forall_mem_cons.mp acyclic
      rcases alike_addResource (o := o) hd rfl acyclic acyclic rfl with
        ⟨e, d₁, he, hd₁, next⟩ | ⟨e, he, -⟩
      · cases (unlogged step completes).symm.trans he
        obtain ⟨d', run, last⟩ := ih acyclicRest next
        exact ⟨d', (addResources_cons hd₁).trans run, last⟩
      · cases (unlogged step completes).symm.trans he
  | skipped step skips after ih =>
      obtain ⟨acyclic, acyclicRest⟩ := List.forall_mem_cons.mp acyclic
      exact ih acyclicRest (skipped_mirrors step skips acyclic hd)

end Course

end Compilation

theorem Api.summary_info (a : Api) (specs : Nat) : ∀ l ∈ a.summary specs, l.level = .info := by
  intro l hl
  rcases List.mem_append.mp hl with hl | hl
  · obtain ⟨r, -, rfl⟩ := List.mem_map.mp hl
    rfl
  · rw [List.mem_singleton.mp hl]

open Compilation in
/-- Each specification gives one resource with all that belongs to it, or one warning and nothing
else. The specifications that became resources compile to the same API, and so to the same schema
text, with no warning. -/
theorem compile_completes_or_skips (o : CompileOptions) {s : Specs} (acyclic : s.Acyclic) {api : Api}
    {log : List LogLine} (h : compile o s = .ok (api, log)) :
    ∃ (course : List (ResourceSpec s.graph.size × Except Skip Resource))
        (c : Compilation s.graph.size),
      course.map (·.1) = s.specs ∧ Course o {} course c ∧ c.registry.api = api ∧
      api.resources = compiled course ∧ (∀ a ∈ api.resources, api.Presents a) ∧
      log = warnings course ++ api.summary s.specs.length ∧
      compile o ⟨s.graph, kept course⟩ = .ok (api, api.summary (kept course).length) ∧
      ∀ l ∈ api.summary (kept course).length, l.level = .info := by
  obtain ⟨c, hc, rfl, run⟩ := Assembly.compile_run h
  obtain ⟨course, specs, after⟩ := addResources_course (NodeTable.sound_empty []) hc
  have resources : c.registry.api.resources = compiled course := by
    rw [after.resources]
    rfl
  have logged : c.log = warnings course := by
    rw [after.log]
    rfl
  have written : c.registry.Written :=
    run.invariant (P := fun s => s.registry.Written) Assembly.Step.written nofun
  have consistent := (run.consistent Assembly.consistent_initial).registry
  refine ⟨course, c, specs, after, rfl, resources, ?_, ?_, ?_, Api.summary_info _ _⟩
  · intro a ha
    apply consistent.presents written ha
    exact after.serves (NodeTable.sound_empty []) a (resources ▸ ha)
  · rw [compile, hc] at h
    cases h
    rw [logged]
  · have trees : ∀ p ∈ course, ∀ q ∈ p.1.schemas, s.graph.Acyclic q.2 :=
      fun p hp => acyclic p.1 (specs ▸ List.mem_map_of_mem hp)
    obtain ⟨d, hd, mirrors⟩ := after.mirrors trees mirrors_initial
    have quiet : d.log = [] := mirrors.log.symm
    rw [compile, hd]
    dsimp only
    rw [quiet, ← mirrors.registry.api]
    rfl

/-- Colors, which are strings, and persons. -/
abbrev Specs.colored : Specs where
  graph :=
    { size := 3
      objects := #v[
        [("type", .str "object"), ("properties", .obj 1)],
        [("name", .obj 2)],
        [("type", .str "string")]]
      nodup := by decide }
  specs := [{ name := "colors", schemas := [("Color", .obj 2)] },
    { name := "persons", schemas := [("Person", .obj 0)] }]

theorem Specs.colored_acyclic : Specs.colored.Acyclic :=
  fun _ _ _ _ => RawGraph.acyclic_of_forward (by decide) _

theorem compile_colored :
    (compile {} Specs.colored).map (fun c => c.1.resources.map Resource.name)
      = .ok ["persons"] := by
  rw [compile_eq_upTo]
  decide +kernel

theorem colored_completes_or_skips : ∃ course c,
    Compilation.Course (g := Specs.colored.graph) {} {} course c ∧
      course.map (·.1) = Specs.colored.specs ∧
      c.registry.api.resources.map Resource.name = ["persons"] ∧
      c.registry.api.resources = Compilation.compiled course ∧
      (∀ a ∈ c.registry.api.resources, c.registry.api.Presents a) ∧
      compile {} ⟨Specs.colored.graph, Compilation.kept course⟩
        = .ok (c.registry.api, c.registry.api.summary (Compilation.kept course).length) := by
  obtain ⟨⟨api, log⟩, h, names⟩ := exists_of_map_eq_ok compile_colored
  obtain ⟨course, c, specs, after, rfl, resources, presents, -, kept, -⟩ :=
    compile_completes_or_skips {} Specs.colored_acyclic h
  exact ⟨course, c, after, specs, names, resources, presents, kept⟩

end ResourceGraph
