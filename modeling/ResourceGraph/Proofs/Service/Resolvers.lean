import ResourceGraph.Proofs.Api.Aliases
import ResourceGraph.Proofs.TypeSystem.Bound
import ResourceGraph.Service
import ResourceGraph.Store.Canned

/-!
# The resolvers of a compiled API

The resolvers of a compiled API are for fields that the API has, those of a resource ask for that
resource, and a field of an object type is read from the property that it stands for. Only where the
property has no name and the field has an enumeration with aliases is another key read.
-/

namespace ResourceGraph

variable {n : Nat}

/-! ## The map as it is built -/

namespace Api

variable (a : Api) (ps : Keyed.Entries Pagination)

/-- The resolver of a field, if there is one. -/
def resolver? (f : Field) : Option Resolver :=
  match Keyed.find? f.typeName a.enums with
  | some e =>
    if e.aliases.isEmpty then ResolverMap.fieldResolver?.renamed? f
    else some (.enumKey f.aliasedKey e.replacements)
  | none => ResolverMap.fieldResolver?.renamed? f

def fieldResolvers (t : TypeDef) : Keyed.Entries Resolver :=
  t.fields.filterMap fun f => (a.resolver? f).map fun r => (f.name, r)

def resourceResolvers (r : Resource) : Keyed.Entries Resolver :=
  [(r.listField, .list r (paginationFor ps r.name)), (r.singleField, .single r)]

def queryResolvers : Keyed.Entries Resolver :=
  a.resources.flatMap (resourceResolvers ps)
    ++ [("search", .crossSearch (a.resources.map fun r => (r, paginationFor ps r.name)))]

def resolvers : ResolverMap :=
  ("Query", a.queryResolvers ps)
    :: (a.types.map fun p => (p.1, a.fieldResolvers p.2)).filter fun p => !p.2.isEmpty

theorem keys_queryResolvers (h : a.queryFields = a.resources.flatMap Resource.queryFields) :
    Keyed.keys (a.queryResolvers ps) = a.queryType.fields.map Field.name := by
  have each (r : Resource) : (resourceResolvers ps r).map (·.1) = r.queryFields.map Field.name := rfl
  simp only [Keyed.keys, queryResolvers, queryType, h, List.map_append, List.map_flatMap, each]
  rfl

theorem keys_fieldResolvers (t : TypeDef) :
    (Keyed.keys (a.fieldResolvers t)).Sublist (t.fields.map Field.name) := by
  unfold fieldResolvers
  induction t.fields with
  | nil => exact List.Sublist.slnil
  | cons f fs ih =>
      rw [List.filterMap_cons]
      cases a.resolver? f with
      | none => exact ih.cons _
      | some r => exact ih.cons_cons _

theorem find?_fieldResolvers {t : TypeDef} (distinct : (t.fields.map Field.name).Nodup) {f : Field}
    (hf : f ∈ t.fields) : Keyed.find? f.name (a.fieldResolvers t) = a.resolver? f := by
  cases hr : a.resolver? f with
  | some r =>
      have there : (f.name, r) ∈ a.fieldResolvers t :=
        List.mem_filterMap.mpr ⟨f, hf, by rw [hr]; rfl⟩
      exact Keyed.find?_of_mem (distinct.sublist (a.keys_fieldResolvers t)) there
  | none =>
      cases hk : Keyed.find? f.name (a.fieldResolvers t) with
      | none => rfl
      | some r =>
          obtain ⟨f', hf', he⟩ := List.mem_filterMap.mp (Keyed.mem_of_find? hk)
          obtain ⟨r', hr', he⟩ := Option.map_eq_some_iff.mp he
          have same : f' = f := List.inj_on_of_nodup_map distinct hf' hf (congrArg Prod.fst he)
          rw [same, hr] at hr'
          cases hr'

end Api

namespace Registry.Finished

variable {naming : Naming} {r : Registry n}

theorem substitutions (h : r.Finished naming) {p : String × EnumDef} (hp : p ∈ r.api.enums) :
    Resolver.substitutions p.2 = .ok p.2.replacements := by
  obtain ⟨id, values, type, -, -, made⟩ := h.made.enums p hp
  refine EnumDef.substitutions_eq (h.consistent.wellFormed.distinctValues p hp) ?_
  rw [made]
  exact (EnumDef.collects_ofValues p.1 values).aliased

theorem fieldResolver?_eq (h : r.Finished naming) (f : Field) :
    ResolverMap.fieldResolver? r.api f = .ok (r.api.resolver? f) := by
  unfold ResolverMap.fieldResolver? Api.resolver?
  cases he : Keyed.find? f.typeName r.api.enums with
  | none => rfl
  | some e =>
      dsimp only
      split
      · rfl
      · rw [h.substitutions (Keyed.mem_of_find? he)]
        rfl

theorem typeResolvers_eq (h : r.Finished naming) {p : String × TypeDef} (hp : p ∈ r.api.types) :
    ResolverMap.typeResolvers r.api p.2 = .ok (r.api.fieldResolvers p.2) := by
  have distinct := h.consistent.wellFormed.distinctFields p (List.mem_append_left _ hp)
  have found : (p.2.fields.mapM fun f => do
        return (← ResolverMap.fieldResolver? r.api f).map fun r => (f.name, r))
      = Except.ok (p.2.fields.map fun f => (r.api.resolver? f).map fun r => (f.name, r)) := by
    refine mapM_eq_ok_map fun f _ => ?_
    rw [h.fieldResolver?_eq]
    rfl
  have collected : (p.2.fields.map fun f =>
        (r.api.resolver? f).map fun r => (f.name, r)).filterMap id = r.api.fieldResolvers p.2 := by
    rw [List.filterMap_map]
    rfl
  unfold ResolverMap.typeResolvers
  rw [found]
  show Except.ok (Keyed.ofPairs (List.filterMap id _)) = _
  rw [collected, Keyed.ofPairs_eq (distinct.sublist (r.api.keys_fieldResolvers p.2))]

theorem queryResolvers_eq (h : r.Finished naming) (ps : Keyed.Entries Pagination) :
    ResolverMap.queryResolvers r.api ps = r.api.queryResolvers ps := by
  have distinct : (Keyed.keys (r.api.queryResolvers ps)).Nodup := by
    rw [r.api.keys_queryResolvers ps h.consistent.queries]
    exact h.consistent.wellFormed.distinctQueries
  exact Keyed.ofPairs_eq distinct

theorem keys_resolvers (h : r.Finished naming) (ps : Keyed.Entries Pagination) :
    (Keyed.keys (r.api.resolvers ps)).Nodup := by
  have types : (r.api.types.map fun p => (p.1, r.api.fieldResolvers p.2)).map (·.1)
      = Keyed.keys r.api.types := by
    rw [List.map_map]
    rfl
  have sublist : ((List.filter (fun p => !p.2.isEmpty)
        (r.api.types.map fun p => (p.1, r.api.fieldResolvers p.2))).map (·.1)).Sublist
      (Keyed.keys r.api.types) := types ▸ List.filter_sublist.map _
  refine List.nodup_cons.mpr ⟨fun hq => ?_, h.consistent.types_nodup.sublist sublist⟩
  have legal := h.consistent.wellFormed.legal "Query"
    (List.mem_append_left _ (List.mem_append_right _ (sublist.subset hq)))
  exact legal (by decide)

/-- Names are distinct, so no resolver takes the place of another. -/
theorem mapM_typeResolvers_eq (h : r.Finished naming) :
    (r.api.types.mapM fun (_, t) => do return (t.name, ← ResolverMap.typeResolvers r.api t))
      = Except.ok (r.api.types.map fun p => (p.1, r.api.fieldResolvers p.2)) := by
  refine mapM_eq_ok_map fun p hp => ?_
  obtain ⟨name, t⟩ := p
  have own : t.name = name :=
    h.consistent.wellFormed.typeNames (name, t) (List.mem_append_left _ hp)
  have resolvers : ResolverMap.typeResolvers r.api t = .ok (r.api.fieldResolvers t) :=
    h.typeResolvers_eq hp
  dsimp only
  rw [resolvers, own]
  rfl

theorem ofApi_eq (h : r.Finished naming) (ps : Keyed.Entries Pagination) :
    ResolverMap.ofApi r.api ps = .ok (r.api.resolvers ps) := by
  unfold ResolverMap.ofApi
  rw [h.mapM_typeResolvers_eq]
  show Except.ok (Keyed.update [("Query", ResolverMap.queryResolvers r.api ps)] _) = _
  rw [h.queryResolvers_eq ps, Keyed.update_eq_append (h.keys_resolvers ps)]
  rfl

end Registry.Finished

/-! ## Agreement -/

namespace ResolverMap

def resolver? (R : ResolverMap) (type field : String) : Option Resolver :=
  (Keyed.find? type R).bind (Keyed.find? field)

/-- The resolvers as resolvers of fields. -/
def bound {σ ε : Type} [Exceptions ε] (R : ResolverMap) (store : Store σ ε) :
    Keyed.Entries (Keyed.Entries (Execution.FieldResolver σ)) :=
  R.map fun (type, fs) => (type, fs.map fun (field, r) => (field, Service.fieldResolver store r))

theorem keys_bound {σ ε : Type} [Exceptions ε] (R : ResolverMap) (store : Store σ ε) :
    (R.bound store).map (fun (k, fs) => (k, Keyed.keys fs))
      = R.map fun (k, fs) => (k, Keyed.keys fs) := by
  rw [bound, List.map_map]
  refine List.map_congr_left fun p _ => Prod.ext rfl ?_
  exact Keyed.keys_mapEntries (Service.fieldResolver store) p.2

/-- Resolvers are for the query fields and for fields of object types, and the query fields of a
resource ask for that resource. -/
structure Agrees (R : ResolverMap) (a : Api) (ps : Keyed.Entries Pagination) : Prop where
  distinct : (Keyed.keys R).Nodup
  queries : (Keyed.find? "Query" R).map Keyed.keys = some (a.queryType.fields.map Field.name)
  types : ∀ p ∈ R, p.1 ≠ "Query" → ∃ t, Keyed.find? p.1 a.types = some t ∧
    ∀ f ∈ Keyed.keys p.2, f ∈ t.fields.map Field.name
  resources : ∀ r ∈ a.resources,
    R.resolver? "Query" r.listField = some (.list r (paginationFor ps r.name)) ∧
      R.resolver? "Query" r.singleField = some (.single r)

/-- What is answered for a field: by its resolver, else the member of its name. -/
def answer {σ ε : Type} [Exceptions ε] (R : ResolverMap) (store : Store σ ε) (type : String)
    (f : Field) (source : Value) (args : Keyed.Entries Value) : StateM σ (Except ε Value) :=
  match R.resolver? type f.name with
  | some r => r.run store source args
  | none => return .ok (source.get f.name)

/-- The answer for a field is what becomes of one member of the record, whatever the record. -/
def Reads {σ ε : Type} [Exceptions ε] (R : ResolverMap) (store : Store σ ε) (type : String)
    (f : Field) (property : String) (become : Value → Value) : Prop :=
  ∀ members args s, R.answer store type f (.obj members) args s
    = (.ok (become ((Value.obj members).get property)), s)

end ResolverMap

/-- Aliases are replaced by the raw values of their names, also in a list. -/
def EnumDef.translate (e : EnumDef) : Value → Value
  | .arr items => .arr (items.map (Resolver.substitute e.replacements))
  | v => Resolver.substitute e.replacements v

namespace Api

variable (a : Api)

/-- The field has an enumeration with aliases. -/
def Aliased (f : Field) : Prop := ∃ e, Keyed.find? f.typeName a.enums = some e ∧ e.aliases ≠ []

/-- What becomes of the value of a property. -/
def translate (f : Field) (v : Value) : Value :=
  match Keyed.find? f.typeName a.enums with
  | some e => if e.aliases.isEmpty then v else e.translate v
  | none => v

variable {a} {f : Field}

theorem aliased_iff : a.Aliased f
    ↔ (Keyed.find? f.typeName a.enums).any (fun e => !e.aliases.isEmpty) = true := by
  simp [Aliased, Option.any_eq_true]

instance : Decidable (a.Aliased f) := decidable_of_iff' _ aliased_iff

theorem translate_of_not_aliased (h : ¬ a.Aliased f) (v : Value) : a.translate f v = v := by
  unfold translate
  split
  · rename_i e he
    split
    · rfl
    · rename_i aliases
      exact absurd ⟨e, he, fun unaliased => aliases (List.isEmpty_iff.mpr unaliased)⟩ h
  · rfl

theorem resolver?_of_not_aliased (h : ¬ a.Aliased f) :
    a.resolver? f = ResolverMap.fieldResolver?.renamed? f := by
  unfold resolver?
  split
  · rename_i e he
    split
    · rfl
    · rename_i aliases
      exact absurd ⟨e, he, fun unaliased => aliases (List.isEmpty_iff.mpr unaliased)⟩ h
  · rfl

theorem resolver?_of_aliased {e : EnumDef} (he : Keyed.find? f.typeName a.enums = some e)
    (aliases : e.aliases ≠ []) :
    a.resolver? f = some (.enumKey f.aliasedKey e.replacements) := by
  rw [resolver?, he]
  exact if_neg fun unaliased => aliases (List.isEmpty_iff.mp unaliased)

theorem translate_of_aliased {e : EnumDef} (he : Keyed.find? f.typeName a.enums = some e)
    (aliases : e.aliases ≠ []) (v : Value) : a.translate f v = e.translate v := by
  rw [translate, he]
  exact if_neg fun unaliased => aliases (List.isEmpty_iff.mp unaliased)

end Api

theorem Field.renamed?_eq {f : Field} {property : String} (source : f.sourceName = some property) :
    ResolverMap.fieldResolver?.renamed? f
      = if property = f.name then none else some (.key property) := by
  by_cases same : property = f.name <;>
    simp [ResolverMap.fieldResolver?.renamed?, Field.isRenamed, Field.recordKey, source, same]

theorem Resolver.readEnum_eq (e : EnumDef) (key : String) (source : Value) :
    Resolver.readEnum key e.replacements source = e.translate (source.get key) := by
  unfold Resolver.readEnum
  cases source.get key <;> rfl

namespace Registry.Finished

variable {naming : Naming} {r : Registry n} {ps : Keyed.Entries Pagination}

theorem resolver?_eq (h : r.Finished naming) {p : String × TypeDef} (hp : p ∈ r.api.types)
    {f : Field} (hf : f ∈ p.2.fields) :
    (r.api.resolvers ps).resolver? p.1 f.name = r.api.resolver? f := by
  have distinct := h.consistent.wellFormed.distinctFields p (List.mem_append_left _ hp)
  have unrooted : p.1 ≠ "Query" := by
    intro hq
    have legal := h.consistent.wellFormed.legal p.1
      (List.mem_append_left _ (List.mem_append_right _ (List.mem_map_of_mem hp)))
    exact legal (hq ▸ by decide)
  rw [← r.api.find?_fieldResolvers distinct hf]
  by_cases empty : r.api.fieldResolvers p.2 = []
  · have absent : Keyed.find? p.1 (r.api.resolvers ps) = none := by
      cases hk : Keyed.find? p.1 (r.api.resolvers ps) with
      | none => rfl
      | some fs =>
          exfalso
          rcases List.mem_cons.mp (Keyed.mem_of_find? hk) with he | hm
          · exact unrooted (congrArg Prod.fst he)
          · obtain ⟨hm, nonempty⟩ := List.mem_filter.mp hm
            obtain ⟨q, hq, he⟩ := List.mem_map.mp hm
            obtain ⟨hname, rfl⟩ := Prod.mk.inj he
            have same : q = p := List.inj_on_of_nodup_map h.consistent.types_nodup hq hp hname
            rw [same, empty] at nonempty
            cases nonempty
    rw [ResolverMap.resolver?, absent, empty]
    rfl
  · have there : (p.1, r.api.fieldResolvers p.2) ∈ r.api.resolvers ps := by
      refine List.mem_cons_of_mem _ (List.mem_filter.mpr ⟨List.mem_map.mpr ⟨p, hp, rfl⟩, ?_⟩)
      simpa using empty
    rw [ResolverMap.resolver?, Keyed.find?_of_mem (h.keys_resolvers ps) there]
    rfl

theorem agrees (h : r.Finished naming) : (r.api.resolvers ps).Agrees r.api ps where
  distinct := h.keys_resolvers ps
  queries := by
    rw [Api.resolvers, Keyed.find?_cons, if_pos rfl, Option.map_some,
      r.api.keys_queryResolvers ps h.consistent.queries]
  types := by
    intro p hp unrooted
    rcases List.mem_cons.mp hp with rfl | hp
    · exact absurd rfl unrooted
    · obtain ⟨q, hq, rfl⟩ := List.mem_map.mp (List.mem_of_mem_filter hp)
      exact ⟨q.2, Keyed.find?_of_mem h.consistent.types_nodup hq,
        (r.api.keys_fieldResolvers q.2).subset⟩
  resources := by
    intro a ha
    have distinct : (Keyed.keys (r.api.queryResolvers ps)).Nodup := by
      rw [r.api.keys_queryResolvers ps h.consistent.queries]
      exact h.consistent.wellFormed.distinctQueries
    have there {p : String × Resolver} (hp : p ∈ Api.resourceResolvers ps a) :
        (r.api.resolvers ps).resolver? "Query" p.1 = some p.2 := by
      rw [ResolverMap.resolver?, Api.resolvers, Keyed.find?_cons, if_pos rfl]
      exact Keyed.find?_of_mem distinct (List.mem_append_left _ (List.mem_flatMap.mpr ⟨a, ha, hp⟩))
    exact ⟨there (List.mem_cons_self ..), there (List.mem_cons_of_mem _ (List.mem_cons_self ..))⟩

/-- Every resolver is for a field that the type system has. -/
theorem resolvers_known (h : r.Finished naming) {t : TypeSystem} (defines : t.Defines r.api) :
    t.checkResolvers ((r.api.resolvers ps).map fun (k, fs) => (k, Keyed.keys fs)) = .ok () := by
  have names (d : TypeDef) : (d.fields.map Field.output).map OutputField.name
      = d.fields.map Field.name := List.map_map ..
  refine TypeSystem.checkResolvers_of_known fun p hp => ?_
  obtain ⟨q, hq, rfl⟩ := List.mem_map.mp hp
  rcases List.mem_cons.mp hq with rfl | hq
  · refine ⟨_, defines.objectFields Api.queryType_mem_definitions rfl, fun f hf => ?_⟩
    rw [names, ← r.api.keys_queryResolvers ps h.consistent.queries]
    exact hf
  · obtain ⟨q, hm, rfl⟩ := List.mem_map.mp (List.mem_of_mem_filter hq)
    have own := h.consistent.wellFormed.typeNames q (List.mem_append_left _ hm)
    have known := defines.objectFields (Api.type_mem_definitions hm) (h.made.types q hm).1
    refine ⟨_, own ▸ known, fun f hf => ?_⟩
    rw [names]
    exact (r.api.keys_fieldResolvers q.2).subset hf

variable (ps) in
/-- When a type system with the definitions is built, nothing else hinders a service. -/
theorem ofSchema_eq [GraphQL] (h : r.Finished naming) {t : TypeSystem}
    (build : GraphQL.build r.api.text = .ok t) (defines : t.Defines r.api) {σ ε : Type}
    [Exceptions ε] (store : Store σ ε) (config : ServiceConfig) :
    ∃ t', TypeSystem.withAllValues (r.api.enums.map (·.2)) t = .ok t' ∧
      Service.ofSchema r.api.text (r.api.enums.map (·.2)) ((r.api.resolvers ps).bound store) config
        = .ok ⟨t', fun type field => (Keyed.find? type ((r.api.resolvers ps).bound store)).bind
            (Keyed.find? field), config⟩ := by
  obtain ⟨t', values, -⟩ := h.takes_values defines
  refine ⟨t', values, ?_⟩
  rw [Service.ofSchema, build]
  dsimp only
  rw [ResolverMap.keys_bound, h.resolvers_known defines]
  dsimp only
  rw [values]

variable (ps) in
theorem reads_of_named (h : r.Finished naming) {p : String × TypeDef} (hp : p ∈ r.api.types)
    {f : Field} (hf : f ∈ p.2.fields) {property : String} (source : f.sourceName = some property)
    {σ ε : Type} [Exceptions ε] (store : Store σ ε) (named : ¬ (property = "" ∧ r.api.Aliased f)) :
    (r.api.resolvers ps).Reads store p.1 f property (r.api.translate f) := by
  have key : f.recordKey = property := by rw [Field.recordKey, source]; rfl
  intro members args s
  unfold ResolverMap.answer
  rw [h.resolver?_eq hp hf]
  by_cases aliased : r.api.Aliased f
  · have own : f.aliasedKey = property := by
      rw [Field.aliasedKey, key]
      exact if_neg fun unnamed => named ⟨unnamed, aliased⟩
    obtain ⟨e, he, aliases⟩ := aliased
    rw [Api.resolver?_of_aliased he aliases, Api.translate_of_aliased he aliases, own]
    show ((_ : Except ε Value), s) = _
    rw [Resolver.readEnum_eq]
  · rw [Api.resolver?_of_not_aliased aliased, Api.translate_of_not_aliased aliased,
      Field.renamed?_eq source]
    by_cases same : property = f.name
    · rw [if_pos same, same]
      rfl
    · rw [if_neg same]
      rfl

variable (ps) in
/-- A property without a name is read under the name of its field. -/
theorem answer_of_unnamed (h : r.Finished naming) {p : String × TypeDef} (hp : p ∈ r.api.types)
    {f : Field} (hf : f ∈ p.2.fields) (source : f.sourceName = some "") {e : EnumDef}
    (he : Keyed.find? f.typeName r.api.enums = some e) (aliases : e.aliases ≠ [])
    {σ ε : Type} [Exceptions ε] (store : Store σ ε) (record : Value) (args : Keyed.Entries Value) (s : σ) :
    (r.api.resolvers ps).answer store p.1 f record args s
      = (.ok (e.translate (record.get "unknown")), s) := by
  have own : f.aliasedKey = "unknown" := by
    rw [Field.aliasedKey, Field.recordKey, source, ((h.made.types p hp).2 f hf).2 "" source]
    decide
  unfold ResolverMap.answer
  rw [h.resolver?_eq hp hf, Api.resolver?_of_aliased he aliases, own, ← Resolver.readEnum_eq]
  rfl

theorem not_reads_of_unnamed (h : r.Finished naming) {p : String × TypeDef} (hp : p ∈ r.api.types)
    {f : Field} (hf : f ∈ p.2.fields) (source : f.sourceName = some "")
    (aliased : r.api.Aliased f) {σ ε : Type} [Exceptions ε] (store : Store σ ε) (s : σ) :
    ¬ (r.api.resolvers ps).Reads store p.1 f "" (r.api.translate f) := by
  intro reads
  obtain ⟨e, he, aliases⟩ := aliased
  -- both records have nothing under the name of the field, but the property differs
  have answered (items : List Value) :
      e.translate .null = .arr (items.map (Resolver.substitute e.replacements)) := by
    have answer := (h.answer_of_unnamed ps hp hf source he aliases store
      (.obj [("", .arr items)]) [] s).symm.trans (reads _ [] s)
    rw [Api.translate_of_aliased he aliases] at answer
    exact Except.ok.inj (congrArg Prod.fst answer)
  have same := (answered []).symm.trans (answered [.null])
  cases same

end Registry.Finished

/-- Whatever the resources are, if they compile then their resolvers are there and agree with the
API, a service can be built with them when its text can be read, and a field is read from the
property that it stands for unless that has no name and the enumeration of the field has aliases. -/
theorem compile_reads_iff {o : CompileOptions} {s : Specs} {api : Api} {log : List LogLine}
    (h : compile o s = .ok (api, log)) :
    ∃ R, ResolverMap.ofApi api (paginations s) = .ok R ∧ R.Agrees api (paginations s) ∧
      ∀ {σ : Type} (store : Store σ),
        (∀ config t, TypeSystem.read api.text = .ok t → ∃ service,
          Service.ofSchema api.text (api.enums.map (·.2)) (R.bound store) config = .ok service) ∧
        ∀ p ∈ api.types, ∀ f ∈ p.2.fields, (¬ api.Aliased f → ∀ v, api.translate f v = v) ∧
          ∀ property, f.sourceName = some property → ∀ [Nonempty σ],
            (R.Reads store p.1 f property (api.translate f) ↔
              ¬ (property = "" ∧ api.Aliased f)) := by
  obtain ⟨c, -, rfl, finished⟩ := compile_finished h
  refine ⟨_, finished.ofApi_eq (paginations s), finished.agrees, fun {σ} store => ⟨?_, ?_⟩⟩
  · intro config t read
    obtain ⟨t', -, built⟩ := finished.ofSchema_eq _ read (finished.defines read) store config
    exact ⟨_, built⟩
  · intro p hp f hf
    refine ⟨Api.translate_of_not_aliased, fun property source _ => ⟨?_, ?_⟩⟩
    · rintro reads ⟨rfl, aliased⟩
      obtain ⟨state⟩ := (inferInstance : Nonempty σ)
      exact finished.not_reads_of_unnamed hp hf source aliased store state reads
    · exact finished.reads_of_named _ hp hf source store

/-- Persons with a state, under a name and without one. -/
def Specs.states : Specs where
  graph :=
    { size := 4
      objects := #v[
        [("type", .str "object"), ("properties", .obj 1)],
        [("state-code", .obj 2), ("", .obj 3)],
        [("enum", .arr [.str "a-b", .str "a_b"])],
        [("enum", .arr [.str "a-b", .str "a_b"])]]
      nodup := by decide }
  specs := [{ name := "persons", schemas := [("Person", .obj 0)] }]

theorem compile_states :
    (compile {} Specs.states).map (fun c => (c.1.names.all Naming.isName,
        (Keyed.find? "Person" c.1.types).map fun d =>
          d.fields.map fun f => (f.sourceName, decide (c.1.Aliased f))))
      = .ok (true, some [(some "state-code", true), (some "", true)]) := by
  rw [compile_eq_upTo]
  decide +kernel

theorem states_compiles : ∃ api log d, compile {} Specs.states = .ok (api, log) ∧
    ("Person", d) ∈ api.types ∧ ∀ property ∈ ["state-code", ""],
      ∃ f ∈ d.fields, f.sourceName = some property ∧ api.Aliased f := by
  obtain ⟨⟨api, log⟩, hc, parts⟩ := exists_of_map_eq_ok compile_states
  obtain ⟨d, hd, fields⟩ := Option.map_eq_some_iff.mp (Prod.mk.inj parts).2
  refine ⟨api, log, d, hc, Keyed.mem_of_find? hd, fun property hp => ?_⟩
  have listed : (some property, true) ∈ [(some "state-code", true), (some "", true)] :=
    List.mem_map_of_mem (f := fun property => (some property, true)) hp
  obtain ⟨f, hf, he⟩ := List.mem_map.mp (fields ▸ listed)
  obtain ⟨source, aliased⟩ := Prod.mk.inj he
  exact ⟨f, hf, source, of_decide_eq_true aliased⟩

theorem states_read : ∃ api log d f R, compile {} Specs.states = .ok (api, log) ∧
    ("Person", d) ∈ api.types ∧ f ∈ d.fields ∧ f.sourceName = some "state-code" ∧ api.Aliased f ∧
    ResolverMap.ofApi api (paginations Specs.states) = .ok R ∧
    R.Agrees api (paginations Specs.states) ∧
    R.Reads CannedStore.store "Person" f "state-code" (api.translate f) := by
  obtain ⟨api, log, d, h, hd, fields⟩ := states_compiles
  obtain ⟨f, hf, source, aliased⟩ := fields "state-code" (List.mem_cons_self ..)
  obtain ⟨R, hR, agrees, rest⟩ := compile_reads_iff h
  obtain ⟨-, reads⟩ := rest CannedStore.store
  have : Nonempty CannedStore := ⟨{}⟩
  refine ⟨api, log, d, f, R, h, hd, hf, source, aliased, hR, agrees, ?_⟩
  exact ((reads _ hd f hf).2 "state-code" source).mpr fun unnamed => absurd unnamed.1 (by decide)

/-- The state without a name is not read. -/
theorem unnamed_state_not_read : ¬ ∀ (o : CompileOptions) (s : Specs) (api : Api)
    (log : List LogLine) (R : ResolverMap), compile o s = .ok (api, log) →
    ResolverMap.ofApi api (paginations s) = .ok R → ∀ p ∈ api.types, ∀ f ∈ p.2.fields,
    ∀ property, f.sourceName = some property →
    R.Reads CannedStore.store p.1 f property (api.translate f) := by
  intro all
  obtain ⟨api, log, d, h, hd, fields⟩ := states_compiles
  obtain ⟨f, hf, source, aliased⟩ := fields "" (List.mem_cons_of_mem _ (List.mem_cons_self ..))
  obtain ⟨c, -, rfl, finished⟩ := compile_finished h
  exact finished.not_reads_of_unnamed hd hf source aliased CannedStore.store {}
    (all _ _ _ _ _ h (finished.ofApi_eq _) _ hd f hf _ source)

end ResourceGraph
