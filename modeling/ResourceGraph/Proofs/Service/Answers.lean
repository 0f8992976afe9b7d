import ResourceGraph.Proofs.Execution.Serialization
import ResourceGraph.Proofs.Service.Resolvers
import ResourceGraph.Proofs.TypeSystem.Flaws

/-!
# Services of resources

A service that is built has the types of the compiled API, its enumerations with their values, and
its resolvers, if its engine builds the types that the text defines. So a field of a record gives what
its resolver reads.
-/

namespace ResourceGraph

open Query Execution

variable {n : Nat} {σ ε : Type} [Exceptions ε]

/-! ## Built services -/

/-- A type system that is built from the text of a compiled API has its definitions. -/
def GraphQL.BuildsDefinitions [GraphQL] : Prop :=
  ∀ {o : CompileOptions} {specs : Specs} {api : Api} {log : List LogLine} {t : TypeSystem},
    compile o specs = .ok (api, log) → GraphQL.build api.text = .ok t → t.Defines api

/-- The engine at hand builds them. -/
theorem GraphQL.buildsDefinitions : GraphQL.BuildsDefinitions := by
  intro o specs api log t compiled build
  obtain ⟨c, -, rfl, finished⟩ := compile_finished compiled
  exact finished.defines build

theorem ResolverMap.find?_bound (R : ResolverMap) (store : Store σ ε) (type field : String) :
    (Keyed.find? type (R.bound store)).bind (Keyed.find? field)
      = (R.resolver? type field).map (Service.fieldResolver store) := by
  have entries : R.bound store
      = Keyed.mapEntries (Keyed.mapEntries (Service.fieldResolver store)) R := rfl
  rw [entries, Keyed.find?_mapEntries, resolver?]
  cases Keyed.find? type R with
  | none => rfl
  | some fs => exact Keyed.find?_mapEntries ..

namespace Service

/-- A service has what was compiled: enumerations with their values, object types, and resolvers. -/
structure Serves (s : Service σ) (a : Api) (ps : Keyed.Entries Pagination) (store : Store σ ε) :
    Prop where
  enums : ∀ p ∈ a.enums, s.types.type? p.1 = some (TypeSystem.ofEnum p.2)
  fields : ∀ p ∈ a.types, s.types.objectFields? p.1 = some (p.2.fields.map Field.output)
  resolvers : ∀ type field, s.resolver? type field
    = ((a.resolvers ps).resolver? type field).map (fieldResolver store)

section

variable [GraphQL]

theorem ofSpecs_eq_ok {specs : Specs} {store : Store σ ε} {config : ServiceConfig} {naming : Naming}
    {s : Service σ} {api : Api} {log : List LogLine}
    (h : ofSpecs specs store config naming = .ok (s, api, log)) :
    compile ⟨naming, config.searchDepth⟩ specs = .ok (api, log) ∧ ∃ R,
      ResolverMap.ofApi api (paginations specs) = .ok R ∧
        ofSchema api.text (api.enums.map (·.2)) (R.bound store) config = .ok s := by
  unfold ofSpecs at h
  split at h
  · cases h
  · rename_i api' log' hc
    split at h
    · cases h
    · rename_i R hR
      dsimp only at h
      split at h
      · cases h
      · rename_i s' hs
        cases h
        exact ⟨hc, R, hR, hs⟩

theorem ofSpecs_of_ofSchema {specs : Specs} {store : Store σ ε} {config : ServiceConfig}
    {naming : Naming} {s : Service σ} {api : Api} {log : List LogLine} {R : ResolverMap}
    (compiled : compile ⟨naming, config.searchDepth⟩ specs = .ok (api, log))
    (made : ResolverMap.ofApi api (paginations specs) = .ok R)
    (served : ofSchema api.text (api.enums.map (·.2)) (R.bound store) config = .ok s) :
    ofSpecs specs store config naming = .ok (s, api, log) := by
  unfold ResolverMap.bound at served
  unfold ofSpecs
  rw [compiled]
  dsimp only
  rw [made]
  dsimp only
  rw [served]

theorem build_of_ofSchema {text : String} {enums : List EnumDef}
    {resolvers : Keyed.Entries (Keyed.Entries (FieldResolver σ))} {config : ServiceConfig}
    {s : Service σ} (h : ofSchema text enums resolvers config = .ok s) :
    ∃ t, GraphQL.build text = .ok t := by
  unfold ofSchema at h
  split at h
  · cases h
  · rename_i t ht
    exact ⟨t, ht⟩

end

/-- A service is built for what compiles exactly if every name of it is proper. -/
theorem exists_ofSpecs_iff {specs : Specs} {config : ServiceConfig} {naming : Naming} {api : Api}
    {log : List LogLine} (h : compile ⟨naming, config.searchDepth⟩ specs = .ok (api, log))
    (store : Store σ ε) :
    (∃ s, ofSpecs specs store config naming = .ok (s, api, log)) ↔
      ∀ s ∈ api.names, Naming.isName s = true := by
  obtain ⟨c, -, rfl, finished⟩ := compile_finished h
  rw [← finished.read_iff]
  constructor
  · rintro ⟨s, built⟩
    obtain ⟨-, R, -, built⟩ := ofSpecs_eq_ok built
    exact build_of_ofSchema built
  · rintro ⟨t, read⟩
    obtain ⟨t', -, built⟩ := finished.ofSchema_eq (paginations specs) read (finished.defines read)
      store config
    exact ⟨_, ofSpecs_of_ofSchema h (finished.ofApi_eq _) built⟩

end Service

theorem Registry.Finished.serves [GraphQL] {naming : Naming} {r : Registry n}
    (h : r.Finished naming) {ps : Keyed.Entries Pagination} {store : Store σ ε}
    {config : ServiceConfig} {s : Service σ}
    (built : Service.ofSchema r.api.text (r.api.enums.map (·.2)) ((r.api.resolvers ps).bound store)
      config = .ok s)
    (defines : ∀ {t}, GraphQL.build r.api.text = .ok t → t.Defines r.api) :
    s.Serves r.api ps store := by
  obtain ⟨t, build⟩ := Service.build_of_ofSchema built
  obtain ⟨t', values, service⟩ := h.ofSchema_eq ps build (defines build) store config
  cases built.symm.trans service
  obtain ⟨_, values', enums, others⟩ := h.takes_values (defines build)
  cases values.symm.trans values'
  refine ⟨enums, fun p hp => ?_, fun type field => ResolverMap.find?_bound ..⟩
  have own := h.consistent.wellFormed.typeNames p (List.mem_append_left _ hp)
  have declared := (defines build).objectFields (Api.type_mem_definitions hp) (h.made.types p hp).1
  have unshared : p.1 ∉ Keyed.keys r.api.enums := by
    intro he
    have disjoint := List.nodup_append.mp (List.nodup_append.mp h.consistent.disjoint).1
    exact disjoint.2.2 _ he _ (List.mem_map_of_mem hp) rfl
  rw [← declared, own, TypeSystem.objectFields?, TypeSystem.objectFields?, others _ unshared]

/-! ## Fields of records -/

namespace Registry.Finished

variable {naming : Naming} {r : Registry n} {s : Service σ} {ps : Keyed.Entries Pagination}
  {store : Store σ ε} {p : String × TypeDef} {f : Field}

theorem isName_field (h : r.Finished naming) (hp : p ∈ r.api.types) (hf : f ∈ p.2.fields) :
    Naming.isName f.name = true := by
  obtain ⟨t, named⟩ := h.named
  exact (named.outputs p hp f hf).1

/-- A field of a record gives what is read for it. -/
theorem gives [Nonempty σ] (h : r.Finished naming) (serves : s.Serves r.api ps store)
    (hp : p ∈ r.api.types) (hf : f ∈ p.2.fields) {members : List (String × Value)} {v : Value}
    (read : ∀ st, (r.api.resolvers ps).answer store p.1 f (.obj members) [] st = (.ok v, st)) :
    Gives s.types s.resolver? p.1 f.output members v where
  field := by
    refine ⟨_, serves.fields p hp, List.mem_map_of_mem hf, ?_⟩
    rw [List.map_map]
    exact h.consistent.wellFormed.distinctFields p (List.mem_append_left _ hp)
  named := h.isName_field hp hf
  plain := by
    rw [Field.output, ((h.made.types p hp).2 f hf).1]
    rfl
  resolved := by
    rw [serves.resolvers]
    unfold ResolverMap.answer at read
    dsimp only [Field.output]
    cases hr : (r.api.resolvers ps).resolver? p.1 f.name with
    | none =>
        rw [hr] at read
        obtain ⟨st⟩ := (inferInstance : Nonempty σ)
        exact Except.ok.inj (congrArg Prod.fst (read st))
    | some r =>
        rw [hr] at read
        intro headers st
        simp only [Service.fieldResolver, bind, StateT.bind, read]
        rfl

end Registry.Finished

end ResourceGraph
