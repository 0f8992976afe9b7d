import ResourceGraph.Proofs.Execution.InStep
import ResourceGraph.Proofs.Service.Answers

/-!
# Masking of internal errors

If internal errors are masked then an answer does not tell why a store failed. Two stores that give
the same data and fail at the same questions are told apart by no request, however much the reasons
differ that they have for failing.
-/

namespace ResourceGraph

open Query Execution

variable {σ τ ε δ α : Type} [Exceptions ε] [Exceptions δ] {R : σ → τ → Prop}

/-- Exceptions of any classes and texts, but none of them an error of the engine's own, and none with
a code. -/
def BothPlain (e : ε) (d : δ) : Prop := (Exceptions.raised e).BothPlain (Exceptions.raised d)

theorem Fault.isPlain (f : Fault) : f.raised.IsPlain := by
  refine ⟨?_, rfl⟩
  cases f <;> simp [raised, kind]

theorem BothPlain.ofFault (f g : Fault) :
    BothPlain (Exceptions.ofFault f : ε) (Exceptions.ofFault g : δ) := by
  rw [BothPlain, Exceptions.raised_ofFault, Exceptions.raised_ofFault]
  exact ⟨f.isPlain, g.isPlain⟩

/-- The same value, or plain exceptions. -/
abbrev SameAnswer : Except ε α → Except δ α → Prop := SameEnd BothPlain

theorem SameAnswer.ofFault (x : Except Fault α) :
    SameAnswer (x.mapError Exceptions.ofFault : Except ε α)
      (x.mapError Exceptions.ofFault : Except δ α) := by
  cases x with
  | ok a => exact .ok a
  | error f => exact .error (.ofFault f f)

/-- Stores in related states give the same data or both raise plain exceptions, and are in related
states again. -/
structure Store.InStep (R : σ → τ → Prop) (store : Store σ ε) (store' : Store τ δ) : Prop where
  find : ∀ resource id,
    ResourceGraph.InStep R SameAnswer (store.find resource id) (store'.find resource id)
  search : ∀ resource params paths p, ResourceGraph.InStep R SameAnswer
    (store.search resource params paths p) (store'.search resource params paths p)

/-! ## Resolvers -/

namespace Resolver

variable {store : Store σ ε} {store' : Store τ δ}

theorem inStep_page (h : store.InStep R store') (r : Resource) (p : Pagination)
    (params : Keyed.Entries Value) :
    InStep R SameAnswer (page store r p params) (page store' r p params) := by
  rw [page, page]
  refine (h.search r.name params r.searchable p).bind fun _ _ answered => ?_
  cases answered with
  | error h => exact .pure (.error h)
  | ok answer => exact .pure (.ofFault _)

theorem inStep_searchAll (h : store.InStep R store') (query limit : Value)
    (resources : List (Resource × Pagination)) (results : Keyed.Entries Value) (total : Value) :
    InStep R SameAnswer (searchAll store query limit resources results total)
      (searchAll store' query limit resources results total) := by
  induction resources generalizing results total with
  | nil => exact .pure (.ok _)
  | cons first rest ih =>
      rw [searchAll, searchAll]
      split
      · exact ih _ total
      · refine (inStep_page h first.1 first.2 _).bind fun _ _ answered => ?_
        cases answered with
        | error h => exact .pure (.error h)
        | ok found =>
            dsimp only
            split
            · exact .pure (.error (.ofFault _ _))
            · exact ih _ _

theorem inStep_run (h : store.InStep R store') (r : Resolver) (source : Value)
    (args : Keyed.Entries Value) :
    InStep R SameAnswer (r.run store source args) (r.run store' source args) := by
  cases r with
  | list r p =>
      refine (inStep_page h r p _).bind fun _ _ answered => ?_
      cases answered with
      | error h => exact .pure (.error h)
      | ok found => exact .pure (.ok _)
  | single r => exact h.find r.name _
  | crossSearch rs =>
      refine (inStep_searchAll h _ _ rs _ _).bind fun _ _ answered => ?_
      cases answered with
      | error h => exact .pure (.error h)
      | ok results => exact .pure (.ok _)
  | key name => exact .pure (.ok _)
  | enumKey name ts => exact .pure (.ok _)

end Resolver

namespace Service

variable {store : Store σ ε} {store' : Store τ δ}

theorem inStep_fieldResolver (h : store.InStep R store') (r : Resolver) :
    (fieldResolver store r).InStep R (fieldResolver store' r) := by
  intro call
  refine (r.inStep_run h call.source call.arguments).bind fun _ _ answered => ?_
  cases answered with
  | ok v => exact .pure (.ok v)
  | error plain => exact .pure (.error plain)

theorem resolversInStep_bound (h : store.InStep R store') (resolvers : ResolverMap) :
    ResolversInStep R
      (fun type field => (Keyed.find? type (resolvers.bound store)).bind (Keyed.find? field))
      (fun type field => (Keyed.find? type (resolvers.bound store')).bind (Keyed.find? field)) := by
  intro type field
  dsimp only
  rw [ResolverMap.find?_bound, ResolverMap.find?_bound]
  cases resolvers.resolver? type field with
  | none => exact .none
  | some r => exact .some (inStep_fieldResolver h r)

end Service

/-! ## Requests -/

/-- Clients see the same. What is logged may differ. -/
def Service.SameResponse (r r' : Response) : Prop := r.toValue = r'.toValue

namespace Query.QueryError

/-- An error of a field that brings no code is internal. -/
theorem isInternal_of_path {e : QueryError} (field : e.path ≠ []) (plain : e.code = .null)
    (defaultCode : String) : e.isInternal defaultCode = true := by
  have coded : e.codeOr defaultCode = .str ErrorCode.internal := by
    rw [codeOr, plain, List.isEmpty_eq_false_iff.mpr field]
    rfl
  rw [isInternal, coded]
  exact beq_self_eq_true _

/-- Masked errors that differ in their texts are reported alike. -/
theorem SameButText.report {e f : QueryError} (h : e.SameButText f) (document code : String) :
    e.report document code true = f.report document code true := by
  rcases h with rfl | ⟨field, plain, same⟩
  · rfl
  · rw [same, QueryError.report, QueryError.report, isInternal_of_path field plain,
      isInternal_of_path (e := { e with message := f.message }) field plain]
    rfl

end Query.QueryError

namespace Service

variable {r? : FieldResolvers σ} {r'? : FieldResolvers τ} (types : TypeSystem)
  {config : ServiceConfig}

theorem sameResponse_respond (masked : config.maskInternalErrors = true) (document : String)
    (data : Value) (code : String) {es fs : List QueryError}
    (h : List.Forall₂ QueryError.SameButText es fs) :
    SameResponse (respond ⟨types, r?, config⟩ document data code es)
      (respond ⟨types, r'?, config⟩ document data code fs) := by
  have reports : (es.map fun e => e.report document code true)
      = fs.map fun f => f.report document code true := by
    induction h with
    | nil => rfl
    | cons first _ ih => rw [List.map_cons, List.map_cons, first.report, ih]
  unfold SameResponse respond
  dsimp only
  rw [masked, Response.toValue, Response.toValue, reports]

variable [GraphQL]

/-- A store is asked only while the engine executes. -/
theorem inStep_execute (confines : GraphQL.ConfinesTexts)
    (masked : config.maskInternalErrors = true) (h : ResolversInStep R r? r'?) (request : Request) :
    InStep R SameResponse (execute ⟨types, r?, config⟩ request)
      (execute ⟨types, r'?, config⟩ request) := by
  have prepared : prepare ⟨types, r'?, config⟩ request.query
      = prepare ⟨types, r?, config⟩ request.query := rfl
  unfold execute
  rw [prepared]
  cases prepare ⟨types, r?, config⟩ request.query with
  | error failure => exact .pure rfl
  | ok d =>
      refine (confines h types d request).bind fun (data, es) (data', fs) alike => .pure ?_
      obtain rfl : data = data' := alike.data
      exact sameResponse_respond types masked _ data _ alike.errors

theorem inStep_handle (confines : GraphQL.ConfinesTexts)
    (masked : config.maskInternalErrors = true) (h : ResolversInStep R r? r'?) (body : Value)
    (headers : Keyed.Entries Value) :
    InStep R SameResponse (handle ⟨types, r?, config⟩ body headers)
      (handle ⟨types, r'?, config⟩ body headers) := by
  unfold handle
  cases Request.ofBody body headers with
  | error b => exact .pure rfl
  | ok request => exact inStep_execute types confines masked h request

/-- Whether a service can be built, and with which types, does not depend on the store. -/
theorem ofSchema_bound {text : String} {enums : List EnumDef} {resolvers : ResolverMap}
    {store : Store σ ε} {s : Service σ}
    (built : ofSchema text enums (resolvers.bound store) config = .ok s) (store' : Store τ δ) :
    ∃ types, s = ⟨types, fun type field =>
        (Keyed.find? type (resolvers.bound store)).bind (Keyed.find? field), config⟩ ∧
      ofSchema text enums (resolvers.bound store') config = .ok ⟨types, fun type field =>
        (Keyed.find? type (resolvers.bound store')).bind (Keyed.find? field), config⟩ := by
  unfold ofSchema at built ⊢
  rw [ResolverMap.keys_bound] at built ⊢
  cases build : GraphQL.build text with
  | error e => rw [build] at built; cases built
  | ok t =>
      rw [build] at built
      dsimp only at built ⊢
      split at built
      · cases built
      · cases values : TypeSystem.withAllValues enums t with
        | error e => rw [values] at built; cases built
        | ok types =>
            rw [values] at built
            cases built
            exact ⟨types, rfl, rfl⟩

end Service

/-- Whatever the engine, if it confines the texts of exceptions, a service that masks internal errors
answers every request, and every body, alike over two stores that answer in step: they give the same
data and raise exceptions at the same questions, of any classes and texts. The stores are left in
step, so this holds of any number of requests. -/
theorem masking_hides_faults [GraphQL] (confines : GraphQL.ConfinesTexts) {store : Store σ ε}
    {store' : Store τ δ} (h : store.InStep R store') {specs : Specs} {naming : Naming}
    {config : ServiceConfig} (masked : config.maskInternalErrors = true) {s : Service σ} {api : Api}
    {log : List LogLine} (built : Service.ofSpecs specs store config naming = .ok (s, api, log)) :
    ∃ s', Service.ofSpecs specs store' config naming = .ok (s', api, log) ∧
      (∀ request, InStep R Service.SameResponse (s.execute request) (s'.execute request)) ∧
      ∀ body headers,
        InStep R Service.SameResponse (s.handle body headers) (s'.handle body headers) := by
  obtain ⟨compiled, resolvers, made, served⟩ := Service.ofSpecs_eq_ok built
  obtain ⟨types, rfl, served'⟩ := Service.ofSchema_bound served store'
  have answers := Service.resolversInStep_bound h resolvers
  exact ⟨_, Service.ofSpecs_of_ofSchema compiled made served',
    Service.inStep_execute types confines masked answers,
    Service.inStep_handle types confines masked answers⟩

/-- A store that has every record, but raises an exception for lists. -/
def Store.unlisted {ε : Type} (record : Value) (e : ε) : Store Unit ε where
  find _ _ := pure (.ok record)
  search _ _ _ _ := pure (.error e)

theorem Store.inStep_unlisted (record : Value) {e : ε} {d : δ} (h : BothPlain e d) :
    (Store.unlisted record e).InStep Eq (Store.unlisted record d) :=
  ⟨fun _ _ => .pure (.ok record), fun _ _ _ _ => .pure (.error h)⟩

/-- An exception of another program. -/
def Raised.forbidden : Raised := { kind := "PermissionError", message := "db1: role admin required" }

/-- It is not seen whether a store is out of reach, or another raises an exception of its own. -/
theorem states_masked : ∃ s s' api log,
    Service.ofSpecs Specs.states (.unlisted (.obj [("state-code", .str "a-b")])
      (Fault.unreachable "no route to db1" none)) { maskInternalErrors := true } .english
        = .ok (s, api, log) ∧
    Service.ofSpecs Specs.states (.unlisted (.obj [("state-code", .str "a-b")]) Raised.forbidden)
      { maskInternalErrors := true } .english = .ok (s', api, log) ∧
    ∀ body headers,
      (s.handle body headers ()).1.toValue = (s'.handle body headers ()).1.toValue := by
  let config : ServiceConfig := { maskInternalErrors := true }
  have parts := compile_states
  rcases compiled : compile ⟨.english, config.searchDepth⟩ Specs.states with e | ⟨api, log⟩
  · rw [show compile {} Specs.states = .error e from compiled] at parts
    cases parts
  · rw [show compile {} Specs.states = .ok (api, log) from compiled] at parts
    have proper : ∀ s ∈ api.names, Naming.isName s = true :=
      List.all_eq_true.mp (Prod.mk.inj (Except.ok.inj parts)).1
    obtain ⟨s, built⟩ := (Service.exists_ofSpecs_iff compiled (Store.unlisted
      (.obj [("state-code", .str "a-b")]) (Fault.unreachable "no route to db1" none))).mpr proper
    have plain : BothPlain (Fault.unreachable "no route to db1" none) Raised.forbidden :=
      ⟨Fault.isPlain _, by decide, rfl⟩
    obtain ⟨s', built', -, handled⟩ := masking_hides_faults GraphQL.confinesTexts
      (Store.inStep_unlisted (.obj [("state-code", .str "a-b")]) plain) rfl built
    exact ⟨s, s', api, log, built, built', fun body headers => (handled body headers () () rfl).1⟩

end ResourceGraph
