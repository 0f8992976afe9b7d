import Mathlib.Data.List.Forall2
import ResourceGraph.GraphQL

/-!
# Executions in step

Two executions of one request, with resolvers that give the same values and fail together, but with
exceptions of their own. Of an engine it is relied on that only the texts of the errors at these
fields tell the exceptions. Of the engine at hand this is proved: both executions go through the same
fields, lose the same parts of the answer, and report errors at the same places.
-/

namespace ResourceGraph

variable {σ τ α β α' β' ε δ : Type} {R : σ → τ → Prop}

/-! ## Computations in step -/

/-- From related states the computations have related results, and they leave related states. -/
def InStep (R : σ → τ → Prop) (V : α → β → Prop) (x : StateM σ α) (y : StateM τ β) : Prop :=
  ∀ s t, R s t → V (x s).1 (y t).1 ∧ R (x s).2 (y t).2

namespace InStep

variable {V : α → β → Prop} {W : α' → β' → Prop}

theorem pure {a : α} {b : β} (h : V a b) : InStep R V (Pure.pure a) (Pure.pure b) :=
  fun _ _ related => ⟨h, related⟩

theorem bind {x : StateM σ α} {y : StateM τ β} {f : α → StateM σ α'} {g : β → StateM τ β'}
    (first : InStep R V x y) (rest : ∀ a b, V a b → InStep R W (f a) (g b)) :
    InStep R W (x >>= f) (y >>= g) := by
  intro s t related
  obtain ⟨results, states⟩ := first s t related
  exact rest _ _ results _ _ states

end InStep

/-- Both are the same value, or both are errors, and related. -/
inductive SameEnd (E : ε → δ → Prop) : Except ε α → Except δ α → Prop
  | ok (a : α) : SameEnd E (.ok a) (.ok a)
  | error {e : ε} {d : δ} (h : E e d) : SameEnd E (.error e) (.error d)

theorem SameEnd.map {E : ε → δ → Prop} {x : Except ε α} {y : Except δ α} (h : SameEnd E x y)
    (f : α → β) : SameEnd E (x.map f) (y.map f) := by
  cases h with
  | ok a => exact .ok (f a)
  | error h => exact .error h

namespace Query.QueryError

/-- The errors are the same, or they are of one field, bring no code, and differ in their texts. -/
def SameButText (e f : QueryError) : Prop :=
  e = f ∨ e.path ≠ [] ∧ e.code = .null ∧ f = { e with message := f.message }

theorem SameButText.refl (e : QueryError) : e.SameButText e := .inl rfl

end Query.QueryError

/-! ## What is relied on -/

/-- Neither is an error of the engine's own, and neither brings a code. -/
def Raised.BothPlain (x y : Raised) : Prop := x.IsPlain ∧ y.IsPlain

namespace Execution

open Query TypeSystem

/-- The resolvers answer in step. -/
def FieldResolver.InStep (R : σ → τ → Prop) (r : FieldResolver σ) (r' : FieldResolver τ) : Prop :=
  ∀ call, ResourceGraph.InStep R (SameEnd Raised.BothPlain) (r call) (r' call)

/-- Each field has a resolver in both executions or in neither, and they answer in step. -/
def ResolversInStep (R : σ → τ → Prop) (r? : FieldResolvers σ) (r'? : FieldResolvers τ) : Prop :=
  ∀ type field, Option.Rel (FieldResolver.InStep R) (r? type field) (r'? type field)

/-- The same data, and the same errors but for texts. -/
structure AnswersAlike (x y : Value × List QueryError) : Prop where
  data : x.1 = y.1
  errors : List.Forall₂ QueryError.SameButText x.2 y.2

end Execution

/-- With resolvers in step, nothing but the texts of errors at fields tells the executions apart. -/
def GraphQL.ConfinesTexts [GraphQL] : Prop :=
  ∀ {σ τ : Type} {R : σ → τ → Prop} {r? : Execution.FieldResolvers σ}
    {r'? : Execution.FieldResolvers τ}, Execution.ResolversInStep R r? r'? →
    ∀ types document request, InStep R Execution.AnswersAlike
      (GraphQL.execute types r? document request) (GraphQL.execute types r'? document request)

namespace Execution

open Query TypeSystem

/-! ## Progress -/

/-- The same errors are reported but for texts. -/
structure Progress.Alike (R : σ → τ → Prop) (s : Progress σ) (t : Progress τ) : Prop where
  store : R s.store t.store
  errors : List.Forall₂ QueryError.SameButText s.errors t.errors

theorem Place.sameButText_error (p : Place) (field : p.path ≠ []) (m m' : String) :
    (p.error m).SameButText (p.error m') :=
  .inr ⟨mt List.reverse_eq_nil_iff.mp field, rfl, rfl⟩

abbrev SameOutcome : Except QueryError α → Except QueryError α → Prop :=
  SameEnd QueryError.SameButText

theorem SameOutcome.ofMessage (p : Place) (x : Except String Value) :
    SameOutcome (ofMessage p x) (ofMessage p x) := by
  cases x with
  | ok v => exact .ok v
  | error m => exact .error (.refl _)

theorem inStep_report {e f : QueryError} (h : e.SameButText f) :
    InStep (Progress.Alike R) (fun _ _ => True) (report e) (report f) := by
  intro s t alike
  exact ⟨trivial, alike.store, List.rel_append alike.errors (.cons h .nil)⟩

theorem inStep_settle (type : TypeRef) {o o' : Outcome} (h : SameOutcome o o') :
    InStep (Progress.Alike R) SameOutcome (settle type o) (settle type o') := by
  cases h with
  | ok v => exact .pure (.ok v)
  | error h =>
      rw [settle, settle]
      split
      · exact .pure (.error h)
      · exact (inStep_report h).bind fun _ _ _ => .pure (.ok Value.null)

/-! ## Values -/

theorem inStep_completeItems (type : TypeRef) {item : Datum → Place → Exec σ Outcome}
    {item' : Datum → Place → Exec τ Outcome}
    (h : ∀ d p, InStep (Progress.Alike R) SameOutcome (item d p) (item' d p)) (p : Place) (i : Nat)
    (ds : List Datum) :
    InStep (Progress.Alike R) SameOutcome (completeItems type item p i ds)
      (completeItems type item' p i ds) := by
  induction ds generalizing i with
  | nil => exact .pure (.ok [])
  | cons d ds ih =>
      rw [completeItems, completeItems]
      refine (h d _).bind fun o o' completed => ?_
      refine (inStep_settle type completed).bind fun o o' settled => ?_
      cases settled with
      | error h => exact .pure (.error h)
      | ok v => exact (ih (i + 1)).bind fun _ _ rest => .pure (rest.map _)

theorem inStep_complete (t : TypeSystem) {object : String → Datum → Place → Exec σ Outcome}
    {object' : String → Datum → Place → Exec τ Outcome}
    (h : ∀ type d p, InStep (Progress.Alike R) SameOutcome (object type d p) (object' type d p))
    (type : TypeRef) (d : Datum) (p : Place) :
    InStep (Progress.Alike R) SameOutcome (complete t object type d p)
      (complete t object' type d p) := by
  induction type generalizing d p with
  | nonNull inner ih =>
      rw [complete, complete]
      refine (ih d p).bind fun o o' completed => ?_
      cases completed with
      | error h => exact .pure (.error h)
      | ok v =>
          dsimp only
          split
          · exact .pure (.error (.refl _))
          · exact .pure (.ok v)
  | list item ih =>
      rw [complete, complete]
      split
      · exact .pure (.ok Value.null)
      · cases d.items? with
        | none => exact .pure (.error (.refl _))
        | some ds =>
            exact (inStep_completeItems item ih p 0 ds).bind fun _ _ items => .pure (items.map _)
  | named name =>
      rw [complete, complete]
      split
      · exact .pure (.ok Value.null)
      · split
        · exact .pure (SameOutcome.ofMessage p _)
        · exact .pure (SameOutcome.ofMessage p _)
        · exact h _ d p
        · exact .pure (.ok Value.null)

/-! ## Fields -/

variable {r? : FieldResolvers σ} {r'? : FieldResolvers τ}

theorem inStep_ask {r : FieldResolver σ} {r' : FieldResolver τ} (h : r.InStep R r')
    (call : FieldCall) :
    InStep (Progress.Alike R) (SameEnd Raised.BothPlain) (ask r call) (ask r' call) := by
  intro s t alike
  obtain ⟨answers, states⟩ := h call _ _ alike.store
  exact ⟨answers, states, alike.errors⟩

variable (scope : Scope) (headers : Keyed.Entries Value)

/-- A resolver fails at the place of a field, so what is reported of it is internal. -/
theorem inStep_resolve (h : ResolversInStep R r? r'?) {p : Place} (below : p.path ≠ [])
    (source : Datum) (args : Keyed.Entries Value) :
    InStep (Progress.Alike R) SameOutcome (resolve ⟨scope, r?, headers⟩ p source args)
      (resolve ⟨scope, r'?, headers⟩ p source args) := by
  unfold resolve
  split
  · exact .pure (.ok _)
  split
  · exact .pure (.ok _)
  split
  · exact .pure (.ok _)
  have both := h p.type p.field
  dsimp only
  generalize r? p.type p.field = r, r'? p.type p.field = r' at both
  cases both with
  | none => exact .pure (.ok _)
  | some h =>
      refine (inStep_ask h _).bind fun x y answered => ?_
      cases answered with
      | ok v => exact .pure (.ok _)
      | error plain =>
          refine .pure (.error ?_)
          rw [plain.1.2, plain.2.2]
          exact p.sameButText_error below _ _

theorem inStep_field (h : ResolversInStep R r? r'?)
    {object : String → List (List Selection) → Datum → Place → Exec σ Outcome}
    {object' : String → List (List Selection) → Datum → Place → Exec τ Outcome}
    (objects : ∀ type bodies d p, InStep (Progress.Alike R) SameOutcome (object type bodies d p)
      (object' type bodies d p))
    (type : String) (source : Datum) (path : List PathStep) (key : String) (uses : List Selected) :
    InStep (Progress.Alike R) SameOutcome
      (field ⟨scope, r?, headers⟩ object type source path key uses)
      (field ⟨scope, r'?, headers⟩ object' type source path key uses) := by
  unfold field
  cases uses with
  | nil => exact .pure (.ok none)
  | cons first rest =>
      dsimp only
      cases scope.types.field? type first.name with
      | none => exact .pure (.ok none)
      | some f =>
          dsimp only
          have answered {x : Exec σ Outcome} {y : Exec τ Outcome}
              (h : InStep (Progress.Alike R) SameOutcome x y) :
              InStep (Progress.Alike R) SameOutcome
                (x >>= fun o => settle f.type o >>= fun o => pure (o.map fun v => some (key, v)))
                (y >>= fun o => settle f.type o >>= fun o => pure (o.map fun v => some (key, v))) :=
            h.bind fun _ _ completed =>
              (inStep_settle f.type completed).bind fun _ _ settled => .pure (settled.map _)
          split
          · exact answered (.pure (.error (.refl _)))
          · refine (inStep_resolve scope headers h (List.cons_ne_nil _ _) source _).bind
              fun _ _ resolved => ?_
            cases resolved with
            | error h => exact answered (.pure (.error h))
            | ok d =>
                exact answered
                  (inStep_complete scope.types (fun type d p => objects type _ d p) f.type d _)

theorem inStep_fields
    {one : String → List Selected → Exec σ (Except QueryError (Option (String × Value)))}
    {one' : String → List Selected → Exec τ (Except QueryError (Option (String × Value)))}
    (h : ∀ key uses, InStep (Progress.Alike R) SameOutcome (one key uses) (one' key uses))
    (groups : Groups) :
    InStep (Progress.Alike R) SameOutcome (fields one groups) (fields one' groups) := by
  induction groups with
  | nil => exact .pure (.ok [])
  | cons group rest ih =>
      rw [fields, fields]
      refine (h group.1 group.2).bind fun _ _ first => ?_
      cases first with
      | error h => exact .pure (.error h)
      | ok v => exact ih.bind fun _ _ others => .pure (others.map _)

theorem inStep_object (h : ResolversInStep R r? r'?) (depth : Nat) (type : String) (source : Datum)
    (path : List PathStep) (groups : Groups) :
    InStep (Progress.Alike R) SameOutcome
      (object ⟨scope, r?, headers⟩ depth type source path groups)
      (object ⟨scope, r'?, headers⟩ depth type source path groups) := by
  induction depth generalizing type source path groups with
  | zero => exact .pure (.ok Value.null)
  | succ depth ih =>
      rw [object, object]
      refine (inStep_fields (inStep_field scope headers h (fun type bodies d p => ?_)
        type source path) groups).bind fun _ _ members => .pure (members.map _)
      unfold below
      cases groupsOf scope type bodies with
      | error c => exact .pure (.error (.refl _))
      | ok groups => exact ih type d p.path groups

/-! ## Operations -/

/-- Both executions answer with the same data. -/
theorem inStep_operation (h : ResolversInStep R r? r'?) (o : Operation) (root : String) :
    InStep (Progress.Alike R) Eq (operation ⟨scope, r?, headers⟩ o root)
      (operation ⟨scope, r'?, headers⟩ o root) := by
  unfold operation
  dsimp only
  cases groupsOf scope root [o.body] with
  | error c => exact (inStep_report (.refl _)).bind fun _ _ _ => .pure rfl
  | ok groups =>
      refine (inStep_object scope headers h _ root .null [] groups).bind fun _ _ completed => ?_
      cases completed with
      | ok v => exact .pure rfl
      | error h => exact (inStep_report h).bind fun _ _ _ => .pure rfl

theorem inStep_run (h : ResolversInStep R r? r'?) (t : TypeSystem) (d : Document) (r : Request) :
    InStep R AnswersAlike (run t r? d r) (run t r'? d r) := by
  intro store store' related
  unfold run
  rcases start t r d with es | ⟨o, vs⟩
  · exact ⟨⟨rfl, List.forall₂_same.mpr fun e _ => .refl e⟩, related⟩
  · have begun : Progress.Alike R ⟨store, []⟩ ⟨store', []⟩ := ⟨related, .nil⟩
    obtain ⟨data, alike⟩ :=
      inStep_operation ⟨t, d, vs⟩ r.headers h o ((t.rootType? o.kind).getD "") _ _ begun
    exact ⟨⟨data, alike.errors⟩, alike.store⟩

end Execution

/-- The engine at hand confines them. -/
theorem GraphQL.confinesTexts : GraphQL.ConfinesTexts := Execution.inStep_run

end ResourceGraph
