import ResourceGraph.GraphQL
import ResourceGraph.Proofs.Execution.Completion

/-!
# Serialization of enumerations

What a service relies on when it answers with the names of enumerations: whatever the engine, a value
is answered by the name of the first member that has an equal value. Of the engine at hand this is
proved.
-/

namespace ResourceGraph

open Query Execution

variable {σ : Type}

namespace FieldResult

/-- The field is answered by a name, and without one by no name. -/
def Shows (r : FieldResult) : Option String → Prop
  | some name => r = ⟨.ok (some (.str name)), []⟩
  | none => ∀ name, r.value ≠ .ok (some (.str name))

/-- The field is answered by a list of names. An item without a name is null, and only of such items
are errors reported. -/
def ShowsItems (r : FieldResult) (place : List PathStep) (names : List (Option String)) : Prop :=
  r.value = .ok (some (.arr (names.map fun name => name.elim .null .str))) ∧
    ∀ err ∈ r.errors, ∃ i : Nat, names[i]? = some none ∧ err.path = place ++ [.index i]

end FieldResult

/-- A field without arguments gives a value for a record: its resolver answers with the value, or it
has none and the value is the member of its name. -/
structure Gives (t : TypeSystem) (resolver? : FieldResolvers σ) (type : String) (f : OutputField)
    (members : List (String × Value)) (v : Value) : Prop where
  field : ∃ fields, t.objectFields? type = some fields ∧ f ∈ fields ∧
    (fields.map OutputField.name).Nodup
  named : Naming.isName f.name = true
  plain : f.arguments = []
  resolved : match resolver? type f.name with
    | some r => ∀ headers store, r ⟨.obj members, [], headers⟩ store = (.ok v, store)
    | none => (Value.obj members).get f.name = v

namespace GraphQL

/-- What holds of the result of a field wherever it is selected in a record of the type: given are
the selection, the path to the record, and the result. Nothing is asked of the store. -/
def Answers [GraphQL] (t : TypeSystem) (resolver? : FieldResolvers σ) (type field : String)
    (record : Value) (P : Selection → List PathStep → FieldResult → Prop) : Prop :=
  ∀ selection path store, fieldName selection = field → ∃ result,
    executeField t resolver? selection type record path store = (result, store) ∧
      P selection path result

/-- An enumeration is answered by the first member with an equal value, lists of it item by item,
and what is no list is not answered by one. -/
structure SerializesEnums [GraphQL] : Prop where
  value : ∀ {σ : Type} {t : TypeSystem} {resolver? : FieldResolvers σ} {type : String}
    {f : OutputField} {members : List (String × Value)} {v : Value} {optional : Bool}
    {enum name : String} {ms : List EnumMember},
    Gives t resolver? type f members v → f.type = .orNull optional (.named enum) →
    t.type? enum = some (.enum name ms) →
    Answers t resolver? type f.name (.obj members) fun _ _ result => result.Shows (nameOf? ms v)
  items : ∀ {σ : Type} {t : TypeSystem} {resolver? : FieldResolvers σ} {type : String}
    {f : OutputField} {members : List (String × Value)} {vs : List Value} {optional : Bool}
    {enum name : String} {ms : List EnumMember},
    Gives t resolver? type f members (.arr vs) → f.type = .orNull optional (.list (.named enum)) →
    t.type? enum = some (.enum name ms) →
    Answers t resolver? type f.name (.obj members) fun selection path result =>
      result.ShowsItems (path ++ [.key (key selection)]) (vs.map (nameOf? ms))
  noItems : ∀ {σ : Type} {t : TypeSystem} {resolver? : FieldResolvers σ} {type : String}
    {f : OutputField} {members others : List (String × Value)} {optional : Bool} {enum : String},
    Gives t resolver? type f members (.obj others) →
    f.type = .orNull optional (.list (.named enum)) →
    Answers t resolver? type f.name (.obj members) fun _ _ result =>
      ∀ vs, result.value ≠ .ok (some (.arr vs))

end GraphQL

namespace Execution

/-! ## Fields that are there -/

/-- Names of fields are none of those that describe types. -/
theorem ne_introspective {name : String} (named : Naming.isName name = true) :
    name ≠ TypeSystem.typenameField.name ∧ name ≠ TypeSystem.schemaField.name ∧
      name ≠ TypeSystem.typeField.name := by
  have other {reserved : String} (h : Naming.isName reserved = false) : name ≠ reserved := by
    rintro rfl
    rw [h] at named
    cases named
  exact ⟨other (by decide), other (by decide), other (by decide)⟩

theorem field?_eq {t : TypeSystem} {type : String} {fields : List OutputField}
    (known : t.objectFields? type = some fields)
    (distinct : (fields.map OutputField.name).Nodup) {f : OutputField} (hf : f ∈ fields)
    (named : Naming.isName f.name = true) : t.field? type f.name = some f := by
  obtain ⟨typename, schema, described⟩ := ne_introspective named
  have found : fields.find? (·.name == f.name) = some f := by
    cases hg : fields.find? (·.name == f.name) with
    | none => exact absurd (List.find?_eq_none.mp hg f hf) (by simp)
    | some g =>
        have same : g.name = f.name := beq_iff_eq.mp
          (List.find?_some (p := fun g : OutputField => g.name == f.name) hg)
        rw [List.inj_on_of_nodup_map distinct (List.mem_of_find?_eq_some hg) hf same]
  unfold TypeSystem.field?
  rw [if_neg fun h => schema h.1, if_neg fun h => described h.1, known]
  dsimp only
  rw [if_neg typename, found]

/-! ## The engine at hand -/

variable {t : TypeSystem} {resolver? : FieldResolvers σ} {type : String} {f : OutputField}
  {members : List (String × Value)} {v : Value}

theorem resolve_of_gives (h : Gives t resolver? type f members v) {e : Engine σ}
    (types : e.types = t) (resolvers : e.resolver? = resolver?) {p : Place} (own : p.type = type)
    (field : p.field = f.name) (before : Progress σ) :
    resolve e p (.value (.obj members)) [] before = (.ok (.value v), before) := by
  subst types resolvers own
  obtain ⟨typename, schema, described⟩ := ne_introspective h.named
  unfold resolve
  rw [field, if_neg typename, if_neg schema, if_neg described]
  have resolved := h.resolved
  cases hr : e.resolver? p.type f.name with
  | none =>
      rw [hr] at resolved
      rw [← resolved]
      rfl
  | some r =>
      rw [hr] at resolved
      dsimp only
      have asked : ask r ⟨.obj members, [], e.headers⟩ before = (.ok v, before) := by
        show ((r ⟨.obj members, [], e.headers⟩ before.store).1,
          { before with store := (r ⟨.obj members, [], e.headers⟩ before.store).2 }) = _
        rw [resolved]
      rw [bind_run, show (Datum.value (.obj members)).toValue = .obj members from rfl, asked]
      rfl

/-- A field is answered by what its value is completed to. -/
theorem runField_eq (h : Gives t resolver? type f members v) (s : FieldSelection)
    (own : s.first.name = f.name) (path : List PathStep) (store : σ) :
    ∃ (object : String → Datum → Place → Exec σ Outcome) (p : Place) (o : Outcome)
      (s' : Progress σ), p.path = .key s.key :: path.reverse ∧
      (complete t object f.type (.value v) p >>= settle f.type) ⟨store, []⟩ = (o, s') ∧
      runField t resolver? s type (.obj members) path store
        = (⟨o.map some, s'.errors⟩, s'.store) := by
  obtain ⟨fields, known, hf, distinct⟩ := h.field
  let e : Engine σ := ⟨⟨t, s.document, s.values⟩, resolver?, s.headers⟩
  let object : String → Datum → Place → Exec σ Outcome :=
    (below e (Execution.object e s.depth) · ((s.first :: s.others).map (·.body)))
  let p : Place :=
    ⟨type, f.name, (s.first :: s.others).map (·.offset), .key s.key :: path.reverse⟩
  have found : e.types.field? type s.first.name = some f :=
    own ▸ field?_eq known distinct hf h.named
  have run : field e (below e (Execution.object e s.depth)) type (.value (.obj members))
      path.reverse s.key (s.first :: s.others) ⟨store, []⟩ = _ :=
    field_run found h.plain (resolve_of_gives h rfl rfl rfl rfl ⟨store, []⟩)
  rcases settled : (complete t object f.type (.value v) p >>= settle f.type) ⟨store, []⟩ with ⟨o, s'⟩
  refine ⟨object, p, o, s', rfl, settled, ?_⟩
  unfold runField
  dsimp only
  rw [run, settled]
  cases o <;> rfl

end Execution

/-- The engine at hand answers so. -/
theorem GraphQL.serializesEnums : GraphQL.SerializesEnums where
  value := by
    intro σ t resolver? type f members v optional enum name ms h typed enumeration s path store own
    obtain ⟨object, p, o, s', -, settled, run⟩ := runField_eq h s own path store
    rw [typed] at settled
    have completed : complete t object (.named enum) (.value v) p ⟨store, []⟩ = _ :=
      complete_enum enumeration v p ⟨store, []⟩
    have kept := settled_store completed optional
    rw [settled] at kept
    refine ⟨_, run.trans (congrArg _ kept), ?_⟩
    cases shown : nameOf? ms v with
    | some name =>
        cases settled.symm.trans ((settled_enum_iff enumeration optional v p name _ _).mpr
          ⟨shown, rfl⟩)
        rfl
    | none =>
        intro name answer
        cases o <;> cases answer
        cases shown.symm.trans ((settled_enum_iff enumeration optional v p name _ _).mp settled).1
  items := by
    intro σ t resolver? type f members vs optional enum name ms h typed enumeration s path store own
    obtain ⟨object, p, o, s', place, settled, run⟩ := runField_eq h s own path store
    rw [typed] at settled
    obtain ⟨errors, listed, later⟩ := settled_list enumeration optional vs p ⟨store, []⟩
    cases settled.symm.trans listed
    refine ⟨_, run, ?_, fun err he => ?_⟩
    · rw [List.map_map]
      rfl
    · obtain ⟨i, v, item, none, path'⟩ := later err he
      refine ⟨i, ?_, ?_⟩
      · rw [List.getElem?_map, item, Option.map_some, none]
      · rw [path', place, List.reverse_cons, List.reverse_cons, List.reverse_reverse]
        rfl
  noItems := by
    intro σ t resolver? type f members others optional enum h typed s path store own
    obtain ⟨object, p, o, s', -, settled, run⟩ := runField_eq h s own path store
    rw [typed] at settled
    have completed : complete t object (.list (.named enum)) (.value (.obj others)) p ⟨store, []⟩
        = _ := rfl
    have kept := settled_store completed optional
    rw [settled] at kept
    refine ⟨_, run.trans (congrArg _ kept), fun vs answer => ?_⟩
    cases o <;> cases answer
    exact settled_not_list optional settled

end ResourceGraph
