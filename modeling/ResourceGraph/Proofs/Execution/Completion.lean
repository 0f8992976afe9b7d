import ResourceGraph.Execution.Basic
import ResourceGraph.Proofs.TypeSystem.Reading

/-!
# Completion of values of enumerations

What becomes of a value, or of a list of values, in a field that has an enumeration for its type.
The errors that are reported of a list are of those of its items that have no name.
-/

namespace ResourceGraph.Execution

open Query

variable {σ : Type}

theorem bind_run {α β : Type} (x : Exec σ α) (f : α → Exec σ β) (s : Progress σ) :
    (x >>= f) s = f (x s).1 (x s).2 := rfl

/-- The name that stands for a value of an enumeration: that of the first member with an equal value.
Null has none. -/
def nameOf? (ms : List EnumMember) (v : Value) : Option String :=
  if v.isNull then none else (ms.find? fun m => m.internal.innerEq v).map EnumMember.name

/-- The part of the answer for a value of an enumeration, if there is one. -/
def enumAnswer (enum : String) (ms : List EnumMember) (v : Value) : Except String Value :=
  if v.isNull then .ok .null else memberName enum ms v

section

variable {t : TypeSystem} {object : String → Datum → Place → Exec σ Outcome} {type enum : String}
  {ms : List EnumMember}

theorem enumAnswer_eq_str_iff {v : Value} {name : String} :
    enumAnswer enum ms v = .ok (.str name) ↔ nameOf? ms v = some name := by
  unfold enumAnswer nameOf? memberName
  cases v.isNull with
  | true => simp
  | false => cases ms.find? fun m => m.internal.innerEq v <;> simp

theorem complete_enum (ht : t.type? type = some (.enum enum ms)) (v : Value) (p : Place)
    (s : Progress σ) :
    complete t object (.named type) (.value v) p s = (ofMessage p (enumAnswer enum ms v), s) := by
  unfold complete enumAnswer
  cases null : v.isNull with
  | true =>
      rw [show Datum.isNull (.value v) = true from null]
      rfl
  | false =>
      rw [show Datum.isNull (.value v) = false from null, ht]
      rfl

/-- A value is the answer of a field exactly if it is what the field is completed to, whether null
is allowed or not. -/
theorem settled_eq_ok_iff {inner : TypeRef} (nullable : inner.isNonNull = false) {d : Datum}
    {p : Place} {s s' s'' : Progress σ} {o : Outcome} (h : complete t object inner d p s = (o, s'))
    (optional : Bool) {w : Value} (some : w.isNull = false) :
    (complete t object (.orNull optional inner) d p >>= settle (.orNull optional inner)) s
        = (.ok w, s'') ↔ o = .ok w ∧ s' = s'' := by
  have pair {a : Outcome} : (a, s') = (.ok w, s'') ↔ a = .ok w ∧ s' = s'' := Prod.mk.injEq .. ▸ .rfl
  have absent : Except.ok Value.null ≠ (Except.ok w : Outcome) := by
    intro h
    cases h
    cases some
  rw [bind_run]
  cases optional with
  | true =>
      rw [show TypeRef.orNull true inner = inner from rfl, h]
      cases o with
      | ok v => exact pair
      | error e =>
          rw [settle, nullable]
          exact iff_of_false (fun h => absent (congrArg Prod.fst h)) (by simp)
  | false =>
      rw [show TypeRef.orNull false inner = .nonNull inner from rfl, complete, bind_run, h]
      cases o with
      | ok v =>
          by_cases null : v.isNull = true
          · dsimp only
            rw [if_pos null]
            refine iff_of_false (fun h => by cases congrArg Prod.fst h) fun h => ?_
            rw [Except.ok.inj h.1, some] at null
            cases null
          · dsimp only
            rw [if_neg null]
            exact pair
      | error e => exact iff_of_false (fun h => by cases congrArg Prod.fst h) (by simp)

/-- Whether null is allowed or not, the store is left as the completion of the value leaves it. -/
theorem settled_store {inner : TypeRef} {d : Datum} {p : Place} {s s' : Progress σ} {o : Outcome}
    (h : complete t object inner d p s = (o, s')) (optional : Bool) :
    ((complete t object (.orNull optional inner) d p >>= settle (.orNull optional inner)) s).2.store
      = s'.store := by
  have settled (type : TypeRef) (o : Outcome) (s : Progress σ) :
      (settle type o s).2.store = s.store := by
    cases o with
    | ok v => rfl
    | error e => unfold settle; cases type.isNonNull <;> rfl
  rw [bind_run]
  cases optional with
  | true => rw [show TypeRef.orNull true inner = inner from rfl, h, settled]
  | false =>
      rw [show TypeRef.orNull false inner = .nonNull inner from rfl, complete, bind_run, h]
      cases o with
      | ok v => cases null : v.isNull <;> simp only [null] <;> rfl
      | error e => rfl

theorem settled_enum_iff (ht : t.type? type = some (.enum enum ms)) (optional : Bool) (v : Value)
    (p : Place) (name : String) (s s' : Progress σ) :
    (complete t object (.orNull optional (.named type)) (.value v) p
        >>= settle (.orNull optional (.named type))) s = (.ok (.str name), s')
      ↔ nameOf? ms v = some name ∧ s = s' := by
  rw [settled_eq_ok_iff rfl (complete_enum ht v p s) optional rfl, ← enumAnswer_eq_str_iff]
  refine and_congr_left fun _ => ?_
  cases enumAnswer enum ms v with
  | ok w => rw [ofMessage, Except.ok.injEq, Except.ok.injEq]
  | error m => exact iff_of_false nofun nofun

/-- The answer for an item of a list: its name, or null. -/
def itemAnswer (ms : List EnumMember) (v : Value) : Value := (nameOf? ms v).elim .null .str

/-- An error ends at the item. -/
theorem itemAnswer_eq (enum : String) (ms : List EnumMember) (v : Value) :
    (∃ w, enumAnswer enum ms v = .ok w ∧ itemAnswer ms v = w) ∨
      ∃ m, enumAnswer enum ms v = .error m ∧ nameOf? ms v = none ∧ itemAnswer ms v = .null := by
  unfold itemAnswer nameOf? enumAnswer memberName
  cases v.isNull with
  | true => exact .inl ⟨.null, rfl, rfl⟩
  | false =>
      cases ms.find? fun m => m.internal.innerEq v with
      | some m => exact .inl ⟨.str m.name, rfl, rfl⟩
      | none => exact .inr ⟨_, rfl, rfl, rfl⟩

variable (object) in
/-- The errors that are reported of a list are of the items that have no name. -/
theorem completeItems_enum (ht : t.type? type = some (.enum enum ms)) (p : Place) (i : Nat)
    (vs : List Value) (s : Progress σ) :
    ∃ errors, completeItems (.named type) (complete t object (.named type)) p i (vs.map .value) s
        = (.ok (vs.map (itemAnswer ms)), { s with errors := s.errors ++ errors }) ∧
      ∀ err ∈ errors, ∃ (j : Nat) (v : Value), vs[j]? = some v ∧ nameOf? ms v = none ∧
        err.path = (.index (i + j : Nat) :: p.path).reverse := by
  induction vs generalizing i s with
  | nil => exact ⟨[], by rw [List.append_nil]; rfl, nofun⟩
  | cons v vs ih =>
      rw [List.map_cons, completeItems, bind_run, complete_enum ht, bind_run]
      rcases itemAnswer_eq enum ms v with ⟨w, answer, shown⟩ | ⟨m, answer, none, shown⟩
      · obtain ⟨errors, run, later⟩ := ih (i + 1) s
        refine ⟨errors, ?_, fun err he => ?_⟩
        · rw [answer]
          show (completeItems _ _ _ _ _ >>= _) s = _
          rw [bind_run, run, List.map_cons, shown]
          rfl
        · obtain ⟨j, u, hj, none, path⟩ := later err he
          refine ⟨j + 1, u, hj, none, ?_⟩
          rw [path, Nat.add_assoc, Nat.add_comm 1 j]
      · let place : Place := { p with path := .index i :: p.path }
        obtain ⟨errors, run, later⟩ := ih (i + 1) { s with errors := s.errors ++ [place.error m] }
        refine ⟨place.error m :: errors, ?_, List.forall_mem_cons.mpr ⟨?_, fun err he => ?_⟩⟩
        · rw [answer]
          show (completeItems _ _ _ _ _ >>= _) { s with errors := s.errors ++ [place.error m] } = _
          rw [bind_run, run, List.map_cons, shown, List.append_assoc]
          rfl
        · exact ⟨0, v, rfl, none, rfl⟩
        · obtain ⟨j, u, hj, none, path⟩ := later err he
          refine ⟨j + 1, u, hj, none, ?_⟩
          rw [path, Nat.add_assoc, Nat.add_comm 1 j]

/-- A list is answered item by item. -/
theorem settled_list (ht : t.type? type = some (.enum enum ms)) (optional : Bool)
    (vs : List Value) (p : Place) (s : Progress σ) :
    ∃ errors, (complete t object (.orNull optional (.list (.named type))) (.value (.arr vs)) p
        >>= settle (.orNull optional (.list (.named type)))) s
          = (.ok (.arr (vs.map (itemAnswer ms))), { s with errors := s.errors ++ errors }) ∧
      ∀ err ∈ errors, ∃ (j : Nat) (v : Value), vs[j]? = some v ∧ nameOf? ms v = none ∧
        err.path = (.index j :: p.path).reverse := by
  obtain ⟨errors, run, later⟩ := completeItems_enum object ht p 0 vs s
  have completed : complete t object (.list (.named type)) (.value (.arr vs)) p s
      = (.ok (.arr (vs.map (itemAnswer ms))), { s with errors := s.errors ++ errors }) := by
    rw [complete]
    show (completeItems _ _ _ _ _ >>= _) s = _
    rw [bind_run, run]
    rfl
  refine ⟨errors, (settled_eq_ok_iff rfl completed optional rfl).mpr ⟨rfl, rfl⟩, ?_⟩
  intro err he
  obtain ⟨j, v, hj, none, path⟩ := later err he
  exact ⟨j, v, hj, none, by rw [path, Nat.zero_add]⟩

/-- What is no list is not answered by one. -/
theorem settled_not_list (optional : Bool) {members : List (String × Value)} {p : Place}
    {s s' : Progress σ} {vs : List Value} :
    (complete t object (.orNull optional (.list (.named type))) (.value (.obj members)) p
        >>= settle (.orNull optional (.list (.named type)))) s ≠ (.ok (.arr vs), s') := by
  intro h
  have completed := ((settled_eq_ok_iff rfl rfl optional rfl).mp h).1
  rw [complete] at completed
  cases completed

end

/-- The answer to a field without arguments is what its value is completed to. -/
theorem field_run {e : Engine σ} {object : String → List (List Selection) → Datum → Place →
      Exec σ Outcome} {type : String} {source d : Datum} {path : List PathStep} {key : String}
    {use : Selected} {uses : List Selected} {f : OutputField} {s s' : Progress σ}
    (known : e.types.field? type use.name = some f) (plain : f.arguments = [])
    (read : resolve e ⟨type, f.name, (use :: uses).map (·.offset), .key key :: path⟩ source [] s
      = (.ok d, s')) :
    field e object type source path key (use :: uses) s
      = Prod.map (Except.map fun v => some (key, v)) id
        ((complete e.types (object · ((use :: uses).map (·.body))) f.type d
            ⟨type, f.name, (use :: uses).map (·.offset), .key key :: path⟩
          >>= settle f.type) s') := by
  unfold field
  dsimp only
  rw [known]
  dsimp only
  rw [plain]
  show (resolve e _ source [] >>= _) s = _
  rw [bind_run, read]
  rfl

end ResourceGraph.Execution
