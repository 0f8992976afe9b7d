import ResourceGraph.Proofs.Api.Parts
import ResourceGraph.Resolver

/-!
# Values and aliases

An enumeration is generated from raw values: each is one of its values or one of its aliases, under
the name that it is given, and an alias has the name of a value. So every alias can be replaced by
the raw value of its name.
-/

namespace ResourceGraph

theorem mapM_eq_ok_map {α β ε : Type} {f : α → Except ε β} {g : α → β} {as : List α}
    (h : ∀ a ∈ as, f a = .ok (g a)) : as.mapM f = .ok (as.map g) := by
  induction as with
  | nil => rfl
  | cons a as ih =>
      obtain ⟨ha, has⟩ := List.forall_mem_cons.mp h
      rw [List.mapM_cons, ha, ih has]
      rfl

namespace EnumDef

/-- The enumeration has these raw values, each as a value or as an alias of one. -/
structure Collects (e : EnumDef) (values : List Value) : Prop where
  mem : ∀ u, u ∈ e.values ++ e.aliases ↔ u ∈ values.map valueOf
  aliased : ∀ a ∈ e.aliases, a.name ∈ e.values.map EnumValue.name

theorem Collects.addValue {e : EnumDef} {values : List Value} (h : e.Collects values) (v : Value) :
    (e.addValue v).Collects (values ++ [v]) := by
  unfold EnumDef.addValue
  dsimp only
  have mem (u : EnumValue) : u ∈ e.values ∨ u ∈ e.aliases ↔ u ∈ values.map valueOf := by
    rw [← List.mem_append]
    exact h.mem u
  split
  · rename_i repeated
    refine ⟨fun u => ?_, fun a ha => ?_⟩
    · simp only [List.mem_append, List.map_append, List.map_cons, List.map_nil, ← mem, or_assoc]
      rfl
    · rcases List.mem_append.mp ha with ha | ha
      · exact h.aliased a ha
      · obtain ⟨u, hu, hn⟩ := List.any_eq_true.mp repeated
        rw [List.mem_singleton.mp ha]
        exact List.mem_map.mpr ⟨u, hu, beq_iff_eq.mp hn⟩
  · refine ⟨fun u => ?_, fun a ha => ?_⟩
    · simp only [List.mem_append, List.map_append, List.map_cons, List.map_nil, ← mem]
      exact or_right_comm
    · rw [List.map_append]
      exact List.mem_append_left _ (h.aliased a ha)

theorem collects_ofValues (name : String) (values : List Value) :
    (ofValues name values).Collects values := by
  have collected (rest : List Value) {e : EnumDef} {done : List Value} (h : e.Collects done) :
      (rest.foldl EnumDef.addValue e).Collects (done ++ rest) := by
    induction rest generalizing e done with
    | nil => simpa using h
    | cons v rest ih => simpa using ih (h.addValue v)
  have start : ({ name := name, values := [] } : EnumDef).Collects [] := ⟨by simp, by simp⟩
  exact collected values start

/-- The raw value of a name. -/
def raw (e : EnumDef) (name : String) : Value :=
  (Keyed.find? name (e.values.map fun v => (v.name, v.value))).getD .null

/-- Each alias with the raw value that is put in its place. -/
def replacements (e : EnumDef) : List (Value × Value) :=
  e.aliases.map fun a => (a.value, e.raw a.name)

/-- A value is replaced by the raw value of an alias that equals it, and else stays as it is. -/
theorem substitute_eq (e : EnumDef) (v : Value) :
    (∃ a ∈ e.aliases, v.sameKind a.value = true ∧ v.looseEq a.value = true ∧
      Resolver.substitute e.replacements v = e.raw a.name) ∨
    (∀ a ∈ e.aliases, ¬ (v.sameKind a.value = true ∧ v.looseEq a.value = true)) ∧
      Resolver.substitute e.replacements v = v := by
  unfold Resolver.substitute
  cases found : e.replacements.find? fun t => v.sameKind t.1 && v.looseEq t.1 with
  | some t =>
      obtain ⟨a, ha, rfl⟩ := List.mem_map.mp (List.mem_of_find?_eq_some found)
      obtain ⟨kind, loose⟩ := Bool.and_eq_true_iff.mp
        (List.find?_some (p := fun t : Value × Value => v.sameKind t.1 && v.looseEq t.1) found)
      exact Or.inl ⟨a, ha, kind, loose, rfl⟩
  | none =>
      refine Or.inr ⟨fun a ha both => ?_, rfl⟩
      have there : (a.value, e.raw a.name) ∈ e.replacements :=
        List.mem_map_of_mem (f := fun a : EnumValue => (a.value, e.raw a.name)) ha
      exact List.find?_eq_none.mp found _ there (Bool.and_eq_true_iff.mpr both)

theorem keys_values (e : EnumDef) :
    Keyed.keys (e.values.map fun v => (v.name, v.value)) = e.values.map EnumValue.name :=
  List.map_map ..

theorem raw_of_mem {e : EnumDef} (distinct : (e.values.map EnumValue.name).Nodup) {u : EnumValue}
    (hu : u ∈ e.values) : e.raw u.name = u.value := by
  have there : (u.name, u.value) ∈ e.values.map fun v => (v.name, v.value) :=
    List.mem_map_of_mem (f := fun v : EnumValue => (v.name, v.value)) hu
  rw [raw, Keyed.find?_of_mem (e.keys_values ▸ distinct) there]
  rfl

/-- No alias is without a raw value of its name. -/
theorem substitutions_eq {e : EnumDef} (distinct : (e.values.map EnumValue.name).Nodup)
    (aliased : ∀ a ∈ e.aliases, a.name ∈ e.values.map EnumValue.name) :
    Resolver.substitutions e = .ok e.replacements := by
  refine mapM_eq_ok_map fun a ha => ?_
  obtain ⟨u, hu, same⟩ := List.mem_map.mp (aliased a ha)
  have there : (a.name, u.value) ∈ e.values.map fun v => (v.name, v.value) :=
    same ▸ List.mem_map_of_mem (f := fun v : EnumValue => (v.name, v.value)) hu
  rw [Keyed.ofPairs_eq (e.keys_values ▸ distinct),
    Keyed.find?_of_mem (e.keys_values ▸ distinct) there, ← same, raw_of_mem distinct hu]

end EnumDef

end ResourceGraph
