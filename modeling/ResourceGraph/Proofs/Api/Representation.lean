import ResourceGraph.Proofs.Api.Aliases
import ResourceGraph.Proofs.Execution.Completion
import ResourceGraph.Proofs.TypeSystem.Bound
import ResourceGraph.Proofs.Value.Equality

/-!
# Which raw values an enumeration represents

A raw value is answered by the name that was made for it only if the name leads back to it: a value
of the enumeration has the name, and it is found before any other that equals it. Equality goes
across kinds, so a number may stand in the way of a truth value.
-/

namespace ResourceGraph.EnumDef

open Value Execution

/-- The name of a raw value leads back to it: a value of the enumeration has the name, it is not
null, the raw value equals it or is an alias of it, and no value before equals it. -/
def Represents (e : EnumDef) (v : Value) : Prop :=
  ∃ before raw after, e.values = before ++ ⟨enumValueName v, raw⟩ :: after ∧ raw ≠ .null ∧
    (raw.innerEq v = true ∨ ∃ a, ⟨enumValueName v, a⟩ ∈ e.aliases ∧ v.sameKind a = true ∧
      v.looseEq a = true) ∧
    ∀ u ∈ before, ¬ u.value.innerEq raw = true

/-! ## Looking up a name -/

theorem enumValueName_null : enumValueName .null = "_null" := by decide

theorem enumValueName_str_null : enumValueName (.str "_null") = "_null" := by decide

theorem isNull_iff {v : Value} : v.isNull = true ↔ v = .null := by
  cases v <;> simp [Value.isNull]

theorem internal_of_ne_null {u : EnumValue} (some : u.value ≠ .null) :
    u.member.internal = u.value := by
  unfold EnumMember.internal EnumValue.member
  exact if_neg (mt isNull_iff.mp some)

/-- A member is not found for a value of another name by the name that it has in place of null. -/
theorem internal_innerEq {u : EnumValue} (own : u.name = enumValueName u.value) {w : Value}
    (other : u.name ≠ enumValueName w) : u.member.internal.innerEq w = u.value.innerEq w := by
  by_cases null : u.value = .null
  · have named : u.name = "_null" := by rw [own, null, enumValueName_null]
    have inside : u.member.internal = .str "_null" := by
      rw [EnumMember.internal, EnumValue.member, null, ← named]
      rfl
    rw [inside, null]
    have first : (Value.str "_null").innerEq w = false := by
      refine Bool.eq_false_iff.mpr fun h => other ?_
      cases equal_of_innerEq rfl h with
      | str => rw [named, enumValueName_str_null]
      | number hv _ _ => cases hv
    have second : Value.null.innerEq w = false := by
      refine Bool.eq_false_iff.mpr fun h => other ?_
      cases equal_of_innerEq rfl h with
      | null => rw [named, enumValueName_null]
      | number hv _ _ => cases hv
    rw [first, second]
  · rw [internal_of_ne_null null]

section

variable {e : EnumDef} (own : ∀ u ∈ e.values, u.name = enumValueName u.value)
  (distinct : (e.values.map EnumValue.name).Nodup)
include own distinct

/-- A value has its name exactly if the first value that it equals has the name. -/
theorem nameOf?_iff {w : Value} (nonnull : w ≠ .null) :
    nameOf? (e.values.map EnumValue.member) w = some (enumValueName w) ↔
      ∃ before raw after, e.values = before ++ ⟨enumValueName w, raw⟩ :: after ∧
        (EnumValue.mk (enumValueName w) raw).member.internal.innerEq w = true ∧
        ∀ u ∈ before, ¬ u.value.innerEq w = true := by
  have others {before after : List EnumValue} {raw : Value}
      (split : e.values = before ++ ⟨enumValueName w, raw⟩ :: after) {u : EnumValue}
      (hu : u ∈ before) : u.member.internal.innerEq w = u.value.innerEq w := by
    refine internal_innerEq (own u (split ▸ List.mem_append_left _ hu)) fun same => ?_
    rw [split, List.map_append, List.nodup_append] at distinct
    exact distinct.2.2 _ (List.mem_map_of_mem hu) _ (List.mem_cons_self ..) same
  rw [nameOf?, if_neg (mt isNull_iff.mp nonnull), List.find?_map]
  constructor
  · intro h
    obtain ⟨m, hm, named⟩ := Option.map_eq_some_iff.mp h
    obtain ⟨⟨name, raw⟩, found, rfl⟩ := Option.map_eq_some_iff.mp hm
    obtain rfl : name = enumValueName w := named
    obtain ⟨equal, before, after, split, missed⟩ := List.find?_eq_some_iff_append.mp found
    refine ⟨before, raw, after, split, equal, fun u hu => ?_⟩
    rw [← others split hu]
    simpa using missed u hu
  · rintro ⟨before, raw, after, split, equal, missed⟩
    have found : e.values.find? ((fun m => m.internal.innerEq w) ∘ EnumValue.member)
        = some ⟨enumValueName w, raw⟩ := by
      refine List.find?_eq_some_iff_append.mpr ⟨equal, before, after, split, fun u hu => ?_⟩
      have miss := missed u hu
      rw [← others split hu] at miss
      simpa using miss
    rw [found]
    rfl

end

/-! ## Aliases -/

variable {e : EnumDef} {given : List Value}

theorem Collects.own (h : e.Collects given) {u : EnumValue} (hu : u ∈ e.values ++ e.aliases) :
    u.name = enumValueName u.value ∧ u.value ∈ given := by
  obtain ⟨v, hv, rfl⟩ := List.mem_map.mp ((h.mem u).mp hu)
  exact ⟨rfl, hv⟩

/-- A value is replaced by the raw value of its name if it is an alias, and stays otherwise. -/
theorem substitute_cases (h : e.Collects given) {v : Value} (scalar : v.isScalar = true) :
    (∃ a, ⟨enumValueName v, a⟩ ∈ e.aliases ∧ v.sameKind a = true ∧ v.looseEq a = true ∧
      Resolver.substitute e.replacements v = e.raw (enumValueName v)) ∨
    (∀ a ∈ e.aliases, ¬ (v.sameKind a.value = true ∧ v.looseEq a.value = true)) ∧
      Resolver.substitute e.replacements v = v := by
  rcases e.substitute_eq v with ⟨a, ha, kind, loose, replaced⟩ | unaliased
  · have named : a.name = enumValueName v :=
      (h.own (List.mem_append_right _ ha)).1.trans (enumValueName_congr scalar kind loose).symm
    rw [named] at replaced
    exact Or.inl ⟨a.value, named ▸ ha, kind, loose, replaced⟩
  · exact Or.inr unaliased

theorem raw_eq_of_mem (distinct : (e.values.map EnumValue.name).Nodup) {name : String}
    {raw raw' : Value} (h : ⟨name, raw⟩ ∈ e.values) (h' : ⟨name, raw'⟩ ∈ e.values) : raw = raw' :=
  congrArg EnumValue.value (List.inj_on_of_nodup_map distinct h h' rfl)

theorem Collects.own_value (h : e.Collects given) {u : EnumValue} (hu : u ∈ e.values) :
    u.name = enumValueName u.value :=
  (h.own (List.mem_append_left _ hu)).1

theorem Collects.isScalar (h : e.Collects given) (scalars : ∀ v ∈ given, v.isScalar = true)
    {u : EnumValue} (hu : u ∈ e.values) : u.value.isScalar = true :=
  scalars _ (h.own (List.mem_append_left _ hu)).2

/-- Null is not found in the place of a declared value by the name that it has. -/
theorem raw_ne_null (h : e.Collects given) (distinct : (e.values.map EnumValue.name).Nodup)
    {v raw : Value} (declared : ∃ d ∈ given, Equal d v)
    (unaliased : ∀ a ∈ e.aliases, ¬ (v.sameKind a.value = true ∧ v.looseEq a.value = true))
    (hraw : ⟨enumValueName v, raw⟩ ∈ e.values)
    (equal : (EnumValue.mk (enumValueName v) raw).member.internal.innerEq v = true) :
    raw ≠ .null := by
  rintro rfl
  have inside : (EnumValue.mk (enumValueName v) .null).member.internal
      = .str (enumValueName v) := rfl
  rw [inside] at equal
  have text_of_equal {name : String} (h : Equal (.str name) v) : v = .str name := by
    cases h with
    | str => rfl
    | number hv _ _ => cases hv
  have text := text_of_equal (equal_of_innerEq rfl equal)
  obtain ⟨d, hd, same⟩ := declared
  have self : d = v := by
    rw [text] at same ⊢
    cases same with
    | str => rfl
    | number _ hw _ => cases hw
  rcases List.mem_append.mp ((h.mem (valueOf d)).mpr (List.mem_map_of_mem hd)) with hd | hd
  · rw [self] at hd
    cases text.symm.trans (raw_eq_of_mem distinct hd hraw)
  · refine unaliased _ hd ?_
    rw [valueOf, self, text]
    exact ⟨beq_self_eq_true _, beq_self_eq_true _⟩

section

variable (h : e.Collects given) (distinct : (e.values.map EnumValue.name).Nodup)
  (scalars : ∀ v ∈ given, v.isScalar = true)
include h distinct scalars

/-- An alias has the name if the raw value of the name has it. -/
theorem nameOf?_raw_iff {v a raw : Value} (listed : ⟨enumValueName v, a⟩ ∈ e.aliases)
    (kind : v.sameKind a = true) (loose : v.looseEq a = true)
    (hraw : ⟨enumValueName v, raw⟩ ∈ e.values) :
    nameOf? (e.values.map EnumValue.member) raw = some (enumValueName v) ↔ e.Represents v := by
  have named : enumValueName v = enumValueName raw := h.own_value hraw
  have only {before after : List EnumValue} {raw' : Value}
      (split : e.values = before ++ ⟨enumValueName v, raw'⟩ :: after) : raw' = raw :=
    raw_eq_of_mem distinct (split ▸ List.mem_append_right _ (List.mem_cons_self ..)) hraw
  by_cases null : raw = .null
  · refine iff_of_false (fun answer => ?_) ?_
    · rw [null] at answer
      cases answer
    · rintro ⟨before, raw', after, split, some, -⟩
      exact some ((only split).trans null)
  · rw [named, nameOf?_iff (fun u hu => h.own_value hu) distinct null]
    constructor
    · rintro ⟨before, raw', after, split, -, missed⟩
      rw [← named] at split
      obtain rfl := only split
      exact ⟨before, raw', after, split, null, Or.inr ⟨a, listed, kind, loose⟩, missed⟩
    · rintro ⟨before, raw', after, split, -, -, missed⟩
      have scalar := h.isScalar scalars hraw
      obtain rfl := only split
      refine ⟨before, raw', after, named ▸ split, ?_, missed⟩
      rw [internal_of_ne_null null]
      exact innerEq_of_equal (equal_refl scalar)

/-- A value that is no alias has the name if it equals the raw value of the name. -/
theorem nameOf?_self_iff {v : Value} (nonnull : v ≠ .null) (declared : ∃ d ∈ given, Equal d v)
    (unaliased : ∀ a ∈ e.aliases, ¬ (v.sameKind a.value = true ∧ v.looseEq a.value = true)) :
    nameOf? (e.values.map EnumValue.member) v = some (enumValueName v) ↔ e.Represents v := by
  rw [nameOf?_iff (fun u hu => h.own_value hu) distinct nonnull]
  constructor
  · rintro ⟨before, raw, after, split, equal, missed⟩
    have hraw : ⟨enumValueName v, raw⟩ ∈ e.values :=
      split ▸ List.mem_append_right _ (List.mem_cons_self ..)
    have null := raw_ne_null h distinct declared unaliased hraw equal
    rw [internal_of_ne_null null] at equal
    refine ⟨before, raw, after, split, null, Or.inl equal, fun u hu other => missed u hu ?_⟩
    have first := equal_of_innerEq (h.isScalar scalars (split ▸ List.mem_append_left _ hu)) other
    have second := equal_of_innerEq (h.isScalar scalars hraw) equal
    exact innerEq_of_equal (first.trans second)
  · rintro ⟨before, raw, after, split, null, same, missed⟩
    have hraw : ⟨enumValueName v, raw⟩ ∈ e.values :=
      split ▸ List.mem_append_right _ (List.mem_cons_self ..)
    have equal : raw.innerEq v = true :=
      same.resolve_right fun ⟨a, ha, kind, loose⟩ => unaliased _ ha ⟨kind, loose⟩
    refine ⟨before, raw, after, split, ?_, fun u hu other => missed u hu ?_⟩
    · rw [internal_of_ne_null null]
      exact equal
    · have first := equal_of_innerEq (h.isScalar scalars (split ▸ List.mem_append_left _ hu)) other
      have second := equal_of_innerEq (h.isScalar scalars hraw) equal
      exact innerEq_of_equal (first.trans second.symm)

/-- A raw value, when its aliases are replaced, has the name that was made for it exactly if the
enumeration represents it. -/
theorem nameOf?_substitute_iff {v : Value} (nonnull : v ≠ .null)
    (declared : ∃ d ∈ given, Equal d v) :
    nameOf? (e.values.map EnumValue.member) (Resolver.substitute e.replacements v)
      = some (enumValueName v) ↔ e.Represents v := by
  have scalar : v.isScalar = true := by
    obtain ⟨d, -, equal⟩ := declared
    exact equal.isScalar.2
  rcases substitute_cases h scalar with ⟨a, ha, kind, loose, read⟩ | ⟨unaliased, read⟩
  · obtain ⟨⟨_, raw⟩, hraw, rfl : _ = enumValueName v⟩ := List.mem_map.mp (h.aliased _ ha)
    have named : e.raw (enumValueName v) = raw :=
      raw_of_mem (u := ⟨enumValueName v, raw⟩) distinct hraw
    rw [read, named]
    exact nameOf?_raw_iff h distinct scalars ha kind loose hraw
  · rw [read]
    exact nameOf?_self_iff h distinct scalars nonnull declared unaliased

end

end ResourceGraph.EnumDef
