import Mathlib.Data.Fintype.Prod
import ResourceGraph.Proofs.Keyed
import ResourceGraph.Proofs.Value.Equality
import ResourceGraph.Raw.Comparison

/-!
# Comparison of objects

What a comparison finds within a limit it finds within every higher one. There are only so many pairs
of objects, so a comparison that is not over within that many steps is over within no number of steps:
it is endless. Objects that are found to be the same are related by an equivalence.
-/

namespace ResourceGraph

/-! ## Verdicts -/

namespace Verdict

variable {a b : Verdict}

@[simp] theorem and_eq_same : a.and b = .same ↔ a = .same ∧ b = .same := by
  cases a <;> simp [and]

theorem and_eq_endless : a.and b = .endless ↔ a = .endless ∨ a = .same ∧ b = .endless := by
  cases a <;> simp [and]

theorem and_eq_different : a.and b = .different ↔ a = .different ∨ a = .same ∧ b = .different := by
  cases a <;> simp [and]

@[simp] theorem ofBool_eq_same {b : Bool} : ofBool b = .same ↔ b = true := by
  cases b <;> simp [ofBool]

@[simp] theorem ofBool_ne_endless (b : Bool) : ofBool b ≠ .endless := by
  cases b <;> simp [ofBool]

end Verdict

/-! ## Values -/

namespace Raw

variable {ι : Type} {f f' f'' : ι → ι → Verdict}

theorem isScalar_of_scalar? {v : Raw ι} {a : Value} (h : v.scalar? = some a) :
    a.isScalar = true := by
  cases v <;> cases h <;> rfl

theorem compare_scalar {v : Raw ι} {a : Value} (hv : v.scalar? = some a) (w : Raw ι) :
    v.compare f w = w.scalar?.elim .different fun b => .ofBool (a.leafEq b) := by
  cases v <;> cases hv <;> cases w <;> rfl

theorem compare_scalar_eq_same {v w : Raw ι} {a : Value} (hv : v.scalar? = some a) :
    v.compare f w = .same ↔ ∃ b, w.scalar? = some b ∧ Value.Equal a b := by
  rw [compare_scalar hv]
  cases w.scalar? with
  | none => simp
  | some b => simp [Value.leafEq_iff (isScalar_of_scalar? hv)]

theorem compare_scalar_ne_endless {v : Raw ι} {a : Value} (hv : v.scalar? = some a) (w : Raw ι) :
    v.compare f w ≠ .endless := by
  rw [compare_scalar hv]
  cases w.scalar? <;> simp

theorem compare_arr {vs ws : List (Raw ι)} : (Raw.arr vs).compare f (.arr ws)
    = if vs.length = ws.length then compareItems f vs ws else .different := rfl

mutual

theorem compare_symm (h : ∀ i j, f i j = .same → f' j i = .same) : (v w : Raw ι) →
    v.compare f w = .same → w.compare f' v = .same
  | .arr vs, w, same => by
      cases w with
      | arr ws =>
          rw [compare_arr] at same ⊢
          split at same
          · rename_i length
            rw [if_pos length.symm]
            exact compareItems_symm h vs ws length same
          · cases same
      | _ => cases same
  | .obj i, w, same => by
      cases w with
      | obj j => exact h i j same
      | _ => cases same
  | .null, w, same | .bool _, w, same | .int _, w, same | .double _, w, same | .str _, w, same => by
      obtain ⟨b, hw, equal⟩ := (compare_scalar_eq_same rfl).mp same
      exact (compare_scalar_eq_same hw).mpr ⟨_, rfl, equal.symm⟩

theorem compareItems_symm (h : ∀ i j, f i j = .same → f' j i = .same) : (vs ws : List (Raw ι)) →
    vs.length = ws.length → compareItems f vs ws = .same → compareItems f' ws vs = .same
  | [], [], _, _ => rfl
  | v :: vs, w :: ws, length, same => by
      rw [compareItems, Verdict.and_eq_same] at same ⊢
      exact ⟨compare_symm h v w same.1,
        compareItems_symm h vs ws (Nat.succ.inj length) same.2⟩

end

mutual

theorem compare_trans (h : ∀ i j k, f i j = .same → f' j k = .same → f'' i k = .same) :
    (u v w : Raw ι) → u.compare f v = .same → v.compare f' w = .same → u.compare f'' w = .same
  | .arr us, v, w, same, same' => by
      cases v with
      | arr vs =>
          cases w with
          | arr ws =>
              rw [compare_arr] at same same' ⊢
              split at same
              · split at same'
                · rename_i length length'
                  rw [if_pos (length.trans length')]
                  exact compareItems_trans h us vs ws same same'
                · cases same'
              · cases same
          | _ => cases same'
      | _ => cases same
  | .obj i, v, w, same, same' => by
      cases v with
      | obj j =>
          cases w with
          | obj k => exact h i j k same same'
          | _ => cases same'
      | _ => cases same
  | .null, v, w, same, same' | .bool _, v, w, same, same' | .int _, v, w, same, same'
  | .double _, v, w, same, same' | .str _, v, w, same, same' => by
      obtain ⟨b, hv, equal⟩ := (compare_scalar_eq_same rfl).mp same
      obtain ⟨c, hw, equal'⟩ := (compare_scalar_eq_same hv).mp same'
      exact (compare_scalar_eq_same rfl).mpr ⟨c, hw, equal.trans equal'⟩

theorem compareItems_trans (h : ∀ i j k, f i j = .same → f' j k = .same → f'' i k = .same) :
    (us vs ws : List (Raw ι)) → compareItems f us vs = .same → compareItems f' vs ws = .same →
      compareItems f'' us ws = .same
  | [], _, _, _, _ => rfl
  | u :: us, v :: vs, w :: ws, same, same' => by
      rw [compareItems, Verdict.and_eq_same] at same same' ⊢
      exact ⟨compare_trans h u v w same.1 same'.1, compareItems_trans h us vs ws same.2 same'.2⟩

end

mutual

/-- Where the comparison of objects is over, that of values is not changed by going on. -/
theorem compare_mono (h : ∀ i j, f i j ≠ .endless → f' i j = f i j) : (v w : Raw ι) →
    v.compare f w ≠ .endless → v.compare f' w = v.compare f w
  | .arr vs, w, ended => by
      cases w with
      | arr ws =>
          rw [compare_arr] at ended
          rw [compare_arr, compare_arr]
          split at ended
          · rename_i length
            rw [if_pos length, if_pos length]
            exact compareItems_mono h vs ws ended
          · rename_i length
            rw [if_neg length, if_neg length]
      | _ => rfl
  | .obj i, w, ended => by
      cases w with
      | obj j => exact h i j ended
      | _ => rfl
  | .null, w, _ | .bool _, w, _ | .int _, w, _ | .double _, w, _ | .str _, w, _ => by
      rw [compare_scalar rfl, compare_scalar rfl]

theorem compareItems_mono (h : ∀ i j, f i j ≠ .endless → f' i j = f i j) :
    (vs ws : List (Raw ι)) → compareItems f vs ws ≠ .endless →
      compareItems f' vs ws = compareItems f vs ws
  | [], _, _ => rfl
  | _ :: _, [], _ => rfl
  | v :: vs, w :: ws, ended => by
      rw [compareItems, Ne, Verdict.and_eq_endless, not_or, not_and] at ended
      rw [compareItems, compareItems, compare_mono h v w ended.1]
      cases first : v.compare f w with
      | same => exact compareItems_mono h vs ws (ended.2 first)
      | different => rfl
      | endless => rfl

end

theorem compareMembers_mono (h : ∀ i j, f i j ≠ .endless → f' i j = f i j)
    {ms ns : List (String × Raw ι)} (ended : compareMembers f ms ns ≠ .endless) :
    compareMembers f' ms ns = compareMembers f ms ns := by
  induction ms with
  | nil => rfl
  | cons p ms ih =>
      obtain ⟨k, v⟩ := p
      rw [compareMembers] at ended
      rw [compareMembers, compareMembers]
      cases found : Keyed.find? k ns with
      | none => rfl
      | some w =>
          rw [found] at ended
          dsimp only at ended ⊢
          rw [Ne, Verdict.and_eq_endless, not_or, not_and] at ended
          rw [compare_mono h w v ended.1]
          cases first : w.compare f v with
          | same => exact ih (ended.2 first)
          | different => rfl
          | endless => rfl

mutual

/-- A comparison of values that never ends is one of two objects in them that never ends. -/
theorem exists_endless : (v w : Raw ι) → v.compare f w = .endless →
    ∃ i ∈ v.refs, ∃ j ∈ w.refs, f i j = .endless
  | .arr vs, w, endless => by
      cases w with
      | arr ws =>
          rw [compare_arr] at endless
          split at endless
          · exact exists_endlessItem vs ws endless
          · cases endless
      | _ => cases endless
  | .obj i, w, endless => by
      cases w with
      | obj j => exact ⟨i, List.mem_singleton_self i, j, List.mem_singleton_self j, endless⟩
      | _ => cases endless
  | .null, w, endless | .bool _, w, endless | .int _, w, endless | .double _, w, endless
  | .str _, w, endless => absurd endless (compare_scalar_ne_endless rfl w)

theorem exists_endlessItem : (vs ws : List (Raw ι)) → compareItems f vs ws = .endless →
    ∃ i ∈ refsOf vs, ∃ j ∈ refsOf ws, f i j = .endless
  | v :: vs, w :: ws, endless => by
      rcases Verdict.and_eq_endless.mp endless with endless | ⟨-, endless⟩
      · obtain ⟨i, hi, j, hj, endless⟩ := exists_endless v w endless
        exact ⟨i, List.mem_append_left _ hi, j, List.mem_append_left _ hj, endless⟩
      · obtain ⟨i, hi, j, hj, endless⟩ := exists_endlessItem vs ws endless
        exact ⟨i, List.mem_append_right _ hi, j, List.mem_append_right _ hj, endless⟩

end

theorem compareMembers_eq_same {ms ns : List (String × Raw ι)} :
    compareMembers f ms ns = .same ↔
      ∀ p ∈ ms, ∃ w, Keyed.find? p.1 ns = some w ∧ w.compare f p.2 = .same := by
  induction ms with
  | nil => simp [compareMembers]
  | cons p ms ih =>
      obtain ⟨k, v⟩ := p
      rw [compareMembers, List.forall_mem_cons, ← ih]
      cases Keyed.find? k ns with
      | none => simp
      | some w => simp

end Raw

/-! ## Objects -/

namespace RawGraph

variable {g : RawGraph} {limit : Nat} {i j k : Fin g.size}

theorem compareWithin_self (limit : Nat) (i : Fin g.size) : g.compareWithin limit i i = .same := by
  cases limit <;> rw [compareWithin, if_pos rfl]

/-- Two objects are the same within a limit if they are one, or if their members are. -/
theorem compareWithin_succ_eq_same : g.compareWithin (limit + 1) i j = .same ↔ i = j ∨
    Keyed.Agree (fun v w => w.compare (g.compareWithin limit) v = .same)
      (g.members i) (g.members j) := by
  have distinct (i : Fin g.size) : (Keyed.keys (g.members i)).Nodup := g.nodup i
  rw [compareWithin, Keyed.agree_iff (distinct i) (distinct j), ← Raw.compareMembers_eq_same]
  split
  · rename_i one
    exact iff_of_true rfl (Or.inl one)
  · rename_i two
    rw [or_iff_right two]
    split
    · rename_i length
      exact (and_iff_right length).symm
    · rename_i length
      exact iff_of_false nofun fun same => length same.1

theorem compareWithin_symm (h : g.compareWithin limit i j = .same) :
    g.compareWithin limit j i = .same := by
  induction limit generalizing i j with
  | zero =>
      rw [compareWithin] at h
      split at h
      · rename_i one
        exact one ▸ compareWithin_self 0 i
      · cases h
  | succ limit ih =>
      rcases compareWithin_succ_eq_same.mp h with rfl | members
      · exact compareWithin_self _ i
      · exact compareWithin_succ_eq_same.mpr <| Or.inr <| members.symm_of_mem fun p _ q _ same =>
          Raw.compare_symm (fun _ _ => ih) q.2 p.2 same

theorem compareWithin_trans (h : g.compareWithin limit i j = .same)
    (h' : g.compareWithin limit j k = .same) : g.compareWithin limit i k = .same := by
  induction limit generalizing i j k with
  | zero =>
      rw [compareWithin] at h
      split at h
      · rename_i one
        exact one ▸ h'
      · cases h
  | succ limit ih =>
      rcases compareWithin_succ_eq_same.mp h with rfl | members
      · exact h'
      · rcases compareWithin_succ_eq_same.mp h' with rfl | members'
        · exact h
        · have inside (i j k : Fin g.size) (h : g.compareWithin limit i j = .same)
              (h' : g.compareWithin limit j k = .same) : g.compareWithin limit i k = .same :=
            ih h h'
          exact compareWithin_succ_eq_same.mpr <| Or.inr <| members.trans_of_mem members'
            fun p _ q _ r _ same same' => Raw.compare_trans inside r.2 q.2 p.2 same' same

/-- What is found within a limit is found within the next. -/
theorem compareWithin_succ (ended : g.compareWithin limit i j ≠ .endless) :
    g.compareWithin (limit + 1) i j = g.compareWithin limit i j := by
  induction limit generalizing i j with
  | zero =>
      rw [compareWithin] at ended ⊢
      split at ended
      · rename_i one
        rw [if_pos one]
        exact one ▸ compareWithin_self 1 i
      · exact absurd rfl ended
  | succ limit ih =>
      rw [compareWithin] at ended
      rw [compareWithin, compareWithin.eq_def g (limit + 1) i j]
      dsimp only
      split at ended
      · rename_i one
        rw [if_pos one, if_pos one]
      · rename_i two
        rw [if_neg two, if_neg two]
        split at ended
        · rename_i length
          rw [if_pos length, if_pos length, Raw.compareMembers_mono (fun i j => ih) ended]
        · rename_i length
          rw [if_neg length, if_neg length]

theorem compareWithin_add (extra : Nat) (ended : g.compareWithin limit i j ≠ .endless) :
    g.compareWithin (limit + extra) i j = g.compareWithin limit i j := by
  induction extra with
  | zero => rfl
  | succ extra ih => rw [← Nat.add_assoc, compareWithin_succ (ih ▸ ended), ih]

/-- The pairs of objects whose comparison is not over within a limit. -/
def Unfinished (g : RawGraph) (limit : Nat) : Finset (Fin g.size × Fin g.size) :=
  Finset.univ.filter fun p => g.compareWithin limit p.1 p.2 = .endless

theorem mem_unfinished {p : Fin g.size × Fin g.size} :
    p ∈ g.Unfinished limit ↔ g.compareWithin limit p.1 p.2 = .endless := by
  simp [Unfinished]

theorem unfinished_subset (limit : Nat) : g.Unfinished (limit + 1) ⊆ g.Unfinished limit := by
  intro p hp
  rw [mem_unfinished] at hp ⊢
  by_contra ended
  exact ended (compareWithin_succ ended ▸ hp)

/-- A limit that finishes no comparison more finishes none ever. -/
theorem compareWithin_stable (h : g.Unfinished limit = g.Unfinished (limit + 1)) :
    g.compareWithin (limit + 1) = g.compareWithin limit := by
  funext i j
  by_cases endless : g.compareWithin limit i j = .endless
  · rw [endless]
    exact mem_unfinished.mp (h ▸ mem_unfinished (p := (i, j)).mpr endless)
  · exact compareWithin_succ endless

theorem compareWithin_stable_add (h : g.compareWithin (limit + 1) = g.compareWithin limit)
    (extra : Nat) : g.compareWithin (limit + extra) = g.compareWithin limit := by
  induction extra with
  | zero => rfl
  | succ extra ih =>
      rw [← Nat.add_assoc, ← h]
      funext i j
      rw [compareWithin, compareWithin, ih]

theorem card_unfinished_lt (h : g.compareWithin (limit + 1) ≠ g.compareWithin limit) :
    (g.Unfinished (limit + 1)).card < (g.Unfinished limit).card :=
  Finset.card_lt_card <| (unfinished_subset limit).ssubset_of_ne fun same =>
    h (compareWithin_stable same.symm)

/-- Every limit finishes a comparison more than the one before it, until one finishes none. -/
theorem stable_or_card_le (limit : Nat) : g.compareWithin (limit + 1) = g.compareWithin limit ∨
    (g.Unfinished (limit + 1)).card + (limit + 1) ≤ g.size * g.size := by
  induction limit with
  | zero =>
      refine or_iff_not_imp_left.mpr fun progress => ?_
      have fewer := card_unfinished_lt progress
      have pairs : (g.Unfinished 0).card ≤ g.size * g.size := by
        simpa using Finset.card_le_univ (g.Unfinished 0)
      omega
  | succ limit ih =>
      refine or_iff_not_imp_left.mpr fun progress => ?_
      have fewer := card_unfinished_lt progress
      rcases ih with stable | fewest
      · exact absurd (compareWithin_stable_add stable 2 |>.trans
          (compareWithin_stable_add stable 1).symm) progress
      · omega

/-- A comparison is endless if no limit is enough for it. -/
theorem compare_eq_endless_iff : g.compare i j = .endless ↔
    ∀ limit, g.compareWithin limit i j = .endless := by
  refine ⟨fun endless limit => ?_, fun endless => endless _⟩
  have stable : g.compareWithin (g.size * g.size + 1) = g.compareWithin (g.size * g.size) :=
    (stable_or_card_le _).resolve_right (by omega)
  by_contra ended
  have found := compareWithin_add (g.size * g.size) ended
  rw [Nat.add_comm, compareWithin_stable_add stable] at found
  exact ended (found ▸ endless)

/-- Two objects that contain themselves under one name, and one that contains the first. -/
def mirrors : RawGraph where
  size := 3
  objects := #v[[("x", .obj 0)], [("x", .obj 1)], [("x", .obj 0)]]
  nodup := by decide

-- The two are never told apart, but the third has a member that is the first itself.
example : mirrors.compare (0 : Fin 3) (1 : Fin 3) = .endless := by decide +kernel

example : mirrors.compare (0 : Fin 3) (2 : Fin 3) = .same := by decide +kernel

end RawGraph

end ResourceGraph
