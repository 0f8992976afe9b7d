import Mathlib.Data.List.Forall2
import ResourceGraph.Proofs.Raw.Comparison
import ResourceGraph.Proofs.Raw.Unfolding

/-!
# Equality of values

With a NaN equal to itself the loose equality is an equivalence on all values whose objects have
distinct names, not only on scalars. Lists are compared item by item, objects name by name, and knots
as objects of their graph. Values are equal exactly if their comparison finds them to be the same.
-/

namespace ResourceGraph

/-! ## Lists -/

section Lists

variable {α β γ : Type} {R : α → β → Prop} {S : β → γ → Prop} {T : α → γ → Prop}

theorem forall₂_symm_of_mem {Q : β → α → Prop} {as : List α} {bs : List β}
    (h : List.Forall₂ R as bs) (hQ : ∀ a ∈ as, ∀ b ∈ bs, R a b → Q b a) : List.Forall₂ Q bs as := by
  induction h with
  | nil => exact .nil
  | @cons a b as bs head _ ih =>
      apply List.Forall₂.cons
      · exact hQ a (List.mem_cons_self ..) b (List.mem_cons_self ..) head
      · apply ih
        intro a ha b hb
        exact hQ a (List.mem_cons_of_mem _ ha) b (List.mem_cons_of_mem _ hb)

theorem forall₂_trans_of_mem {as : List α} {bs : List β} {cs : List γ}
    (h : List.Forall₂ R as bs) (h' : List.Forall₂ S bs cs)
    (hT : ∀ a ∈ as, ∀ b ∈ bs, ∀ c ∈ cs, R a b → S b c → T a c) : List.Forall₂ T as cs := by
  induction h generalizing cs with
  | nil =>
      cases h'
      exact .nil
  | @cons a b as bs head _ ih =>
      cases h' with
      | @cons _ c _ cs head' tail' =>
          apply List.Forall₂.cons
          · exact hT a (List.mem_cons_self ..) b (List.mem_cons_self ..) c (List.mem_cons_self ..)
              head head'
          · apply ih tail'
            intro a ha b hb c hc
            exact hT a (List.mem_cons_of_mem _ ha) b (List.mem_cons_of_mem _ hb) c
              (List.mem_cons_of_mem _ hc)

end Lists

/-! ## Knots -/

namespace Knot

variable {a b c : Knot}

theorem compare_of_graph {g : RawGraph} {i j : Fin g.size} {hi : g.ends i = false}
    {hj : g.ends j = false} {p q : Option (ListPlace g.size)} :
    compare ⟨g, i, hi, p⟩ ⟨g, j, hj, q⟩ = g.compare i j := dif_pos rfl

theorem graph_of_compare (h : a.compare b = .same) : b.graph = a.graph := by
  by_contra other
  cases h.symm.trans (dif_neg other)

theorem compare_self (a : Knot) : a.compare a = .same :=
  compare_of_graph.trans (RawGraph.compareWithin_self _ _)

theorem compare_symm (h : a.compare b = .same) : b.compare a = .same := by
  have graphs := graph_of_compare h
  obtain ⟨g, i, hi, p⟩ := a
  obtain ⟨g', j, hj, q⟩ := b
  obtain rfl : g' = g := graphs
  rw [compare_of_graph] at h ⊢
  exact RawGraph.compareWithin_symm h

theorem compare_trans (h : a.compare b = .same) (h' : b.compare c = .same) :
    a.compare c = .same := by
  have graphs := graph_of_compare h
  have graphs' := graph_of_compare h'
  obtain ⟨g, i, hi, p⟩ := a
  obtain ⟨g', j, hj, q⟩ := b
  obtain ⟨g'', k, hk, r⟩ := c
  obtain rfl : g' = g := graphs
  obtain rfl : g'' = g' := graphs'
  rw [compare_of_graph] at h h' ⊢
  exact RawGraph.compareWithin_trans h h'

end Knot

/-! ## Values -/

namespace Value

theorem looseEqItems_iff {vs ws : List Value} :
    looseEqItems vs ws = true ↔ List.Forall₂ (fun v w => v.innerEq w = true) vs ws := by
  induction vs generalizing ws with
  | nil => cases ws <;> simp [looseEqItems]
  | cons v vs ih =>
      cases ws with
      | nil => simp [looseEqItems]
      | cons w ws => rw [looseEqItems_cons, Bool.and_eq_true, ih, List.forall₂_cons]

theorem looseEqMembers_iff {ms ns : List (String × Value)} : looseEqMembers ms ns = true ↔
    ∀ p ∈ ms, ∃ w, Keyed.find? p.1 ns = some w ∧ p.2.innerEq w = true := by
  induction ms with
  | nil => simp [looseEqMembers]
  | cons p ms ih =>
      obtain ⟨k, v⟩ := p
      rw [looseEqMembers, List.forall_mem_cons, ← ih]
      cases Keyed.find? k ns with
      | none => simp
      | some w => simp [innerEq]

theorem innerEq_arr {vs : List Value} {w : Value} : (Value.arr vs).innerEq w = true ↔
    ∃ ws, w = .arr ws ∧ List.Forall₂ (fun v w => v.innerEq w = true) vs ws := by
  cases w <;> simp [innerEq, looseEq, isNaN, looseEqItems_iff]

theorem innerEq_obj {ms : List (String × Value)} (nodup : (Keyed.keys ms).Nodup) {w : Value}
    (hw : w.Distinct) : (Value.obj ms).innerEq w = true ↔
      ∃ ns, w = .obj ns ∧ Keyed.Agree (fun v w => v.innerEq w = true) ms ns := by
  cases hw with
  | obj nodup' inside =>
      simp [innerEq, looseEq, isNaN, looseEqMembers_iff, Keyed.agree_iff nodup nodup']
  | _ => simp [innerEq, looseEq, isNaN]

theorem innerEq_knot {k : Knot} {w : Value} :
    (Value.knot k).innerEq w = true ↔ ∃ l, w = .knot l ∧ k.compare l = .same := by
  cases w <;> simp [innerEq, looseEq, isNaN]

theorem numEq_self (x : Double) : x.numEq x = !x.isNaN := by
  simp [Double.numEq]

theorem innerEq_of_looseEq {v w : Value} (h : v.looseEq w = true) : v.innerEq w = true := by
  rw [innerEq, h, Bool.true_or]

theorem looseEqItems_self {vs : List Value} (h : ∀ v ∈ vs, v.innerEq v = true) :
    looseEqItems vs vs = true := by
  induction vs with
  | nil => rfl
  | cons v rest ih =>
      obtain ⟨hv, hrest⟩ := List.forall_mem_cons.mp h
      rw [looseEqItems_cons, hv, ih hrest]
      rfl

theorem looseEqMembers_self {ms ns : List (String × Value)} (nodup : (Keyed.keys ns).Nodup)
    (sub : ∀ p ∈ ms, p ∈ ns) (h : ∀ p ∈ ms, p.2.innerEq p.2 = true) :
    looseEqMembers ms ns = true := by
  induction ms with
  | nil => rfl
  | cons p rest ih =>
      obtain ⟨hp, hrest⟩ := List.forall_mem_cons.mp h
      obtain ⟨mem, sub⟩ := List.forall_mem_cons.mp sub
      rw [looseEqMembers, Keyed.find?_of_mem nodup mem]
      exact Bool.and_eq_true _ _ ▸ ⟨hp, ih sub hrest⟩

/-- A value with distinct names is equal to itself, wherever it is kept. -/
theorem innerEq_self {v : Value} (h : v.Distinct) : v.innerEq v = true := by
  induction h with
  | null => rfl
  | bool b => cases b <;> rfl
  | int n => exact innerEq_of_looseEq (beq_self_eq_true n)
  | double x =>
      rw [innerEq, looseEq]
      show (x.numEq x || (x.isNaN && x.isNaN)) = true
      rw [numEq_self]
      cases x.isNaN <;> rfl
  | str s => exact innerEq_of_looseEq (beq_self_eq_true s)
  | arr _ ih =>
      refine innerEq_of_looseEq ?_
      rw [looseEq]
      exact looseEqItems_self ih
  | obj nodup _ ih =>
      refine innerEq_of_looseEq ?_
      rw [looseEq, beq_self_eq_true, Bool.true_and]
      exact looseEqMembers_self nodup (fun _ hp => hp) ih
  | knot k => exact innerEq_knot.mpr ⟨k, rfl, Knot.compare_self k⟩

theorem innerEq_symm {v w : Value} (hv : v.Distinct) (hw : w.Distinct) (h : v.innerEq w = true) :
    w.innerEq v = true := by
  induction hv generalizing w with
  | null | bool | int | double | str => exact innerEq_of_equal (equal_of_innerEq rfl h).symm
  | arr inside ih =>
      obtain ⟨ws, rfl, same⟩ := innerEq_arr.mp h
      cases hw with
      | arr inside' =>
          apply innerEq_arr.mpr
          exact ⟨_, rfl, forall₂_symm_of_mem same fun v hv w hw => ih v hv (inside' w hw)⟩
  | obj nodup inside ih =>
      obtain ⟨ns, rfl, same⟩ := (innerEq_obj nodup hw).mp h
      cases hw with
      | obj nodup' inside' =>
          apply (innerEq_obj nodup' (.obj nodup inside)).mpr
          exact ⟨_, rfl, same.symm_of_mem fun p hp q hq => ih p hp (inside' q hq)⟩
  | knot k =>
      obtain ⟨l, rfl, same⟩ := innerEq_knot.mp h
      exact innerEq_knot.mpr ⟨k, rfl, Knot.compare_symm same⟩

theorem innerEq_trans {u v w : Value} (hu : u.Distinct) (hv : v.Distinct) (hw : w.Distinct)
    (h : u.innerEq v = true) (h' : v.innerEq w = true) : u.innerEq w = true := by
  induction hu generalizing v w with
  | null | bool | int | double | str =>
      have equal := equal_of_innerEq rfl h
      exact innerEq_of_equal (equal.trans (equal_of_innerEq equal.isScalar.2 h'))
  | arr inside ih =>
      obtain ⟨vs, rfl, same⟩ := innerEq_arr.mp h
      obtain ⟨ws, rfl, same'⟩ := innerEq_arr.mp h'
      cases hv with
      | arr insideV =>
          cases hw with
          | arr insideW =>
              apply innerEq_arr.mpr
              exact ⟨_, rfl, forall₂_trans_of_mem same same' fun u hu v hv w hw =>
                ih u hu (insideV v hv) (insideW w hw)⟩
  | obj nodup inside ih =>
      obtain ⟨ms, rfl, same⟩ := (innerEq_obj nodup hv).mp h
      cases hv with
      | obj nodupV insideV =>
          obtain ⟨ns, rfl, same'⟩ := (innerEq_obj nodupV hw).mp h'
          cases hw with
          | obj nodupW insideW =>
              apply (innerEq_obj nodup (.obj nodupW insideW)).mpr
              exact ⟨_, rfl, same.trans_of_mem same' fun p hp q hq r hr =>
                ih p hp (insideV q hq) (insideW r hr)⟩
  | knot k =>
      obtain ⟨l, rfl, same⟩ := innerEq_knot.mp h
      obtain ⟨m, rfl, same'⟩ := innerEq_knot.mp h'
      exact innerEq_knot.mpr ⟨m, rfl, Knot.compare_trans same same'⟩

/-! ## Verdicts -/

theorem compare_arr (vs ws : List Value) : (Value.arr vs).compare (.arr ws)
    = if vs.length = ws.length then compareItems vs ws else .different := rfl

theorem compare_knot (k l : Knot) : (Value.knot k).compare (.knot l) = k.compare l := rfl

mutual

theorem compare_eq_same : (v w : Value) → (v.compare w = .same ↔ v.innerEq w = true)
  | .arr vs, w => by
      rw [innerEq_arr]
      cases w with
      | arr ws =>
          rw [compare_arr]
          split
          · rw [compareItems_eq_same vs ws, looseEqItems_iff]
            simp
          · rename_i length
            simp only [reduceCtorEq, false_iff, arr.injEq, exists_eq_left']
            exact fun same => length same.length_eq
      | _ => exact iff_of_false (fun same => by cases same) (by simp)
  | .knot k, w => by
      rw [innerEq_knot]
      cases w with
      | knot l => simp [compare_knot]
      | _ => exact iff_of_false (fun same => by cases same) (by simp)
  | .null, w | .bool _, w | .int _, w | .double _, w | .str _, w | .obj _, w =>
      Verdict.ofBool_eq_same

theorem compareItems_eq_same : (vs ws : List Value) →
    (compareItems vs ws = .same ↔ looseEqItems vs ws = true)
  | [], ws => Verdict.ofBool_eq_same
  | v :: vs, [] => by simp [compareItems, looseEqItems]
  | v :: vs, w :: ws => by
      rw [compareItems, Verdict.and_eq_same, compare_eq_same v w, compareItems_eq_same vs ws,
        looseEqItems_cons, Bool.and_eq_true]

end

theorem compare_ne_different {v w : Value} (h : v.innerEq w = true) : v.compare w ≠ .different := by
  rw [(compare_eq_same v w).mpr h]
  nofun

end Value

end ResourceGraph
