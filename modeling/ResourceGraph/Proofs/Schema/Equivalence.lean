import ResourceGraph.Proofs.Schema.Trees
import ResourceGraph.Proofs.Value.Equivalence

/-!
# Equality of nodes

On nodes with distinct properties equality is an equivalence, and what resolution makes of the
shapes of equal nodes is equal: branches are merged name by name, so the order of properties in them
does not count.
-/

namespace ResourceGraph

namespace Node

variable {n : Nat}

/-- Distinct properties, and values with distinct names. -/
def IsProper (x : Node n) : Prop := x.Distinct ∧ x.IsLiteral

/-- Equality as a relation. -/
abbrev Eqv (x y : Node n) : Prop := x.looseEq y = true

theorem looseEqItems_iff {xs ys : List (Node n)} :
    looseEqItems xs ys = true ↔ List.Forall₂ Eqv xs ys := by
  induction xs generalizing ys with
  | nil => cases ys <;> simp [looseEqItems]
  | cons x xs ih =>
      cases ys with
      | nil => simp [looseEqItems]
      | cons y ys => rw [looseEqItems, Bool.and_eq_true, ih, List.forall₂_cons]

theorem looseEqOption_iff {x y : Option (Node n)} :
    looseEqOption x y = true ↔ Option.Rel Eqv x y := by
  cases x <;> cases y <;> simp [looseEqOption]

variable {key key' : ObjectKey n} {properties properties' : List (String × Node n)}
  {required required' : List String} {additional additional' : Option (Node n)}
  {other other' : Value}

theorem eqv_object (nodup : (Keyed.keys properties).Nodup)
    (nodup' : (Keyed.keys properties').Nodup) :
    (Node.object key properties required additional other).Eqv
        (.object key' properties' required' additional' other') ↔
      Keyed.Agree Eqv properties properties' ∧ required = required' ∧
        Option.Rel Eqv additional additional' ∧ other.innerEq other' = true := by
  simp only [Eqv, looseEq, Bool.and_eq_true, beq_iff_eq, looseEqMembers_iff, looseEqOption_iff,
    Keyed.agree_iff nodup nodup', and_assoc]

theorem All.extra (h : (Node.object key properties required additional other).All IsProper) :
    ∀ y ∈ additional.toList, y.All IsProper :=
  fun y hy => h.inside y (List.mem_append_right _ hy)

theorem literals_symm {vs ws : List Value} (hv : ∀ v ∈ vs, v.Distinct) (hw : ∀ w ∈ ws, w.Distinct)
    (h : Value.looseEqItems vs ws = true) : Value.looseEqItems ws vs = true := by
  apply Value.looseEqItems_iff.mpr
  exact forall₂_symm_of_mem (Value.looseEqItems_iff.mp h) fun v hv' w hw' =>
    Value.innerEq_symm (hv v hv') (hw w hw')

theorem literals_trans {us vs ws : List Value} (hu : ∀ u ∈ us, u.Distinct)
    (hv : ∀ v ∈ vs, v.Distinct) (hw : ∀ w ∈ ws, w.Distinct)
    (h : Value.looseEqItems us vs = true) (h' : Value.looseEqItems vs ws = true) :
    Value.looseEqItems us ws = true := by
  apply Value.looseEqItems_iff.mpr
  exact forall₂_trans_of_mem (Value.looseEqItems_iff.mp h) (Value.looseEqItems_iff.mp h')
    fun u hu' v hv' w hw' => Value.innerEq_trans (hu u hu') (hv v hv') (hw w hw')

theorem rel_symm {x y : Option (Node n)} (h : Option.Rel Eqv x y)
    (hQ : ∀ a ∈ x.toList, ∀ b ∈ y.toList, a.Eqv b → b.Eqv a) : Option.Rel Eqv y x := by
  cases h with
  | none => exact .none
  | some same => exact .some (hQ _ (List.mem_singleton_self _) _ (List.mem_singleton_self _) same)

theorem rel_trans {x y z : Option (Node n)} (h : Option.Rel Eqv x y) (h' : Option.Rel Eqv y z)
    (hT : ∀ a ∈ x.toList, ∀ b ∈ y.toList, ∀ c ∈ z.toList, a.Eqv b → b.Eqv c → a.Eqv c) :
    Option.Rel Eqv x z := by
  cases h with
  | none => exact h'
  | some same =>
      cases h' with
      | some same' =>
          exact .some (hT _ (List.mem_singleton_self _) _ (List.mem_singleton_self _) _
            (List.mem_singleton_self _) same same')

theorem Eqv.symm {x y : Node n} (hx : x.All IsProper) (hy : y.All IsProper) (h : x.Eqv y) :
    y.Eqv x := by
  induction hx generalizing y with
  | @intro x self inside ih =>
      cases x with
      | scalar key type format =>
          cases y with
          | scalar key' type' format' =>
              simp only [Eqv, looseEq, Bool.and_eq_true] at h ⊢
              exact ⟨Value.innerEq_symm self.2.1 hy.self.2.1 h.1,
                Value.innerEq_symm self.2.2 hy.self.2.2 h.2⟩
          | _ => simp [Eqv, looseEq] at h
      | enumeration id values type =>
          cases y with
          | enumeration id' values' type' =>
              simp only [Eqv, looseEq, Bool.and_eq_true] at h ⊢
              exact ⟨literals_symm self.2.1 hy.self.2.1 h.1,
                Value.innerEq_symm self.2.2 hy.self.2.2 h.2⟩
          | _ => simp [Eqv, looseEq] at h
      | array id items =>
          cases y with
          | array id' items' =>
              simp only [Eqv, looseEq, looseEqOption_iff] at h ⊢
              exact rel_symm h fun a ha b hb => ih a ha (hy.inside b hb)
          | _ => simp [Eqv, looseEq] at h
      | composite id kind branches =>
          cases y with
          | composite id' kind' branches' =>
              simp only [Eqv, looseEq, Bool.and_eq_true, decide_eq_true_eq, looseEqItems_iff] at h ⊢
              exact ⟨h.1.symm, forall₂_symm_of_mem h.2 fun a ha b hb => ih a ha (hy.branch b hb)⟩
          | _ => simp [Eqv, looseEq] at h
      | object key properties required additional other =>
          cases y with
          | object key' properties' required' additional' other' =>
              obtain ⟨props, same, extra, rest⟩ := (eqv_object self.1 hy.self.1).mp h
              apply (eqv_object hy.self.1 self.1).mpr
              refine ⟨?_, same.symm, ?_, Value.innerEq_symm self.2 hy.self.2 rest⟩
              · exact props.symm_of_mem fun p hp q hq =>
                  ih p.2 (List.mem_append_left _ (List.mem_map_of_mem hp)) (hy.property q hq)
              · exact rel_symm extra fun a ha b hb =>
                  ih a (List.mem_append_right _ ha) (hy.extra b hb)
          | _ => simp [Eqv, looseEq] at h
      | ref serial target =>
          cases y with
          | ref serial' target' =>
              simp only [Eqv, looseEq, Bool.and_eq_true, beq_iff_eq] at h ⊢
              exact ⟨h.1.symm, h.2.symm⟩
          | _ => simp [Eqv, looseEq] at h

theorem Eqv.trans {x y z : Node n} (hx : x.All IsProper) (hy : y.All IsProper)
    (hz : z.All IsProper) (h : x.Eqv y) (h' : y.Eqv z) : x.Eqv z := by
  induction hx generalizing y z with
  | @intro x self inside ih =>
      cases x with
      | scalar key type format =>
          cases y with
          | scalar key' type' format' =>
              cases z with
              | scalar key'' type'' format'' =>
                  simp only [Eqv, looseEq, Bool.and_eq_true] at h h' ⊢
                  exact ⟨Value.innerEq_trans self.2.1 hy.self.2.1 hz.self.2.1 h.1 h'.1,
                    Value.innerEq_trans self.2.2 hy.self.2.2 hz.self.2.2 h.2 h'.2⟩
              | _ => simp [Eqv, looseEq] at h'
          | _ => simp [Eqv, looseEq] at h
      | enumeration id values type =>
          cases y with
          | enumeration id' values' type' =>
              cases z with
              | enumeration id'' values'' type'' =>
                  simp only [Eqv, looseEq, Bool.and_eq_true] at h h' ⊢
                  exact ⟨literals_trans self.2.1 hy.self.2.1 hz.self.2.1 h.1 h'.1,
                    Value.innerEq_trans self.2.2 hy.self.2.2 hz.self.2.2 h.2 h'.2⟩
              | _ => simp [Eqv, looseEq] at h'
          | _ => simp [Eqv, looseEq] at h
      | array id items =>
          cases y with
          | array id' items' =>
              cases z with
              | array id'' items'' =>
                  simp only [Eqv, looseEq, looseEqOption_iff] at h h' ⊢
                  exact rel_trans h h' fun a ha b hb c hc =>
                    ih a ha (hy.inside b hb) (hz.inside c hc)
              | _ => simp [Eqv, looseEq] at h'
          | _ => simp [Eqv, looseEq] at h
      | composite id kind branches =>
          cases y with
          | composite id' kind' branches' =>
              cases z with
              | composite id'' kind'' branches'' =>
                  simp only [Eqv, looseEq, Bool.and_eq_true, decide_eq_true_eq, looseEqItems_iff]
                    at h h' ⊢
                  exact ⟨h.1.trans h'.1, forall₂_trans_of_mem h.2 h'.2 fun a ha b hb c hc =>
                    ih a ha (hy.branch b hb) (hz.branch c hc)⟩
              | _ => simp [Eqv, looseEq] at h'
          | _ => simp [Eqv, looseEq] at h
      | object key properties required additional other =>
          cases y with
          | object key' properties' required' additional' other' =>
              cases z with
              | object key'' properties'' required'' additional'' other'' =>
                  obtain ⟨props, same, extra, rest⟩ := (eqv_object self.1 hy.self.1).mp h
                  obtain ⟨props', same', extra', rest'⟩ :=
                    (eqv_object hy.self.1 hz.self.1).mp h'
                  apply (eqv_object self.1 hz.self.1).mpr
                  refine ⟨?_, same.trans same', ?_,
                    Value.innerEq_trans self.2 hy.self.2 hz.self.2 rest rest'⟩
                  · exact props.trans_of_mem props' fun p hp q hq r hr =>
                      ih p.2 (List.mem_append_left _ (List.mem_map_of_mem hp)) (hy.property q hq)
                        (hz.property r hr)
                  · exact rel_trans extra extra' fun a ha b hb c hc =>
                      ih a (List.mem_append_right _ ha) (hy.extra b hb) (hz.extra c hc)
              | _ => simp [Eqv, looseEq] at h'
          | _ => simp [Eqv, looseEq] at h
      | ref serial target =>
          cases y with
          | ref serial' target' =>
              simp only [Eqv, looseEq, Bool.and_eq_true, beq_iff_eq] at h
              obtain ⟨rfl, rfl⟩ := h
              exact h'
          | _ => simp [Eqv, looseEq] at h

/-! ## Resolution -/

/-- Distinct properties with proper nodes. -/
def ProperMembers (ps : List (String × Node n)) : Prop :=
  (Keyed.keys ps).Nodup ∧ ∀ p ∈ ps, p.2.All IsProper

theorem properMembers_nil : ProperMembers ([] : List (String × Node n)) :=
  ⟨List.nodup_nil, by simp⟩

theorem ProperMembers.mergeBranch {acc : List (String × Node n) × List String} {x : Option (Node n)}
    (hacc : ProperMembers acc.1) (hx : ∀ y, x = some y → y.All IsProper) :
    ProperMembers (NodeTable.mergeBranch acc x).1 := by
  unfold NodeTable.mergeBranch
  split
  · constructor
    · exact Keyed.nodup_keys_update hacc.1 _
    · intro p hp
      rcases Keyed.mem_of_mem_update hp with hp | hp
      · exact hacc.2 p hp
      · exact (hx _ rfl).property p hp
  · exact hacc

mutual

theorem collapse_proper {x z : Node 1} (hx : x.All IsProper) (h : x.collapse = some z) :
    z.All IsProper := by
  match x with
  | .composite id .allOf branches =>
      rw [collapse] at h
      cases h
      have members : ProperMembers (collapseAll branches ([], [])).1 :=
        collapseAll_proper hx.branch properMembers_nil
      apply All.intro
      · exact ⟨members.1, .null⟩
      · intro y hy
        obtain ⟨p, hp, rfl⟩ : ∃ p ∈ (collapseAll branches ([], [])).1, p.2 = y := by
          simpa [children] using hy
        exact members.2 p hp
  | .composite id .anyOf branches | .composite id .oneOf branches =>
      rw [collapse] at h
      · match branches with
        | [] => simp [collapseFirst] at h
        | b :: rest =>
            rw [collapseFirst] at h
            exact collapse_proper (hx.branch b (List.mem_cons_self ..)) h
      · exact nofun
  | .scalar .. | .enumeration .. | .array .. | .object .. | .ref .. =>
      simp only [collapse, Option.some.injEq] at h
      exact h ▸ hx

theorem collapseAll_proper {branches : List (Node 1)} (hb : ∀ b ∈ branches, b.All IsProper)
    {acc : List (String × Node 1) × List String} (hacc : ProperMembers acc.1) :
    ProperMembers (collapseAll branches acc).1 := by
  match branches with
  | [] =>
      rw [collapseAll]
      exact hacc
  | b :: bs =>
      obtain ⟨hb, hbs⟩ := List.forall_mem_cons.mp hb
      rw [collapseAll]
      exact collapseAll_proper hbs (hacc.mergeBranch fun y hy => collapse_proper hb hy)

end

/-- Properties that agree, beside the same required names. -/
def Merged (acc acc' : List (String × Node n) × List String) : Prop :=
  Keyed.Agree Eqv acc.1 acc'.1 ∧ acc.2 = acc'.2

theorem Merged.mergeBranch {acc acc' : List (String × Node n) × List String} (h : Merged acc acc')
    {x x' : Option (Node n)} (hx : ∀ y, x = some y → y.All IsProper)
    (hx' : ∀ y, x' = some y → y.All IsProper) (same : Option.Rel Eqv x x') :
    Merged (NodeTable.mergeBranch acc x) (NodeTable.mergeBranch acc' x') := by
  cases same with
  | none => exact h
  | @some y y' same =>
      cases y with
      | object key properties required additional other =>
          cases y' with
          | object key' properties' required' additional' other' =>
              have nodup := (hx _ rfl).self.1
              have nodup' := (hx' _ rfl).self.1
              obtain ⟨props, rfl, -⟩ := (eqv_object nodup nodup').mp same
              exact ⟨h.1.update nodup nodup' props, congrArg (· ++ required) h.2⟩
          | _ => simp [Eqv, looseEq] at same
      | _ => cases y' <;> first | exact h | simp [Eqv, looseEq] at same

mutual

/-- Equal shapes resolve to equal ones. -/
theorem collapse_congr {x y : Node 1} (hx : x.All IsProper) (hy : y.All IsProper) (h : x.Eqv y) :
    Option.Rel Eqv x.collapse y.collapse := by
  match x with
  | .composite id kind branches =>
      cases y with
      | composite id' kind' branches' =>
          simp only [Eqv, looseEq, Bool.and_eq_true, decide_eq_true_eq, looseEqItems_iff] at h
          obtain ⟨rfl, same⟩ := h
          cases kind with
          | allOf =>
              have merged : Merged (collapseAll branches ([], [])) (collapseAll branches' ([], [])) :=
                collapseAll_congr hx.branch hy.branch same ⟨fun _ => .none, rfl⟩
              have members : ProperMembers (collapseAll branches ([], [])).1 :=
                collapseAll_proper hx.branch properMembers_nil
              have members' : ProperMembers (collapseAll branches' ([], [])).1 :=
                collapseAll_proper hy.branch properMembers_nil
              rw [collapse, collapse]
              apply Option.Rel.some
              apply (eqv_object members.1 members'.1).mpr
              exact ⟨merged.1, merged.2, .none, rfl⟩
          | _ =>
              rw [collapse, collapse]
              · match branches, branches', same with
                | [], [], .nil =>
                    rw [collapseFirst]
                    exact .none
                | b :: _, b' :: _, .cons head _ =>
                    rw [collapseFirst, collapseFirst]
                    exact collapse_congr (hx.branch b (List.mem_cons_self ..))
                      (hy.branch b' (List.mem_cons_self ..)) head
              · exact nofun
              · exact nofun
      | _ => simp [Eqv, looseEq] at h
  | .scalar .. | .enumeration .. | .array .. | .object .. | .ref .. =>
      cases y with
      | composite id' kind' branches' => simp [Eqv, looseEq] at h
      | _ =>
          simp only [collapse]
          exact .some h

theorem collapseAll_congr {branches branches' : List (Node 1)}
    (hb : ∀ b ∈ branches, b.All IsProper) (hb' : ∀ b ∈ branches', b.All IsProper)
    (same : List.Forall₂ Eqv branches branches')
    {acc acc' : List (String × Node 1) × List String} (h : Merged acc acc') :
    Merged (collapseAll branches acc) (collapseAll branches' acc') := by
  match branches, branches', same with
  | [], [], .nil =>
      rw [collapseAll, collapseAll]
      exact h
  | b :: bs, b' :: bs', .cons head tail =>
      obtain ⟨hb, hbs⟩ := List.forall_mem_cons.mp hb
      obtain ⟨hb', hbs'⟩ := List.forall_mem_cons.mp hb'
      rw [collapseAll, collapseAll]
      apply collapseAll_congr hbs hbs' tail
      exact h.mergeBranch (fun y hy => collapse_proper hb hy)
        (fun y hy => collapse_proper hb' hy) (collapse_congr hb hb' head)

end

end Node

end ResourceGraph
