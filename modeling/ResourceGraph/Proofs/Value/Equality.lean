import ResourceGraph.Api.Compilation
import ResourceGraph.Proofs.Number.Double

/-!
# Equality of scalars

Among JSON scalars the loose equality, with a NaN equal to itself, is an equivalence. It goes across
kinds: a number is equal to what it counts for. Scalars of one kind that are equal also have one
name in an enumeration.
-/

namespace ResourceGraph.Value

/-- Neither a list nor an object. -/
def isScalar : Value → Bool
  | .arr _ | .obj _ | .knot _ => false
  | _ => true

namespace Numeric

theorem eq_comm (a b : Numeric) : a.eq b = b.eq a := by
  cases a <;> cases b
  · exact BEq.comm
  · rfl
  · rfl
  · exact Double.numEq_comm ..

theorem eq_trans {a b c : Numeric} (h : a.eq b = true) (h' : b.eq c = true) : a.eq c = true := by
  cases a with
  | whole m =>
      cases b with
      | whole n =>
          obtain rfl := beq_iff_eq.mp h
          exact h'
      | binary y =>
          have hy : y.toInt? = some m := beq_iff_eq.mp h
          cases c with
          | whole k =>
              have same : some m = some k := hy.symm.trans (beq_iff_eq.mp h')
              exact beq_iff_eq.mpr (Option.some.inj same)
          | binary z => exact beq_iff_eq.mpr ((Double.toInt?_congr h').symm.trans hy)
  | binary x =>
      cases b with
      | whole n =>
          have hx : x.toInt? = some n := beq_iff_eq.mp h
          cases c with
          | whole k =>
              obtain rfl := beq_iff_eq.mp h'
              exact h
          | binary z => exact Double.numEq_of_toInt? hx (beq_iff_eq.mp h')
      | binary y =>
          cases c with
          | whole k => exact beq_iff_eq.mpr ((Double.toInt?_congr h).trans (beq_iff_eq.mp h'))
          | binary z => exact Double.numEq_trans h h'

end Numeric

/-- What decides whether scalars are equal: their text, or their number. -/
inductive Equal : Value → Value → Prop
  | null : Equal .null .null
  | str (s : String) : Equal (.str s) (.str s)
  | number {v w : Value} {a b : Numeric} (hv : v.numeric? = some a) (hw : w.numeric? = some b)
      (same : a.eq b = true) : Equal v w
  | nan {x y : Double} (hx : x.isNaN = true) (hy : y.isNaN = true) : Equal (.double x) (.double y)

theorem looseEq_number {v : Value} {a : Numeric} (hv : v.numeric? = some a) (w : Value) :
    v.looseEq w = match w.numeric? with | some b => a.eq b | none => false := by
  cases v <;> cases hv <;> rfl

theorem equal_of_innerEq {v w : Value} (hv : v.isScalar = true) (h : v.innerEq w = true) :
    Equal v w := by
  have number {a : Numeric} (hv : v.numeric? = some a) (h : v.looseEq w = true) : Equal v w := by
    rw [looseEq_number hv] at h
    cases hw : w.numeric? with
    | none => rw [hw] at h; cases h
    | some b => rw [hw] at h; exact .number hv hw h
  rcases Bool.or_eq_true_iff.mp h with loose | nan
  · cases v with
    | null => cases w <;> first | exact .null | cases loose
    | str s =>
        cases w with
        | str t => exact beq_iff_eq.mp loose ▸ .str s
        | _ => cases loose
    | bool b => exact number rfl loose
    | int n => exact number rfl loose
    | double x => exact number rfl loose
    | arr _ => cases hv
    | obj _ => cases hv
    | knot _ => cases hv
  · obtain ⟨nv, nw⟩ := Bool.and_eq_true_iff.mp nan
    cases v with
    | double x =>
        cases w with
        | double y => exact .nan nv nw
        | _ => cases nw
    | _ => cases nv

theorem innerEq_of_equal {v w : Value} (h : Equal v w) : v.innerEq w = true := by
  cases h with
  | null => rfl
  | str s => exact Bool.or_eq_true_iff.mpr (Or.inl (beq_self_eq_true s))
  | number hv hw same =>
      refine Bool.or_eq_true_iff.mpr (Or.inl ?_)
      rw [looseEq_number hv, hw]
      exact same
  | nan hx hy => exact Bool.or_eq_true_iff.mpr (Or.inr (Bool.and_eq_true_iff.mpr ⟨hx, hy⟩))

theorem Equal.symm {v w : Value} (h : Equal v w) : Equal w v := by
  cases h with
  | null => exact .null
  | str s => exact .str s
  | number hv hw same => exact .number hw hv ((Numeric.eq_comm ..).trans same)
  | nan hx hy => exact .nan hy hx

/-- A NaN counts as no other number. -/
theorem Numeric.eq_nan {x : Double} (hx : x.isNaN = true) (a : Numeric) :
    (Numeric.binary x).eq a = false := by
  cases a with
  | whole m =>
      have none : x.toInt? = .none := by
        cases hk : x.toInt? with
        | none => rfl
        | some k =>
            obtain ⟨neg, m, q, finite, -⟩ := Double.toInt?_eq_some hk
            rw [Double.isNaN_of_finite finite] at hx
            cases hx
      rw [Numeric.eq, none]
      rfl
  | binary y => simp [Numeric.eq, Double.numEq, hx]

theorem Equal.trans {u v w : Value} (h : Equal u v) (h' : Equal v w) : Equal u w := by
  cases h with
  | null => exact h'
  | str s => exact h'
  | number hu hv same =>
      cases h' with
      | null => cases hv
      | str s => cases hv
      | number hv' hw same' =>
          cases hv.symm.trans hv'
          exact .number hu hw (Numeric.eq_trans same same')
      | nan hx hy =>
          cases hv
          rw [Numeric.eq_comm, Numeric.eq_nan hx] at same
          cases same
  | nan hx hy =>
      cases h' with
      | number hv hw same =>
          cases hv
          rw [Numeric.eq_nan hy] at same
          cases same
      | nan _ hz => exact .nan hx hz

theorem Equal.isScalar {v w : Value} (h : Equal v w) :
    v.isScalar = true ∧ w.isScalar = true := by
  have number {v : Value} {a : Numeric} (hv : v.numeric? = some a) : v.isScalar = true := by
    cases v <;> first | rfl | cases hv
  cases h with
  | null => exact ⟨rfl, rfl⟩
  | str s => exact ⟨rfl, rfl⟩
  | number hv hw _ => exact ⟨number hv, number hw⟩
  | nan _ _ => exact ⟨rfl, rfl⟩

theorem equal_refl {v : Value} (hv : v.isScalar = true) : Equal v v := by
  cases v with
  | null => exact .null
  | str s => exact .str s
  | bool b => exact .number rfl rfl (beq_self_eq_true _)
  | int n => exact .number rfl rfl (beq_self_eq_true _)
  | double x =>
      by_cases nan : x.isNaN = true
      · exact .nan nan nan
      · refine .number rfl rfl (Double.numEq_iff.mpr ?_)
        rw [Bool.not_eq_true] at nan
        exact ⟨nan, nan, Or.inl rfl⟩
  | arr _ => cases hv
  | obj _ => cases hv
  | knot _ => cases hv

/-- On scalars the two ways to write equality are one. -/
theorem leafEq_eq_innerEq {v : Value} (hv : v.isScalar = true) (w : Value) :
    v.leafEq w = v.innerEq w := by
  cases v with
  | null => cases w <;> rfl
  | str s => cases w <;> simp [leafEq, innerEq, looseEq, isNaN]
  | arr _ => cases hv
  | obj _ => cases hv
  | knot _ => cases hv
  | _ => cases w <;> simp [leafEq, innerEq, looseEq, numeric?, isNaN]

theorem leafEq_iff {v w : Value} (hv : v.isScalar = true) : v.leafEq w = true ↔ Equal v w := by
  rw [leafEq_eq_innerEq hv]
  exact ⟨equal_of_innerEq hv, innerEq_of_equal⟩

/-! ## Names -/

theorem enumValueName_zero {x : Double} (h : x.isZero = true) :
    enumValueName (.double x) = "_0_0" := by
  have positive : Naming.sanitizeEnumText "0.0" = "_0_0" := by decide
  have negative : Naming.sanitizeEnumText "-0.0" = "_0_0" := by decide
  have unreserved : "_0_0" ∉ reservedEnumValues := by decide
  have name : Naming.sanitizeEnumValue (.double x) = "_0_0" := by
    unfold Double.isZero at h
    split at h
    · rename_i neg m q hx
      obtain rfl := of_decide_eq_true h
      show Naming.sanitizeEnumText (NumberLayout.text displayLayout x) = _
      unfold NumberLayout.text
      rw [hx]
      cases neg
      · exact positive
      · exact negative
    · cases h
  unfold enumValueName
  rw [name]
  exact if_neg unreserved

/-- Equal scalars of one kind differ at most in the sign of a zero, which no name shows. -/
theorem enumValueName_congr {v w : Value} (hv : v.isScalar = true) (kind : v.sameKind w = true)
    (loose : v.looseEq w = true) : enumValueName v = enumValueName w := by
  cases v with
  | null =>
      cases w with
      | null => rfl
      | _ => cases loose
  | str s =>
      cases w with
      | str t => rw [beq_iff_eq.mp (show (s == t) = true from loose)]
      | _ => cases loose
  | bool b =>
      cases w with
      | bool c =>
          have same : b = c := by cases b <;> cases c <;> first | rfl | cases loose
          rw [same]
      | _ => simp [sameKind, kindWord] at kind
  | int n =>
      cases w with
      | int m => rw [beq_iff_eq.mp (show (n == m) = true from loose)]
      | _ => simp [sameKind, kindWord] at kind
  | double x =>
      cases w with
      | double y =>
          obtain ⟨-, -, rfl | ⟨zx, zy⟩⟩ := Double.numEq_iff.mp loose
          · rfl
          · rw [enumValueName_zero zx, enumValueName_zero zy]
      | _ => simp [sameKind, kindWord] at kind
  | arr _ => cases hv
  | obj _ => cases hv
  | knot _ => cases hv

end ResourceGraph.Value
