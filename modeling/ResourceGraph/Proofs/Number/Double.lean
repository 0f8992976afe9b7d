import Mathlib.Algebra.Group.Nat.Defs
import ResourceGraph.Number.Double

/-!
# Doubles that are equal as numbers

A finite double is determined by its sign and by its magnitude, counted in units of `2^-1074`; only
zero has both signs. So two doubles that are equal to one integer are equal to each other, and
doubles that are equal as numbers are equal to the same integers.
-/

namespace ResourceGraph.Double

theorem pow2_eq (n : Nat) : pow2 n = 2 ^ n := rfl

/-- Of a finite double, the exponent above the least one. -/
def Normal (m : Nat) (q : Int) : Prop :=
  -1074 ≤ q ∧ m < 2 ^ 53 ∧ (-1074 < q → 2 ^ 52 ≤ m)

/-- The bits of a finite double, read off its parts. -/
theorem finite_bits {x : Double} {neg : Bool} {m : Nat} {q : Int}
    (h : x.parts = .finite neg m q) :
    Normal m q ∧ x.bits.toNat = (if neg then 2 ^ 63 else 0) + (q + 1074).toNat * 2 ^ 52 + m := by
  have size := x.bits.toNat_lt
  unfold parts at h
  dsimp only at h
  generalize x.bits.toNat = b at h size ⊢
  have sign : (if decide (pow2 63 ≤ b) then 2 ^ 63 else 0) = b / 2 ^ 63 * 2 ^ 63 := by
    by_cases hb : pow2 63 ≤ b
    · rw [if_pos (decide_eq_true hb)]
      rw [pow2_eq] at hb
      omega
    · rw [if_neg (by rwa [decide_eq_true_iff])]
      rw [pow2_eq] at hb
      omega
  by_cases top : b / pow2 52 % pow2 11 = 2047
  · rw [if_pos top] at h
    split at h <;> cases h
  · rw [if_neg top] at h
    by_cases bottom : b / pow2 52 % pow2 11 = 0
    · rw [if_pos bottom] at h
      cases h
      rw [sign]
      simp only [pow2_eq] at bottom ⊢
      exact ⟨⟨by omega, by omega, by omega⟩, by omega⟩
    · rw [if_neg bottom] at h
      cases h
      rw [sign]
      simp only [pow2_eq] at top bottom ⊢
      exact ⟨⟨by omega, by omega, by omega⟩, by omega⟩

theorem eq_of_parts {x y : Double} {neg : Bool} {m : Nat} {q : Int}
    (hx : x.parts = .finite neg m q) (hy : y.parts = .finite neg m q) : x = y := by
  have same : x.bits.toNat = y.bits.toNat := (finite_bits hx).2.trans (finite_bits hy).2.symm
  cases x
  cases y
  exact congrArg Double.mk (UInt64.toNat_inj.mp same)

/-- Of two magnitudes, that of the larger exponent is larger. -/
theorem Normal.ne_of_lt {m m' : Nat} {q q' : Int} (h : Normal m q) (h' : Normal m' q')
    (lt : q < q') : m * 2 ^ (q + 1074).toNat ≠ m' * 2 ^ (q' + 1074).toNat := by
  obtain ⟨low, size, -⟩ := h
  obtain ⟨-, -, normal⟩ := h'
  intro same
  have more : (q' + 1074).toNat = (q + 1074).toNat + ((q' - q - 1).toNat + 1) := by omega
  have shifted : m' * 2 ^ (q' + 1074).toNat
      = m' * 2 ^ (q' - q - 1).toNat * 2 * 2 ^ (q + 1074).toNat := by
    rw [more, Nat.pow_add, Nat.pow_succ]
    ac_rfl
  have reduced := Nat.eq_of_mul_eq_mul_right (Nat.two_pow_pos _) (same.trans shifted)
  have large : m' ≤ m' * 2 ^ (q' - q - 1).toNat := Nat.le_mul_of_pos_right _ (Nat.two_pow_pos _)
  have least := normal (by omega)
  omega

theorem Normal.unique {m m' : Nat} {q q' : Int} (h : Normal m q) (h' : Normal m' q')
    (same : m * 2 ^ (q + 1074).toNat = m' * 2 ^ (q' + 1074).toNat) : m = m' ∧ q = q' := by
  rcases Int.lt_trichotomy q q' with lt | rfl | lt
  · exact absurd same (h.ne_of_lt h' lt)
  · exact ⟨Nat.eq_of_mul_eq_mul_right (Nat.two_pow_pos _) same, rfl⟩
  · exact absurd same.symm (h'.ne_of_lt h lt)

theorem natAbs_signed (neg : Bool) (a : Nat) :
    (if neg then -(a : Int) else a).natAbs = a ∧
      (if neg then (if neg then -(a : Int) else a) ≤ 0 else 0 ≤ (if neg then -(a : Int) else a)) := by
  cases neg
  · exact ⟨rfl, Int.natCast_nonneg a⟩
  · exact ⟨Int.natAbs_neg a, Int.neg_nonpos_of_nonneg (Int.natCast_nonneg a)⟩

/-- An integer that a double is equal to has its magnitude and its sign. -/
theorem toInt?_eq_some {x : Double} {k : Int} (h : x.toInt? = some k) :
    ∃ neg m q, x.parts = .finite neg m q ∧ m * 2 ^ (q + 1074).toNat = k.natAbs * pow2 1074 ∧
      (if neg then k ≤ 0 else 0 ≤ k) := by
  unfold toInt? at h
  split at h
  · rename_i neg m q hx
    have low := (finite_bits hx).1.1
    split at h
    · have more : (q + 1074).toNat = q.toNat + 1074 := by omega
      obtain ⟨abs, sign⟩ := natAbs_signed neg (m * pow2 q.toNat)
      refine ⟨neg, m, q, hx, ?_, Option.some.inj h ▸ sign⟩
      rw [← Option.some.inj h, abs, pow2_eq, pow2_eq, more, Nat.pow_add, Nat.mul_assoc]
    · split at h
      · rename_i whole
        have all : 1074 = (-q).toNat + (q + 1074).toNat := by omega
        obtain ⟨abs, sign⟩ := natAbs_signed neg (m / pow2 (-q).toNat)
        refine ⟨neg, m, q, hx, ?_, Option.some.inj h ▸ sign⟩
        have quotient := Nat.div_mul_cancel (Nat.dvd_of_mod_eq_zero whole)
        rw [← Option.some.inj h, abs, pow2_eq 1074, all, Nat.pow_add, ← Nat.mul_assoc,
          ← pow2_eq (-q).toNat, quotient]
      · cases h
  · cases h

/-! ## Equality of numbers -/

theorem numEq_iff {x y : Double} : x.numEq y = true ↔
    x.isNaN = false ∧ y.isNaN = false ∧ (x = y ∨ x.isZero = true ∧ y.isZero = true) := by
  simp [numEq, and_assoc]

theorem numEq_comm (x y : Double) : x.numEq y = y.numEq x := by
  rw [Bool.eq_iff_iff, numEq_iff, numEq_iff]
  constructor <;> rintro ⟨hx, hy, rfl | ⟨zx, zy⟩⟩
  · exact ⟨hy, hx, Or.inl rfl⟩
  · exact ⟨hy, hx, Or.inr ⟨zy, zx⟩⟩
  · exact ⟨hy, hx, Or.inl rfl⟩
  · exact ⟨hy, hx, Or.inr ⟨zy, zx⟩⟩

theorem numEq_trans {x y z : Double} (h : x.numEq y = true) (h' : y.numEq z = true) :
    x.numEq z = true := by
  rw [numEq_iff] at h h' ⊢
  obtain ⟨hx, -, rfl | ⟨zx, zy⟩⟩ := h
  · exact h'
  · obtain ⟨-, hz, rfl | ⟨-, zz⟩⟩ := h'
    · exact ⟨hx, hz, Or.inr ⟨zx, zy⟩⟩
    · exact ⟨hx, hz, Or.inr ⟨zx, zz⟩⟩

theorem toInt?_of_isZero {x : Double} (h : x.isZero = true) : x.toInt? = some 0 := by
  unfold isZero at h
  split at h
  · rename_i neg m q hx
    obtain rfl := of_decide_eq_true h
    rw [toInt?, hx]
    cases neg <;> simp
  · cases h

/-- Doubles that are equal as numbers are equal to the same integers. -/
theorem toInt?_congr {x y : Double} (h : x.numEq y = true) : x.toInt? = y.toInt? := by
  obtain ⟨-, -, rfl | ⟨zx, zy⟩⟩ := numEq_iff.mp h
  · rfl
  · rw [toInt?_of_isZero zx, toInt?_of_isZero zy]

theorem isNaN_of_finite {x : Double} {neg : Bool} {m : Nat} {q : Int}
    (h : x.parts = .finite neg m q) : x.isNaN = false := by
  rw [isNaN, h]

/-- Doubles that are equal to one integer are equal as numbers. -/
theorem numEq_of_toInt? {x y : Double} {k : Int} (hx : x.toInt? = some k)
    (hy : y.toInt? = some k) : x.numEq y = true := by
  obtain ⟨neg, m, q, px, mx, sx⟩ := toInt?_eq_some hx
  obtain ⟨neg', m', q', py, my, sy⟩ := toInt?_eq_some hy
  obtain ⟨rfl, rfl⟩ := (finite_bits px).1.unique (finite_bits py).1 (mx.trans my.symm)
  refine numEq_iff.mpr ⟨isNaN_of_finite px, isNaN_of_finite py, ?_⟩
  by_cases signs : neg = neg'
  · exact Or.inl (eq_of_parts px (signs ▸ py))
  · -- with both signs the integer is zero, and so is the magnitude
    have zero : k = 0 := by
      cases neg <;> cases neg'
      · exact absurd rfl signs
      · exact Int.le_antisymm sy sx
      · exact Int.le_antisymm sx sy
      · exact absurd rfl signs
    have none : m = 0 := by
      rw [zero, Int.natAbs_zero, Nat.zero_mul] at mx
      exact (Nat.mul_eq_zero.mp mx).resolve_right (Nat.ne_of_gt (Nat.two_pow_pos _))
    exact Or.inr ⟨by rw [isZero, px, none]; rfl, by rw [isZero, py, none]; rfl⟩

end ResourceGraph.Double
