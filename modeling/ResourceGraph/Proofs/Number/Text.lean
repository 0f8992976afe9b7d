import ResourceGraph.Number.Shortest

/-!
# Numbers as texts

A finite double is written with a point or with an exponent, and an integer with neither. So no
double is written like an integer, whether it is equal to one or not.
-/

namespace ResourceGraph

theorem mem_text_nat {n : Nat} {c : Char} (h : c ∈ n.repr.toList) : c.isDigit = true := by
  rw [Nat.repr_eq_ofList_toDigits, String.toList_ofList] at h
  exact Nat.isDigit_of_mem_toDigits (by decide) (Nat.le_refl 10) h

/-- An integer is written with digits, and with a sign if it is negative. -/
theorem mem_text_int {n : Int} {c : Char} (h : c ∈ (toString n).toList) :
    c = '-' ∨ c.isDigit = true := by
  rw [Int.toString_eq_repr] at h
  cases n with
  | ofNat m => exact Or.inr (mem_text_nat h)
  | negSucc m =>
      have split : (Int.negSucc m).repr = "-" ++ (m + 1).repr := rfl
      rw [split, String.toList_append] at h
      rcases List.mem_append.mp h with sign | digit
      · exact Or.inl (List.mem_singleton.mp sign)
      · exact Or.inr (mem_text_nat digit)

namespace NumberLayout

variable (l : NumberLayout)

theorem mark_mem_decimalText (x : Decimal) : '.' ∈ l.decimalText x ∨ 'e' ∈ l.decimalText x := by
  unfold decimalText
  split
  rename_i d e _
  dsimp only
  split
  · refine Or.inl ?_
    split
    · exact List.mem_append_left _ (List.mem_append_left _ (by decide))
    · split
      · exact List.mem_append_right _ (by decide)
      · exact List.mem_append_right _ (List.mem_cons_self ..)
  · refine Or.inr ?_
    cases digits : Nat.toDigits 10 d with
    | nil => exact absurd digits Nat.toDigits_ne_nil
    | cons c rest =>
        cases rest with
        | nil => exact List.mem_cons_of_mem _ (List.mem_cons_self ..)
        | cons c' rest => exact List.mem_append_right _ (List.mem_cons_self ..)

theorem mark_mem_text {x : Double} {neg : Bool} {m : Nat} {q : Int}
    (finite : x.parts = .finite neg m q) :
    '.' ∈ (l.text x).toList ∨ 'e' ∈ (l.text x).toList := by
  unfold text
  rw [finite]
  dsimp only
  split
  · rw [String.toList_append]
    exact Or.inl (List.mem_append_right _ (by decide))
  · rw [String.toList_append, String.toList_ofList]
    exact (l.mark_mem_decimalText _).imp (List.mem_append_right _) (List.mem_append_right _)

theorem text_ne_toString {x : Double} {neg : Bool} {m : Nat} {q : Int}
    (finite : x.parts = .finite neg m q) (n : Int) : l.text x ≠ toString n := by
  intro same
  rcases l.mark_mem_text finite with mark | mark <;>
  · rw [same] at mark
    exact absurd (mem_text_int mark) (by decide)

end NumberLayout

end ResourceGraph
