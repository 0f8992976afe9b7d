/-!
Walks through finite graphs end because every step enters something not seen before. `unseen all
seen` counts what is still to be seen; it falls with every new member of `all`.
-/

namespace ResourceGraph

variable {α : Type} [DecidableEq α]

def unseen (all seen : List α) : Nat := all.countP (· ∉ seen)

theorem unseen_cons_le (all seen : List α) (a : α) : unseen all (a :: seen) ≤ unseen all seen := by
  refine List.countP_mono_left fun x _ h => ?_
  simp only [decide_eq_true_eq, List.mem_cons, not_or] at h ⊢
  exact h.2

theorem unseen_cons_lt {all seen : List α} {a : α} (ha : a ∈ all) (hs : a ∉ seen) :
    unseen all (a :: seen) < unseen all seen := by
  induction all with
  | nil => simp at ha
  | cons b rest ih =>
    by_cases hb : b = a
    · subst hb
      have := unseen_cons_le rest seen b
      simp [unseen, hs] at this ⊢
      omega
    · have hr : a ∈ rest := (List.mem_cons.mp ha).resolve_left fun h => hb h.symm
      have := ih hr
      by_cases hm : b ∈ seen <;> simp [unseen, hm, hb] at this ⊢ <;> omega

/-- Numbers below a bound that are still to be seen. -/
def unseenFin {n : Nat} (seen : List (Fin n)) : Nat := unseen (List.finRange n) seen

theorem unseenFin_cons_lt {n : Nat} {seen : List (Fin n)} {i : Fin n} (h : i ∉ seen) :
    unseenFin (i :: seen) < unseenFin seen :=
  unseen_cons_lt (List.mem_finRange i) h

end ResourceGraph
