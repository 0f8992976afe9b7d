import Mathlib.Data.List.TakeWhile
import ResourceGraph.Text.Split

/-!
# Texts and their pieces

What is put together around a separator is cut there again, when the parts are without it. A cut at
the first separator leaves everything that is added at the end to the last part.
-/

namespace ResourceGraph

namespace Text

theorem splitAt_ne_nil (sep : Char) (cs : List Char) : splitAt sep cs ≠ [] := by
  cases cs with
  | nil => exact List.cons_ne_nil _ _
  | cons c cs =>
      rw [splitAt]
      split
      · exact List.cons_ne_nil _ _
      · split <;> exact List.cons_ne_nil _ _

/-- A separator ends the pieces before it. -/
theorem splitAt_append (sep : Char) (as bs : List Char) :
    splitAt sep (as ++ sep :: bs) = splitAt sep as ++ splitAt sep bs := by
  induction as with
  | nil => simp [splitAt]
  | cons a as ih =>
      rw [List.cons_append, splitAt, splitAt, ih]
      split
      · rfl
      · cases hs : splitAt sep as with
        | nil => exact absurd hs (splitAt_ne_nil sep as)
        | cons piece pieces => rfl

theorem splitAt_of_notMem {sep : Char} {cs : List Char} (h : sep ∉ cs) :
    splitAt sep cs = [cs] := by
  induction cs with
  | nil => rfl
  | cons c cs ih =>
      rw [List.mem_cons, not_or] at h
      rw [splitAt, if_neg (Ne.symm h.1), ih h.2]

theorem notMem_of_mem_splitAt {sep : Char} {cs piece : List Char}
    (h : piece ∈ splitAt sep cs) : sep ∉ piece := by
  induction cs generalizing piece with
  | nil =>
      obtain rfl := List.mem_singleton.mp h
      exact List.not_mem_nil
  | cons c cs ih =>
      rw [splitAt] at h
      split at h
      · rcases List.mem_cons.mp h with rfl | h
        · exact List.not_mem_nil
        · exact ih h
      · rename_i hc
        cases hs : splitAt sep cs with
        | nil => exact absurd hs (splitAt_ne_nil sep cs)
        | cons first rest =>
            rw [hs] at h ih
            rcases List.mem_cons.mp h with rfl | h
            · rw [List.mem_cons, not_or]
              exact ⟨Ne.symm hc, ih (List.mem_cons_self ..)⟩
            · exact ih (List.mem_cons_of_mem _ h)

theorem pieces_append (sep : Char) (as bs : List Char) :
    pieces sep (String.ofList (as ++ sep :: bs))
      = pieces sep (String.ofList as) ++ pieces sep (String.ofList bs) := by
  simp only [pieces, String.toList_ofList, splitAt_append, List.map_append]

/-- Texts without the separator are the pieces of what they make together. -/
theorem pieces_intercalate {sep : Char} {texts : List String} (some_text : texts ≠ [])
    (h : ∀ t ∈ texts, sep ∉ t.toList) :
    pieces sep ((String.singleton sep).intercalate texts) = texts := by
  induction texts with
  | nil => exact absurd rfl some_text
  | cons t rest ih =>
      obtain ⟨ht, hrest⟩ := List.forall_mem_cons.mp h
      have single : pieces sep t = [t] := by simp [pieces, splitAt_of_notMem ht]
      cases rest with
      | nil => rw [String.intercalate_singleton, single]
      | cons u rest =>
          have texts : ((String.singleton sep).intercalate (t :: u :: rest))
              = String.ofList (t.toList ++ sep ::
                  ((String.singleton sep).intercalate (u :: rest)).toList) := by
            rw [String.intercalate_cons_cons]
            exact String.toList_injective (by simp)
          rw [texts, pieces_append, String.ofList_toList, String.ofList_toList, single,
            ih (List.cons_ne_nil _ _) hrest]
          rfl

/-- From the first separator on everything stays behind it. -/
theorem dropWhile_append_sep (sep : Char) (as bs : List Char) :
    (as ++ sep :: bs).dropWhile (· != sep) = as.dropWhile (· != sep) ++ sep :: bs := by
  induction as with
  | nil => simp
  | cons a as ih =>
      by_cases h : a = sep
      · simp [h]
      · simpa [h] using ih

theorem takeWhile_append_sep (sep : Char) (as bs : List Char) :
    (as ++ sep :: bs).takeWhile (· != sep) = as.takeWhile (· != sep) := by
  induction as with
  | nil => simp
  | cons a as ih =>
      by_cases h : a = sep
      · simp [h]
      · simpa [h] using ih

/-- What is added without the separator goes to the last part. -/
theorem cutAt_append {sep : Char} {more : List Char} (h : sep ∉ more) (cs : List Char) :
    cutAt sep (cs ++ more) = match cutAt sep cs with
      | (front, some back) => (front, some (back ++ more))
      | (front, none) => (front ++ more, none) := by
  have none_more : more.dropWhile (· != sep) = [] :=
    List.dropWhile_eq_nil_iff.mpr fun c hc => bne_iff_ne.mpr fun he => h (he ▸ hc)
  unfold cutAt
  rw [List.dropWhile_append]
  cases hd : cs.dropWhile (· != sep) with
  | nil => simp [none_more]
  | cons c back =>
      have within : (cs.takeWhile (· != sep)).length ≠ cs.length := by
        intro same
        have parts := congrArg List.length (List.takeWhile_append_dropWhile (p := (· != sep)) (l := cs))
        rw [hd, List.length_append, List.length_cons] at parts
        omega
      simp [List.takeWhile_append, within]

end Text

end ResourceGraph
