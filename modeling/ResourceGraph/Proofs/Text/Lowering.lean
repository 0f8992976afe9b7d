import Mathlib.Data.List.Infix
import Mathlib.Data.List.TakeWhile
import ResourceGraph.Text.Case

/-!
# Lower case in context

A text is lowered character by character. All that a piece of it depends on beyond its own
characters is the form of its capital sigmas, and a sigma looks no further than the next character
on either side that is not case-ignorable. So a piece is lowered alike wherever it stands exactly if
each of its sigmas has that decided inside the piece.
-/

namespace ResourceGraph.Text

variable {before before' after after' : List Char}

/-! ## Capital sigmas -/

/-- The form that a capital sigma takes, given in reverse the characters before it. -/
def sigmaBetween (before after : List Char) : Char :=
  if startsCased before && !startsCased after then 'ς' else 'σ'

/-- More characters around a capital sigma can change its form. -/
def undecided (before after : List Char) : Bool :=
  before.all isCaseIgnorable && !startsCased after ||
    startsCased before && after.all isCaseIgnorable

theorem startsCased_of_all {cs : List Char} (h : cs.all isCaseIgnorable = true) :
    startsCased cs = false := by
  have dropped : cs.dropWhile isCaseIgnorable = [] :=
    List.dropWhile_eq_nil_iff.mpr (List.all_eq_true.mp h)
  rw [startsCased, dropped]

theorem startsCased_append (cs ds : List Char) : startsCased (cs ++ ds)
    = if cs.all isCaseIgnorable then startsCased ds else startsCased cs := by
  induction cs with
  | nil => rfl
  | cons c cs ih =>
      by_cases hc : isCaseIgnorable c = true
      · simpa [startsCased, List.dropWhile_cons, hc] using ih
      · simp [startsCased, hc]

theorem startsCased_append_of_cased {cs : List Char} (h : startsCased cs = true)
    (ds : List Char) : startsCased (cs ++ ds) = true := by
  rw [startsCased_append]
  split
  · rename_i ignorable
    exact absurd h (by rw [startsCased_of_all ignorable]; nofun)
  · exact h

theorem sigmaBetween_eq_final :
    sigmaBetween before after = 'ς' ↔ startsCased before = true ∧ startsCased after = false := by
  unfold sigmaBetween
  cases startsCased before <;> cases startsCased after <;> decide

theorem sigmaBetween_eq_inner :
    sigmaBetween before after = 'σ' ↔ (startsCased before = true → startsCased after = true) := by
  unfold sigmaBetween
  cases startsCased before <;> cases startsCased after <;> decide

/-- A sigma that is decided keeps its form. -/
theorem sigmaBetween_append (h : undecided before after = false) (outer outer' : List Char) :
    sigmaBetween (before ++ outer) (after ++ outer') = sigmaBetween before after := by
  unfold sigmaBetween
  rw [startsCased_append, startsCased_append]
  unfold undecided at h
  cases hb : before.all isCaseIgnorable <;> cases ha : after.all isCaseIgnorable
  · rfl
  · have plain : startsCased before = false := by simpa [hb, ha] using h
    rw [plain]
    rfl
  · have cased : startsCased after = true := by simpa [hb, ha] using h
    simp [cased]
  · simp [hb, startsCased_of_all ha] at h

/-! ## Pieces of a text -/

/-- The lowercase of a piece of a text, given the rest around it, in reverse what stands before. -/
def lowerBetween (before after : List Char) : List Char → List Char
  | [] => []
  | c :: rest =>
    (if c = 'Σ' then [sigmaBetween before (rest ++ after)] else lowerChar c) ++
      lowerBetween (c :: before) after rest

theorem lowerAfter_eq (before cs : List Char) :
    lowerAfter before cs = lowerBetween before [] cs := by
  induction cs generalizing before with
  | nil => rfl
  | cons c rest ih =>
      rw [lowerAfter, lowerBetween, ih, List.append_nil]
      rfl

theorem toList_lower (s : String) : (lower s).toList = lowerBetween [] [] s.toList := by
  rw [lower, String.toList_ofList, lowerAfter_eq]

theorem lowerBetween_append (before after cs ds : List Char) :
    lowerBetween before after (cs ++ ds)
      = lowerBetween before (ds ++ after) cs ++ lowerBetween (cs.reverse ++ before) after ds := by
  induction cs generalizing before with
  | nil => rfl
  | cons c cs ih =>
      rw [List.cons_append, lowerBetween, lowerBetween, ih, List.append_assoc, List.append_assoc,
        List.reverse_cons, List.append_assoc]
      rfl

/-- A piece that keeps its lowercase in a text is found in it. -/
theorem infix_of_lowerBetween_eq {front piece back : List Char}
    (h : lowerBetween front.reverse back piece = lowerBetween [] [] piece) :
    lowerBetween [] [] piece <:+: lowerBetween [] [] (front ++ piece ++ back) := by
  rw [lowerBetween_append, lowerBetween_append, List.append_nil, List.append_nil, h]
  exact ⟨_, _, rfl⟩

/-! ## Texts that are lowered alike everywhere -/

/-- Whether every capital sigma is decided, given in reverse the characters before. -/
def steadyAfter (before : List Char) : List Char → Bool
  | [] => true
  | c :: rest => !(c == 'Σ' && undecided before rest) && steadyAfter (c :: before) rest

/-- No capital sigma in the text takes its form from what may stand around the text. -/
def Steady (s : String) : Prop := steadyAfter [] s.toList = true

instance (s : String) : Decidable (Steady s) := inferInstanceAs (Decidable (_ = true))

theorem steadyAfter_of_notMem {cs : List Char} (h : 'Σ' ∉ cs) : steadyAfter before cs = true := by
  induction cs generalizing before with
  | nil => rfl
  | cons c cs ih =>
      rw [List.mem_cons, not_or] at h
      rw [steadyAfter, ih h.2, beq_false_of_ne (Ne.symm h.1)]
      rfl

/-- A text without a capital sigma is steady. -/
theorem steady_of_notMem {s : String} (h : 'Σ' ∉ s.toList) : Steady s := steadyAfter_of_notMem h

theorem lowerBetween_of_steady {cs : List Char} (h : steadyAfter before cs = true)
    (outer outer' : List Char) :
    lowerBetween (before ++ outer) outer' cs = lowerBetween before [] cs := by
  induction cs generalizing before with
  | nil => rfl
  | cons c rest ih =>
      rw [steadyAfter, Bool.and_eq_true, Bool.not_eq_true'] at h
      have tail : lowerBetween (c :: before ++ outer) outer' rest = _ := ih h.2
      rw [lowerBetween, lowerBetween, ← List.cons_append, tail]
      split
      · rename_i sigma
        have decided : undecided before rest = false := by simpa [sigma] using h.1
        rw [sigmaBetween_append decided, List.append_nil]
      · rfl

theorem exists_of_not_steadyAfter {cs : List Char} (h : steadyAfter before cs = false) :
    ∃ front back, cs = front ++ 'Σ' :: back ∧ undecided (front.reverse ++ before) back = true := by
  induction cs generalizing before with
  | nil => cases h
  | cons c rest ih =>
      by_cases here : (c == 'Σ' && undecided before rest) = true
      · obtain ⟨sigma, open_⟩ := Bool.and_eq_true_iff.mp here
        exact ⟨[], rest, by rw [beq_iff_eq.mp sigma]; rfl, open_⟩
      · rw [steadyAfter, Bool.eq_false_iff.mpr here] at h
        obtain ⟨front, back, rfl, open_⟩ := ih h
        exact ⟨c :: front, back, rfl, by simpa using open_⟩

/-! ## Counting a form of the sigma -/

/-- If every sigma that has the form in one context has it in the other, it does not occur more
often there. -/
theorem count_lowerBetween_le {form : Char}
    (h : ∀ near far, sigmaBetween (near ++ before') (far ++ after') = form →
      sigmaBetween (near ++ before) (far ++ after) = form) (cs : List Char) :
    (lowerBetween before' after' cs).count form ≤ (lowerBetween before after cs).count form := by
  induction cs generalizing before before' with
  | nil => exact Nat.le_refl _
  | cons c rest ih =>
      rw [lowerBetween, lowerBetween, List.count_append, List.count_append]
      refine Nat.add_le_add ?_ (ih fun near far => by simpa using h (near ++ [c]) far)
      split
      · rw [List.count_singleton, List.count_singleton]
        split
        · rename_i same
          rw [beq_iff_eq] at same
          exact (if_pos (beq_iff_eq.mpr (h [] rest same))).ge
        · exact Nat.zero_le _
      · exact Nat.le_refl _

/-- It occurs less often if one of the sigmas loses it. -/
theorem count_lowerBetween_lt {form : Char} {front back : List Char}
    (h : ∀ near far, sigmaBetween (near ++ before') (far ++ after') = form →
      sigmaBetween (near ++ before) (far ++ after) = form)
    (has : sigmaBetween (front.reverse ++ before) (back ++ after) = form)
    (loses : sigmaBetween (front.reverse ++ before') (back ++ after') ≠ form) :
    (lowerBetween before' after' (front ++ 'Σ' :: back)).count form
      < (lowerBetween before after (front ++ 'Σ' :: back)).count form := by
  have first : (lowerBetween before' ('Σ' :: back ++ after') front).count form
      ≤ (lowerBetween before ('Σ' :: back ++ after) front).count form :=
    count_lowerBetween_le (fun near far => by simpa using h near (far ++ 'Σ' :: back)) front
  have last : (lowerBetween ('Σ' :: (front.reverse ++ before')) after' back).count form
      ≤ (lowerBetween ('Σ' :: (front.reverse ++ before)) after back).count form :=
    count_lowerBetween_le (fun near far => by simpa using h (near ++ 'Σ' :: front.reverse) far) back
  rw [lowerBetween_append, lowerBetween_append, lowerBetween, lowerBetween, if_pos rfl, if_pos rfl,
    has]
  simp only [List.count_append, List.count_singleton, beq_self_eq_true, if_true,
    beq_false_of_ne loses, Bool.false_eq_true, if_false]
  omega

/-! ## Occurrences in the lowercase of a text -/

theorem startsCased_letter : startsCased ['a'] = true := by decide +kernel

/-- A text whose lowercase lacks the lowercase of a piece: a letter beside the piece decides one of
its sigmas the other way, and none is decided back. -/
theorem exists_missed {cs : List Char} (h : steadyAfter [] cs = false) :
    ∃ front back, ¬ lowerBetween [] [] cs <:+: lowerBetween [] [] (front ++ cs ++ back) := by
  obtain ⟨front, back, rfl, open_⟩ := exists_of_not_steadyAfter h
  rw [List.append_nil, undecided, Bool.or_eq_true, Bool.and_eq_true, Bool.and_eq_true] at open_
  rcases open_ with ⟨ignorable, plain⟩ | ⟨cased, ignorable⟩
  · refine ⟨['a'], [], fun occurs => ?_⟩
    -- an inner sigma at the front of the piece becomes final behind a letter
    have fewer : (lowerBetween ['a'] [] (front ++ 'Σ' :: back)).count 'σ'
        < (lowerBetween [] [] (front ++ 'Σ' :: back)).count 'σ' := by
      apply count_lowerBetween_lt
      · intro near far
        simp only [sigmaBetween_eq_inner, List.append_nil]
        exact fun inner cased => inner (startsCased_append_of_cased cased _)
      · rw [sigmaBetween_eq_inner, List.append_nil, startsCased_of_all ignorable]
        nofun
      · rw [Ne, sigmaBetween_eq_inner, startsCased_append, if_pos ignorable, List.append_nil]
        intro inner
        rw [inner startsCased_letter] at plain
        cases plain
    have shown : lowerBetween [] [] (['a'] ++ (front ++ 'Σ' :: back) ++ [])
        = ['a'] ++ lowerBetween ['a'] [] (front ++ 'Σ' :: back) := by
      rw [List.append_nil]
      rfl
    have among := occurs.sublist.count_le 'σ'
    rw [shown, List.count_append, List.count_singleton] at among
    exact absurd fewer (by simpa using among)
  · refine ⟨[], ['a'], fun occurs => ?_⟩
    -- a final sigma at the end of the piece becomes an inner one before a letter
    have fewer : (lowerBetween [] ['a'] (front ++ 'Σ' :: back)).count 'ς'
        < (lowerBetween [] [] (front ++ 'Σ' :: back)).count 'ς' := by
      apply count_lowerBetween_lt
      · intro near far
        rw [sigmaBetween_eq_final, sigmaBetween_eq_final, List.append_nil, List.append_nil]
        rintro ⟨cased, plain⟩
        refine ⟨cased, Bool.eq_false_iff.mpr fun starts => ?_⟩
        rw [startsCased_append_of_cased starts] at plain
        cases plain
      · rw [sigmaBetween_eq_final, List.append_nil, List.append_nil]
        exact ⟨cased, startsCased_of_all ignorable⟩
      · rw [Ne, sigmaBetween_eq_final, startsCased_append back, if_pos ignorable]
        rintro ⟨-, plain⟩
        exact absurd (startsCased_letter.symm.trans plain) nofun
    have shown : lowerBetween [] [] ([] ++ (front ++ 'Σ' :: back) ++ ['a'])
        = lowerBetween [] ['a'] (front ++ 'Σ' :: back) ++ ['a'] := by
      rw [List.nil_append, lowerBetween_append, List.append_nil]
      rfl
    have among := occurs.sublist.count_le 'ς'
    rw [shown, List.count_append, List.count_singleton] at among
    exact absurd fewer (by simpa using among)

/-- A text is found in every text that it occurs in, both in lowercase, exactly if it is steady. -/
theorem lower_infix_iff {s : String} : (∀ text : String, s.toList <:+: text.toList →
    (lower s).toList <:+: (lower text).toList) ↔ Steady s := by
  constructor
  · intro found
    by_contra unsteady
    obtain ⟨front, back, missed⟩ := exists_missed (Bool.eq_false_iff.mpr unsteady)
    have occurs := found (String.ofList (front ++ s.toList ++ back))
    rw [toList_lower, toList_lower, String.toList_ofList] at occurs
    exact missed (occurs ⟨front, back, rfl⟩)
  · rintro steady text ⟨front, back, occurs⟩
    rw [toList_lower, toList_lower, ← occurs]
    exact infix_of_lowerBetween_eq (lowerBetween_of_steady steady _ _)

example : Steady "ΟΔΟΣ ΕΡΜΟΥ" ∧ ¬ Steady "ΟΔΟΣ" := by decide +kernel

end ResourceGraph.Text
