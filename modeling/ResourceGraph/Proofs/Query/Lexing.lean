import ResourceGraph.Proofs.Naming.Names

/-!
# Texts without a lexical defect

A text of names, marks and blanks has a token at every place where one starts. Such texts may be
put one after the other: two names that meet are one name.
-/

namespace ResourceGraph.Query

/-- Characters that are names, marks and what is ignored, without comments and values. -/
inductive Lexical : List Char → Prop
  | nil : Lexical []
  | ignored {c rest} (h : isIgnored c = true) (tail : Lexical rest) : Lexical (c :: rest)
  | mark {c rest} (h : (Mark.ofChar? c).isSome = true) (tail : Lexical rest) : Lexical (c :: rest)
  | name {c word rest} (start : isNameStart c = true) (chars : ∀ d ∈ word, isNameChar d = true)
      (tail : Lexical rest) : Lexical (c :: (word ++ rest))

theorem Lexical.append {as bs : List Char} (ha : Lexical as) (hb : Lexical bs) :
    Lexical (as ++ bs) := by
  induction ha with
  | nil => exact hb
  | ignored h _ ih => exact .ignored h ih
  | mark h _ ih => exact .mark h ih
  | name start chars _ ih =>
      rw [List.cons_append, List.append_assoc]
      exact .name start chars ih

theorem not_isNameChar_of_ignored {c : Char} (h : isIgnored c = true) : isNameChar c = false := by
  simp only [isIgnored, isLineEnd, Bool.or_eq_true, beq_iff_eq] at h
  rcases h with (((rfl | rfl) | rfl) | rfl) | (rfl | rfl) <;> decide

/-- A mark is the one character that it is made of. -/
theorem mark_char {c : Char} (h : (Mark.ofChar? c).isSome = true) :
    isNameChar c = false ∧ isIgnored c = false ∧ c ≠ '#' := by
  unfold Mark.ofChar? at h
  split at h <;> first | decide | cases h

theorem nameStart_char {c : Char} (h : isNameStart c = true) :
    isIgnored c = false ∧ c ≠ '#' ∧ Mark.ofChar? c = none ∧ c ≠ '.' ∧ c ≠ '"' ∧
      (isDigit c || c == '-') = false := by
  refine Naming.forall_isNameStart (P := fun c => isIgnored c = false ∧ c ≠ '#' ∧
    Mark.ofChar? c = none ∧ c ≠ '.' ∧ c ≠ '"' ∧ (isDigit c || c == '-') = false) ?_ h
  decide

/-- What stays of a text after the rest of a name. -/
theorem Lexical.dropName {cs : List Char} (h : Lexical cs) : Lexical (cs.dropWhile isNameChar) := by
  induction h with
  | nil => exact .nil
  | ignored h tail _ =>
      rw [List.dropWhile_cons_of_neg (by simp [not_isNameChar_of_ignored h])]
      exact .ignored h tail
  | mark h tail _ =>
      rw [List.dropWhile_cons_of_neg (by simp [(mark_char h).1])]
      exact .mark h tail
  | name start chars _ ih =>
      rw [List.dropWhile_cons_of_pos (by simp [isNameChar, start]),
        List.dropWhile_append_of_pos chars]
      exact ih

/-! ## Lexemes -/

theorem lexemesFrom_skip (skip offset : Nat) (cs : List Char) (h : skip ≤ cs.length) :
    lexemesFrom skip offset cs = lexemesFrom 0 (offset + skip) (cs.drop skip) := by
  induction skip generalizing offset cs with
  | zero => rfl
  | succ skip ih =>
      cases cs with
      | nil => simp at h
      | cons c cs =>
          rw [lexemesFrom, ih _ _ (by simpa using h), List.drop_succ_cons]
          congr 1
          omega

theorem scanToken_name {c : Char} (cs : List Char) (h : isNameStart c = true) :
    scanToken c cs = .ok (.name (String.ofList (c :: cs.takeWhile isNameChar)),
      (cs.takeWhile isNameChar).length + 1) := by
  obtain ⟨-, -, unmarked, dot, quote, digit⟩ := nameStart_char h
  unfold scanToken
  rw [unmarked]
  simp only [dot, quote, digit, h, if_false, if_true, Bool.false_eq_true, List.length_cons]

theorem drop_takeWhile {α : Type} (p : α → Bool) (as : List α) :
    as.drop (as.takeWhile p).length = as.dropWhile p :=
  (congrArg (List.drop _) List.takeWhile_append_dropWhile.symm).trans List.drop_left

theorem lexemesFrom_ok {cs : List Char} (h : Lexical cs) (offset : Nat) :
    ∀ l ∈ lexemesFrom 0 offset cs, ∃ t, l.content = .ok t := by
  -- A name is skipped as a whole, so the induction is on the length of the text.
  induction hn : cs.length using Nat.strongRecOn generalizing cs offset with
  | ind n ih =>
      cases h with
      | nil =>
          intro l hl
          rw [lexemesFrom, List.mem_singleton] at hl
          exact ⟨.endOfText, hl ▸ rfl⟩
      | ignored hc tail =>
          rw [lexemesFrom, if_pos hc]
          exact ih _ (by simp at hn; omega) tail _ rfl
      | @mark c rest hc tail =>
          obtain ⟨-, unignored, uncommented⟩ := mark_char hc
          obtain ⟨m, hm⟩ := Option.isSome_iff_exists.mp hc
          have scanned : scanToken c rest = .ok (.mark m, 1) := by
            unfold scanToken
            rw [hm]
          rw [lexemesFrom, if_neg (by simp [unignored]), if_neg uncommented, scanned]
          exact List.forall_mem_cons.mpr ⟨⟨_, rfl⟩, ih _ (by simp at hn; omega) tail _ rfl⟩
      | @name c word rest start chars tail =>
          obtain ⟨unignored, uncommented, -⟩ := nameStart_char start
          rw [lexemesFrom, if_neg (by simp [unignored]), if_neg uncommented,
            scanToken_name _ start]
          refine List.forall_mem_cons.mpr ⟨⟨_, rfl⟩, ?_⟩
          have hle : ((word ++ rest).takeWhile isNameChar).length ≤ (word ++ rest).length :=
            (List.takeWhile_prefix _).length_le
          have hdrop : (word ++ rest).drop ((word ++ rest).takeWhile isNameChar).length
              = rest.dropWhile isNameChar := by
            rw [drop_takeWhile, List.dropWhile_append_of_pos chars]
          rw [Nat.add_sub_cancel, lexemesFrom_skip _ _ _ hle, hdrop]
          have hlt := (List.dropWhile_suffix (l := rest) isNameChar).length_le
          exact ih _ (by simp at hn; omega) tail.dropName _ rfl

/-! ## Texts -/

/-- A text of names, marks and blanks. -/
def Clear (text : String) : Prop := Lexical text.toList

/-- A text without a lexical defect has a token in every lexeme. -/
theorem lexemes_ok {text : String} (h : Clear text) :
    ∀ l ∈ lexemes text, ∃ t, l.content = .ok t := lexemesFrom_ok h 0

theorem clear_empty : Clear "" := .nil

theorem Clear.append {s t : String} (hs : Clear s) (ht : Clear t) : Clear (s ++ t) := by
  unfold Clear
  rw [String.toList_append]
  exact Lexical.append hs ht

theorem clear_name {s : String} (h : Naming.isName s = true) : Clear s := by
  unfold Clear
  cases hs : s.toList with
  | nil => exact .nil
  | cons c rest =>
      rw [Naming.isName, hs] at h
      obtain ⟨start, chars, -⟩ := Naming.isNameText_cons.mp h
      rw [← List.append_nil rest]
      refine .name start (fun d hd => ?_) .nil
      rcases Naming.isNameChar_iff.mp (chars d hd) with hd | hd
      · simp [isNameChar, hd]
      · have digit : isDigit d = true := hd
        simp [isNameChar, digit]

theorem clear_punctuation {s : String}
    (h : (s.toList.all fun c => isIgnored c || (Mark.ofChar? c).isSome) = true) : Clear s := by
  have lexical {cs : List Char}
      (h : (cs.all fun c => isIgnored c || (Mark.ofChar? c).isSome) = true) : Lexical cs := by
    induction cs with
    | nil => exact .nil
    | cons c rest ih =>
        rw [List.all_cons, Bool.and_eq_true, Bool.or_eq_true] at h
        rcases h.1 with hc | hc
        · exact .ignored hc (ih h.2)
        · exact .mark hc (ih h.2)
  exact lexical h

theorem clear_join {texts : List String} (h : ∀ t ∈ texts, Clear t) : Clear (String.join texts) := by
  induction texts with
  | nil => exact clear_empty
  | cons t rest ih =>
      obtain ⟨ht, hrest⟩ := List.forall_mem_cons.mp h
      rw [String.join_cons]
      exact ht.append (ih hrest)

theorem clear_intercalate {separator : String} (hs : Clear separator) {texts : List String}
    (h : ∀ t ∈ texts, Clear t) : Clear (separator.intercalate texts) := by
  induction texts with
  | nil => exact clear_empty
  | cons t rest ih =>
      obtain ⟨ht, hrest⟩ := List.forall_mem_cons.mp h
      cases rest with
      | nil => rw [String.intercalate_singleton]; exact ht
      | cons u rest =>
          rw [String.intercalate_cons_cons]
          exact (ht.append hs).append (ih hrest)

end ResourceGraph.Query
