import Mathlib
import ResourceGraph.Api.Compilation
import ResourceGraph.Query.Lexeme

/-!
# Names that GraphQL takes

What each way of making a name gives. Fields and values always have names, whatever they were made
from; a type has one exactly when a character of a name is left to make it from.
-/

namespace ResourceGraph.Naming

open Query (isNameStart)

/-- `[_A-Za-z][_0-9A-Za-z]*`, without two underscores at the front. -/
def isNameText : List Char → Bool
  | [] => false
  | c :: rest => isNameStart c && rest.all isNameChar && !(c == '_' && rest.head? == some '_')

def isName (s : String) : Bool := isNameText s.toList

@[simp] theorem isName_ofList (cs : List Char) : isName (String.ofList cs) = isNameText cs := by
  rw [isName, String.toList_ofList]

theorem isNameText_cons {c : Char} {rest : List Char} : isNameText (c :: rest) = true ↔
    isNameStart c = true ∧ (∀ d ∈ rest, isNameChar d = true) ∧
      (c = '_' → rest.head? ≠ some '_') := by
  simp [isNameText, and_assoc, Decidable.imp_iff_not_or]

theorem isNameChar_iff {c : Char} :
    isNameChar c = true ↔ isNameStart c = true ∨ c.isDigit = true := by
  simp only [isNameChar, isNameStart, Char.isAlphanum, Bool.or_eq_true]
  exact or_right_comm

theorem isNameChar_of_mem {cs : List Char} (h : isNameText cs = true) :
    ∀ c ∈ cs, isNameChar c = true := by
  cases cs with
  | nil => simp
  | cons c rest =>
      obtain ⟨start, chars, -⟩ := isNameText_cons.mp h
      exact List.forall_mem_cons.mpr ⟨isNameChar_iff.mpr (Or.inl start), chars⟩

/-! ## Guarding the front -/

theorem isNameText_foldReserved {c : Char} {rest : List Char} (start : isNameStart c = true)
    (chars : ∀ d ∈ rest, isNameChar d = true) : isNameText (foldReserved (c :: rest)) = true := by
  unfold foldReserved
  split
  · rename_i tail he
    obtain ⟨rfl, rfl⟩ := List.cons.inj he
    refine isNameText_cons.mpr ⟨start, fun d hd => ?_, fun _ h => ?_⟩
    · exact chars d (List.mem_cons_of_mem _ ((List.dropWhile_suffix _).subset hd))
    · have first := List.head?_dropWhile_not (· == '_') tail
      rw [h] at first
      simp at first
  · rename_i hne
    refine isNameText_cons.mpr ⟨start, chars, fun hc hr => ?_⟩
    obtain ⟨tail, rfl⟩ := List.head?_eq_some_iff.mp hr
    exact hne tail (by rw [hc])

/-- Any characters of names give a name when their front is guarded. -/
theorem isNameText_guarded {cs : List Char} (some : cs ≠ [])
    (chars : ∀ c ∈ cs, isNameChar c = true) :
    isNameText (foldReserved (guardDigit cs)) = true := by
  cases cs with
  | nil => exact absurd rfl some
  | cons c rest =>
      rw [guardDigit]
      split
      · exact isNameText_foldReserved (by decide) chars
      · rename_i digit
        obtain ⟨head, tail⟩ := List.forall_mem_cons.mp chars
        exact isNameText_foldReserved ((isNameChar_iff.mp head).resolve_right digit) tail

/-! ## Fields and values -/

theorem isName_sanitizeFieldName (name : String) : isName (sanitizeFieldName name) = true := by
  unfold sanitizeFieldName
  split
  · decide
  · rename_i hne
    rw [isName_ofList]
    refine isNameText_guarded (fun h => hne (List.map_eq_nil_iff.mp h)) fun c hc => ?_
    obtain ⟨d, -, rfl⟩ := List.mem_map.mp hc
    split
    · assumption
    · decide

theorem isName_sanitizeEnumText (text : String) : isName (sanitizeEnumText text) = true := by
  unfold sanitizeEnumText
  dsimp only
  generalize hk : (text.toList.map fun c => if isSeparator c then '_' else c).filter isNameChar = kept
  have chars : ∀ c ∈ kept, isNameChar c = true := by
    intro c hc
    rw [← hk] at hc
    exact (List.mem_filter.mp hc).2
  cases kept with
  | nil => decide
  | cons c rest =>
      have guarded := isNameText_guarded (List.cons_ne_nil c rest) chars
      split
      · rename_i h; rw [h] at guarded; cases guarded
      · rw [isName_ofList]; exact guarded

theorem enumValueName_proper (v : Value) :
    isName (enumValueName v) = true ∧ enumValueName v ∉ reservedEnumValues := by
  have escaped : ∀ w ∈ reservedEnumValues,
      isName ("_" ++ w) = true ∧ "_" ++ w ∉ reservedEnumValues := by decide
  unfold enumValueName
  dsimp only
  split
  · rename_i h; exact escaped _ h
  · rename_i h; exact ⟨isName_sanitizeEnumText _, h⟩

/-! ## Types -/

theorem isNameStart_lt {c : Char} (h : isNameStart c = true) : c.toNat < 128 := by
  simp only [isNameStart, Char.isAlpha, Char.isUpper, Char.isLower, Bool.or_eq_true,
    Bool.and_eq_true, decide_eq_true_eq, beq_iff_eq, UInt32.le_iff_toNat_le] at h
  rcases h with (⟨-, h⟩ | ⟨-, h⟩) | rfl
  · exact Nat.lt_of_le_of_lt h (by decide)
  · exact Nat.lt_of_le_of_lt h (by decide)
  · decide

theorem isNameChar_lt {c : Char} (h : isNameChar c = true) : c.toNat < 128 := by
  rcases isNameChar_iff.mp h with start | digit
  · exact isNameStart_lt start
  · have high : c.val ≤ 57 := of_decide_eq_true (Bool.and_eq_true_iff.mp digit).2
    exact Nat.lt_of_le_of_lt (UInt32.le_iff_toNat_le.mp high) (by decide)

/-- What holds of the characters of ASCII holds of those of names. -/
theorem forall_isNameChar {P : Char → Prop}
    (h : ∀ i : Fin 128, isNameChar (Char.ofNat i) = true → P (Char.ofNat i)) {c : Char}
    (hc : isNameChar c = true) : P c := by
  have hi := h ⟨c.toNat, isNameChar_lt hc⟩
  rw [Char.ofNat_toNat] at hi
  exact hi hc

theorem forall_isNameStart {P : Char → Prop}
    (h : ∀ i : Fin 128, isNameStart (Char.ofNat i) = true → P (Char.ofNat i)) {c : Char}
    (hc : isNameStart c = true) : P c :=
  forall_isNameChar (P := fun c => isNameStart c = true → P c) (fun i _ => h i)
    (isNameChar_iff.mpr (Or.inl hc)) hc

/-- A character at the front of a name stays one in upper case. -/
theorem upperChar_of_isNameStart {c : Char} (h : isNameStart c = true) :
    Text.upperChar c = [c.toUpper] ∧ isNameStart c.toUpper = true ∧ (c.toUpper = '_' → c = '_') := by
  revert h
  refine fun h => forall_isNameStart (P := fun c => Text.upperChar c = [c.toUpper] ∧
    isNameStart c.toUpper = true ∧ (c.toUpper = '_' → c = '_')) ?_ h
  decide

theorem isName_capitalize {cs : List Char} (h : isNameText cs = true) :
    isName (Text.capitalize (String.ofList cs)) = true := by
  cases cs with
  | nil => cases h
  | cons c rest =>
      obtain ⟨start, chars, front⟩ := isNameText_cons.mp h
      obtain ⟨upper, start', underscore⟩ := upperChar_of_isNameStart start
      unfold Text.capitalize
      rw [String.toList_ofList]
      dsimp only
      rw [upper, isName_ofList]
      exact isNameText_cons.mpr ⟨start', chars, fun h => front (underscore h)⟩

/-- The text that the name of a type is made from. -/
def typeText (base parent : String) : List Char :=
  (if parent = "" then base else parent ++ Text.capitalize base).toList

theorem isName_typeName {base parent : String}
    (h : ∃ c ∈ typeText base parent, isNameChar c = true) : isName (typeName base parent) = true := by
  obtain ⟨c, hc, hn⟩ := h
  have some : (typeText base parent).filter isNameChar ≠ [] :=
    List.ne_nil_of_mem (List.mem_filter.mpr ⟨hc, hn⟩)
  exact isName_capitalize (isNameText_guarded some fun d hd => (List.mem_filter.mp hd).2)

theorem typeName_eq_empty {base parent : String}
    (h : ¬ ∃ c ∈ typeText base parent, isNameChar c = true) : typeName base parent = "" := by
  have none : (typeText base parent).filter isNameChar = [] :=
    List.filter_eq_nil_iff.mpr fun c hc hn => h ⟨c, hc, hn⟩
  unfold typeName
  dsimp only
  rw [show (if parent = "" then base else parent ++ Text.capitalize base).toList
    = typeText base parent from rfl, none]
  rfl

/-- A type has a name exactly when a character of one is left in the text it is made from. -/
theorem isName_typeName_iff_typeText {base parent : String} :
    isName (typeName base parent) = true ↔ ∃ c ∈ typeText base parent, isNameChar c = true := by
  refine ⟨fun h => ?_, isName_typeName⟩
  by_contra none
  rw [typeName_eq_empty none] at h
  cases h

/-- An outermost type is made from its base alone. -/
theorem isName_typeName_iff {base : String} :
    isName (typeName base "") = true ↔ ∃ c ∈ base.toList, isNameChar c = true := by
  rw [isName_typeName_iff_typeText, typeText, if_pos rfl]

theorem exists_isNameChar {s : String} (h : isName s = true) :
    ∃ c ∈ s.toList, isNameChar c = true := by
  obtain ⟨c, rest, hs⟩ : ∃ c rest, s.toList = c :: rest := by
    cases hs : s.toList with
    | nil => rw [isName, hs] at h; cases h
    | cons c rest => exact ⟨c, rest, rfl⟩
  have hc : c ∈ s.toList := hs ▸ List.mem_cons_self ..
  exact ⟨c, hc, isNameChar_of_mem h c hc⟩

/-- A nested type has a name, also inside a type that has none. -/
theorem isName_typeName_nested {base parent : String} (hb : isName base = true)
    (hp : parent = "" ∨ isName parent = true) : isName (typeName base parent) = true := by
  refine isName_typeName ?_
  unfold typeText
  split
  · exact exists_isNameChar hb
  · rename_i hne
    obtain ⟨c, hc, hn⟩ := exists_isNameChar (hp.resolve_left hne)
    exact ⟨c, by rw [String.toList_append]; exact List.mem_append_left _ hc, hn⟩

/-- A name may be continued with more of its characters. -/
theorem isName_append {s t : String} (hs : isName s = true)
    (ht : t.toList.all isNameChar = true) (front : t.toList.head? ≠ some '_') :
    isName (s ++ t) = true := by
  unfold isName at hs ⊢
  rw [String.toList_append]
  cases hc : s.toList with
  | nil => rw [hc] at hs; cases hs
  | cons c rest =>
      rw [hc] at hs
      obtain ⟨start, chars, first⟩ := isNameText_cons.mp hs
      rw [List.cons_append]
      refine isNameText_cons.mpr ⟨start, fun d hd => ?_, fun h => ?_⟩
      · exact (List.mem_append.mp hd).elim (chars d) (List.all_eq_true.mp ht d)
      · rw [List.head?_append]
        cases rest with
        | nil => exact front
        | cons d rest => exact first h

end ResourceGraph.Naming
