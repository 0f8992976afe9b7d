import ResourceGraph.Proofs.Naming.Names

/-!
# Names are kept

A name that GraphQL takes is left as it is, by the way in which names of fields are made and by that
for values of enumerations; nothing else is, so a name that was made is kept when it is made again.
The name of a type is one exactly when a character of names is left in the text it is made from, and
one is left if the prefix or the base has any.
-/

namespace ResourceGraph.Naming

open Query (isNameStart)

/-! ## Characters -/

theorem isSeparator_of_isNameChar {c : Char} (h : isNameChar c = true) : isSeparator c = false :=
  forall_isNameChar (P := fun c => isSeparator c = false) (by decide) h

theorem isDigit_of_isNameStart {c : Char} (h : isNameStart c = true) : c.isDigit = false :=
  forall_isNameStart (P := fun c => c.isDigit = false) (by decide) h

/-- A character of names stays one in upper case. -/
theorem upperChar_of_isNameChar {c : Char} (h : isNameChar c = true) :
    ∃ d, Text.upperChar c = [d] ∧ isNameChar d = true :=
  ⟨c.toUpper, forall_isNameChar
    (P := fun c => Text.upperChar c = [c.toUpper] ∧ isNameChar c.toUpper = true) (by decide) h⟩

/-! ## Keeping a name -/

/-- The front of a name needs no guard. -/
theorem guarded_of_isNameText {cs : List Char} (h : isNameText cs = true) :
    foldReserved (guardDigit cs) = cs := by
  cases cs with
  | nil => cases h
  | cons c rest =>
      obtain ⟨start, -, front⟩ := isNameText_cons.mp h
      rw [guardDigit, isDigit_of_isNameStart start, if_neg Bool.false_ne_true]
      unfold foldReserved
      split
      · rename_i tail he
        obtain ⟨rfl, rfl⟩ := List.cons.inj he
        exact absurd rfl (front rfl)
      · rfl

theorem sanitizeFieldName_of_isName {s : String} (h : isName s = true) :
    sanitizeFieldName s = s := by
  have kept : (s.toList.map fun c => if isNameChar c then c else '_') = s.toList :=
    (List.map_congr_left fun c hc => if_pos (isNameChar_of_mem h c hc)).trans (List.map_id' _)
  unfold sanitizeFieldName
  split
  · rename_i empty
    rw [isName, empty] at h
    cases h
  · rw [kept, guarded_of_isNameText h, String.ofList_toList]

theorem sanitizeEnumText_of_isName {s : String} (h : isName s = true) :
    sanitizeEnumText s = s := by
  have unseparated : (s.toList.map fun c => if isSeparator c then '_' else c) = s.toList := by
    refine (List.map_congr_left fun c hc => if_neg ?_).trans (List.map_id' _)
    rw [isSeparator_of_isNameChar (isNameChar_of_mem h c hc)]
    exact Bool.false_ne_true
  have kept : s.toList.filter isNameChar = s.toList :=
    List.filter_eq_self.mpr (isNameChar_of_mem h)
  unfold sanitizeEnumText
  dsimp only
  rw [unseparated, kept, guarded_of_isNameText h]
  split
  · rename_i empty
    rw [isName, empty] at h
    cases h
  · exact String.ofList_toList

/-- A text is kept exactly if it is a name. -/
theorem sanitizeFieldName_eq_self_iff {s : String} : sanitizeFieldName s = s ↔ isName s = true :=
  ⟨fun h => h ▸ isName_sanitizeFieldName s, sanitizeFieldName_of_isName⟩

theorem sanitizeEnumValue_eq_self_iff {s : String} :
    sanitizeEnumValue (.str s) = s ↔ isName s = true :=
  ⟨fun h => h ▸ isName_sanitizeEnumText s, sanitizeEnumText_of_isName⟩

/-! ## Names of types -/

/-- What is a character of names in the prefix or in the base is left in the text of a type. -/
theorem exists_mem_typeText {base parent : String}
    (h : ∃ c ∈ (parent ++ base).toList, isNameChar c = true) :
    ∃ c ∈ typeText base parent, isNameChar c = true := by
  obtain ⟨c, hc, name⟩ := h
  rw [String.toList_append, List.mem_append] at hc
  unfold typeText
  split
  · rename_i outermost
    rw [outermost] at hc
    exact ⟨c, hc.resolve_left nofun, name⟩
  · rw [String.toList_append]
    rcases hc with hc | hc
    · exact ⟨c, List.mem_append_left _ hc, name⟩
    · obtain ⟨d, hd, name'⟩ : ∃ d ∈ (Text.capitalize base).toList, isNameChar d = true := by
        unfold Text.capitalize
        split
        · rename_i empty
          rw [empty] at hc
          cases hc
        · rename_i first rest split
          rw [split] at hc
          rw [String.toList_ofList]
          rcases List.mem_cons.mp hc with rfl | hc
          · obtain ⟨d, upper, name'⟩ := upperChar_of_isNameChar name
            exact ⟨d, upper ▸ List.mem_cons_self .., name'⟩
          · exact ⟨c, List.mem_append_right _ hc, name⟩
      exact ⟨d, List.mem_append_right _ hd, name'⟩

/-- Names of fields and of values are always names that GraphQL takes, and making them keeps exactly
the texts that are such names, so it changes nothing when it is done again. The name of a type is
one exactly if a character of names is left in the text that it is made from, which is so for every
base and prefix with one in the prefix or in the base. -/
theorem names_kept :
    (∀ s, isName (sanitizeFieldName s) = true ∧ (sanitizeFieldName s = s ↔ isName s = true) ∧
      sanitizeFieldName (sanitizeFieldName s) = sanitizeFieldName s) ∧
    (∀ v, isName (sanitizeEnumValue v) = true ∧
      sanitizeEnumValue (.str (sanitizeEnumValue v)) = sanitizeEnumValue v) ∧
    (∀ s, sanitizeEnumValue (.str s) = s ↔ isName s = true) ∧
    ∀ base parent,
      (isName (typeName base parent) = true ↔
        ∃ c ∈ typeText base parent, isNameChar c = true) ∧
      ((∃ c ∈ (parent ++ base).toList, isNameChar c = true) →
        isName (typeName base parent) = true) := by
  refine ⟨fun s => ?_, fun v => ?_, fun s => sanitizeEnumValue_eq_self_iff, fun base parent => ?_⟩
  · have name := isName_sanitizeFieldName s
    exact ⟨name, sanitizeFieldName_eq_self_iff, sanitizeFieldName_of_isName name⟩
  · have name : isName (sanitizeEnumValue v) = true := isName_sanitizeEnumText (enumText v)
    exact ⟨name, sanitizeEnumText_of_isName name⟩
  · exact ⟨isName_typeName_iff_typeText, fun h => isName_typeName (exists_mem_typeText h)⟩

theorem lives_named : (∃ c ∈ ("" ++ "9 lives").toList, isNameChar c = true) ∧
    isName (typeName "9 lives" "") = true := by
  have some : ∃ c ∈ ("" ++ "9 lives").toList, isNameChar c = true := ⟨'9', by decide, by decide⟩
  exact ⟨some, (names_kept.2.2.2 "9 lives" "").2 some⟩

end ResourceGraph.Naming
