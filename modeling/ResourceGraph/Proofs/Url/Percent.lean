import Mathlib.Data.List.Basic
import ResourceGraph.Url.Percent

/-!
# Percent-encoding can be undone

What is encoded decodes to the text that it was made from, whichever characters stand for
themselves, as long as the percent sign does not. So two texts are never encoded alike.
-/

namespace ResourceGraph.Percent

/-- The two digits of an octet. -/
def digits (b : Nat) : Char × Char :=
  match Text.upperHexDigits 2 b with
  | [a, b] => (a, b)
  | _ => ('0', '0')

theorem digits_read : ∀ b < 256, Text.upperHexDigits 2 b = [(digits b).1, (digits b).2] ∧
    Text.hexValue? (digits b).1 = some (b / 16) ∧ Text.hexValue? (digits b).2 = some (b % 16) ∧
    isUnreserved (digits b).1 = true ∧ isUnreserved (digits b).2 = true := by
  decide +kernel

theorem octet_eq (b : UInt8) :
    octet b = ['%', (digits b.toNat).1, (digits b.toNat).2] := by
  rw [octet, (digits_read b.toNat b.toNat_lt).1]

/-! ## What is written -/

variable {kept : Char → Bool}

theorem encode_append (s t : String) : encode kept (s ++ t) = encode kept s ++ encode kept t := by
  rw [encode, String.toList_append, List.flatMap_append, String.ofList_append]
  rfl

theorem encode_of_kept {s : String} (h : ∀ c ∈ s.toList, kept c = true) : encode kept s = s := by
  have same : s.toList.flatMap (encodeChar kept) = s.toList.flatMap fun c => [c] := by
    rw [List.flatMap_def, List.flatMap_def]
    refine congrArg List.flatten (List.map_congr_left fun c hc => ?_)
    rw [encodeChar, if_pos (h c hc)]
  rw [encode, same, List.flatMap_singleton', String.ofList_toList]

/-- Only unreserved characters and percent signs are written. -/
theorem unreserved_of_mem_encode {s : String} {c : Char}
    (h : c ∈ (encode isUnreserved s).toList) : isUnreserved c = true ∨ c = '%' := by
  rw [encode, String.toList_ofList] at h
  obtain ⟨d, -, hc⟩ := List.mem_flatMap.mp h
  unfold encodeChar at hc
  split at hc
  · rename_i stays
    rw [List.mem_singleton.mp hc]
    exact Or.inl stays
  · obtain ⟨b, -, hb⟩ := List.mem_flatMap.mp hc
    obtain ⟨-, -, -, high, low⟩ := digits_read b.toNat b.toNat_lt
    rw [octet_eq] at hb
    rcases hb with _ | ⟨_, _ | ⟨_, _ | ⟨_, ⟨⟩⟩⟩⟩
    · exact Or.inr rfl
    · exact Or.inl high
    · exact Or.inl low

/-- A text without a percent sign is written for no other. -/
theorem eq_of_encode_eq {s t : String} (h : encode kept s = t) (plain : '%' ∉ t.toList) : s = t := by
  rw [← h]
  refine (encode_of_kept fun c hc => ?_).symm
  by_contra changed
  refine plain (h ▸ ?_)
  rw [encode, String.toList_ofList]
  refine List.mem_flatMap.mpr ⟨c, hc, ?_⟩
  rw [encodeChar, if_neg changed]
  obtain ⟨b, bs, he⟩ := List.exists_cons_of_ne_nil (String.utf8EncodeChar_ne_nil (c := c))
  rw [he, List.flatMap_cons, octet_eq]
  exact List.mem_append_left _ (List.mem_cons_self ..)

/-! ## Decoding -/

theorem octets_octet (b : UInt8) (rest : List Char) : octets (octet b ++ rest) = b :: octets rest := by
  obtain ⟨-, high, low, -, -⟩ := digits_read b.toNat b.toNat_lt
  rw [octet_eq]
  show octets ('%' :: (digits b.toNat).1 :: (digits b.toNat).2 :: rest) = _
  rw [octets, high, low]
  show UInt8.ofNat (b.toNat / 16 * 16 + b.toNat % 16) :: octets rest = _
  rw [Nat.div_add_mod', UInt8.ofNat_toNat]

theorem octets_flatMap_octet (bs : List UInt8) (rest : List Char) :
    octets (bs.flatMap octet ++ rest) = bs ++ octets rest := by
  induction bs with
  | nil => rfl
  | cons b bs ih =>
      rw [List.flatMap_cons, List.append_assoc, octets_octet, ih]
      rfl

theorem octets_cons {c : Char} (h : c ≠ '%') (rest : List Char) :
    octets (c :: rest) = String.utf8EncodeChar c ++ octets rest := by
  rw [octets]
  exact fun _ _ _ he _ => h he

theorem octets_encodeChar (percent : kept '%' = false) (c : Char) (rest : List Char) :
    octets (encodeChar kept c ++ rest) = String.utf8EncodeChar c ++ octets rest := by
  unfold encodeChar
  split
  · rename_i stays
    refine octets_cons ?_ rest
    rintro rfl
    rw [percent] at stays
    cases stays
  · exact octets_flatMap_octet _ rest

theorem octets_encode (percent : kept '%' = false) (cs : List Char) :
    octets (cs.flatMap (encodeChar kept)) = cs.flatMap String.utf8EncodeChar := by
  induction cs with
  | nil => rfl
  | cons c cs ih => rw [List.flatMap_cons, octets_encodeChar percent, ih, List.flatMap_cons]

/-- Decoding gives back what was encoded. -/
theorem decode?_encode (percent : kept '%' = false) (s : String) :
    decode? (encode kept s) = some s := by
  have bytes : (⟨(octets (encode kept s).toList).toArray⟩ : ByteArray) = s.toByteArray := by
    rw [encode, String.toList_ofList, octets_encode percent, ← String.utf8Encode_toList]
    exact ByteArray.ext (by simp [List.utf8Encode])
  have valid : ByteArray.IsValidUTF8 ⟨(octets (encode kept s).toList).toArray⟩ :=
    bytes ▸ s.isValidUTF8
  rw [decode?, String.fromUTF8?, dif_pos valid]
  exact congrArg some (String.toByteArray_inj.mp bytes)

theorem encode_injective (percent : kept '%' = false) {s s' : String}
    (h : encode kept s = encode kept s') : s = s' :=
  Option.some.inj ((decode?_encode percent s).symm.trans (h ▸ decode?_encode percent s'))

end ResourceGraph.Percent
