import Mathlib.Data.List.Induction
import Mathlib.Data.List.Nodup
import Mathlib.Data.List.Perm.Subperm
import Mathlib.Data.Option.Basic
import ResourceGraph.Keyed

/-!
# Tables that agree

Tables agree when they relate the same names, in whatever order these come. A comparison that goes
through the entries of one table, as the equality of values and of nodes does, decides that when the
names are distinct. A table that is read from pairs may be read piece by piece: the pieces can be
made tables first.
-/

namespace ResourceGraph

namespace Keyed

variable {α β γ : Type} {R : α → β → Prop} {S : β → γ → Prop} {T : α → γ → Prop}

/-- Two tables have the same names, in any order, and related entries under each. -/
def Agree (R : α → β → Prop) (es : Entries α) (fs : Entries β) : Prop :=
  ∀ k, Option.Rel R (find? k es) (find? k fs)

variable {es : Entries α} {fs : Entries β} {gs : Entries γ}

theorem Agree.of_find? (h : Agree R es fs) {k : String} {a : α} (ha : find? k es = some a) :
    ∃ b, find? k fs = some b ∧ R a b := by
  have rel := h k
  rw [ha] at rel
  generalize hb : find? k fs = b at rel
  cases rel with
  | some same => exact ⟨_, rfl, same⟩

theorem Agree.of_find?_right (h : Agree R es fs) {k : String} {b : β} (hb : find? k fs = some b) :
    ∃ a, find? k es = some a ∧ R a b := by
  have rel := h k
  rw [hb] at rel
  generalize ha : find? k es = a at rel
  cases rel with
  | some same => exact ⟨_, rfl, same⟩

theorem Agree.mem_keys (h : Agree R es fs) (k : String) : k ∈ keys es ↔ k ∈ keys fs := by
  constructor
  · intro hk
    obtain ⟨a, ha⟩ := exists_of_mem_keys hk
    obtain ⟨b, hb, -⟩ := h.of_find? ha
    exact mem_keys_of_find? hb
  · intro hk
    obtain ⟨b, hb⟩ := exists_of_mem_keys hk
    obtain ⟨a, ha, -⟩ := h.of_find?_right hb
    exact mem_keys_of_find? ha

/-- Tables with distinct names agree if they are of one length and each entry of the first is in
the second. -/
theorem agree_iff (hes : (keys es).Nodup) (hfs : (keys fs).Nodup) : Agree R es fs ↔
    es.length = fs.length ∧ ∀ p ∈ es, ∃ b, find? p.1 fs = some b ∧ R p.2 b := by
  constructor
  · intro h
    constructor
    · have perm := (List.perm_ext_iff_of_nodup hes hfs).mpr h.mem_keys
      simpa [keys] using perm.length_eq
    · intro p hp
      exact h.of_find? (find?_of_mem hes hp)
  · rintro ⟨length, h⟩ k
    have subset : keys es ⊆ keys fs := by
      intro k hk
      obtain ⟨p, hp, rfl⟩ := List.mem_map.mp hk
      obtain ⟨b, hb, -⟩ := h p hp
      exact mem_keys_of_find? hb
    have perm : (keys es).Perm (keys fs) :=
      (List.subperm_of_subset hes subset).perm_of_length_le (by simp [keys, length])
    cases ha : find? k es with
    | some a =>
        obtain ⟨b, hb, same⟩ := h (k, a) (mem_of_find? ha)
        rw [hb]
        exact .some same
    | none =>
        cases hb : find? k fs with
        | none => exact .none
        | some b =>
            obtain ⟨a, ha'⟩ := exists_of_mem_keys (perm.mem_iff.mpr (mem_keys_of_find? hb))
            cases ha.symm.trans ha'

theorem Agree.symm_of_mem {Q : β → α → Prop} (h : Agree R es fs)
    (hQ : ∀ p ∈ es, ∀ q ∈ fs, R p.2 q.2 → Q q.2 p.2) : Agree Q fs es := by
  intro k
  have rel := h k
  cases ha : find? k es <;> cases hb : find? k fs <;> rw [ha, hb] at rel <;> cases rel
  · exact .none
  · rename_i a b same
    exact .some (hQ (k, a) (mem_of_find? ha) (k, b) (mem_of_find? hb) same)

theorem Agree.trans_of_mem (h : Agree R es fs) (h' : Agree S fs gs)
    (hT : ∀ p ∈ es, ∀ q ∈ fs, ∀ r ∈ gs, R p.2 q.2 → S q.2 r.2 → T p.2 r.2) : Agree T es gs := by
  intro k
  cases ha : find? k es with
  | none =>
      have rel := h k
      rw [ha] at rel
      generalize hb : find? k fs = b at rel
      cases rel
      have rel' := h' k
      rw [hb] at rel'
      generalize find? k gs = c at rel'
      cases rel'
      exact .none
  | some a =>
      obtain ⟨b, hb, same⟩ := h.of_find? ha
      obtain ⟨c, hc, same'⟩ := h'.of_find? hb
      rw [hc]
      exact .some (hT (k, a) (mem_of_find? ha) (k, b) (mem_of_find? hb) (k, c) (mem_of_find? hc)
        same same')

theorem find?_update {es ps : Entries α} (hps : (keys ps).Nodup) (k : String) :
    find? k (update es ps) = (find? k ps).or (find? k es) := by
  induction ps generalizing es with
  | nil => rfl
  | cons p ps ih =>
      obtain ⟨fresh, hps⟩ := List.nodup_cons.mp hps
      show find? k (update (insert p.1 p.2 es) ps) = _
      rw [ih hps, find?_insert, find?_cons]
      by_cases hk : k = p.1
      · have later : find? p.1 ps = none := by
          cases ha : find? p.1 ps with
          | none => rfl
          | some a => exact absurd (mem_keys_of_find? ha) fresh
        rw [if_pos hk, if_pos hk, hk, later]
        rfl
      · rw [if_neg hk, if_neg hk]

/-- Tables that agree are updated alike. -/
theorem Agree.update {es' : Entries α} {fs' : Entries β} (h : Agree R es fs)
    (hes : (keys es').Nodup) (hfs : (keys fs').Nodup) (h' : Agree R es' fs') :
    Agree R (update es es') (update fs fs') := by
  intro k
  rw [find?_update hes, find?_update hfs]
  have rel := h' k
  cases ha : find? k es' <;> cases hb : find? k fs' <;> rw [ha, hb] at rel <;> cases rel
  · exact h k
  · rename_i same
    exact .some same

/-! ## Tables from pairs -/

theorem mem_keys_update {es ps : Entries α} {k : String} :
    k ∈ keys (update es ps) ↔ k ∈ keys es ∨ k ∈ keys ps := by
  induction ps generalizing es with
  | nil => simp [update, keys]
  | cons p ps ih =>
      have head : k ∈ keys (p :: ps) ↔ k = p.1 ∨ k ∈ keys ps := List.mem_cons
      show k ∈ keys (update (insert p.1 p.2 es) ps) ↔ _
      rw [ih, mem_keys_insert, head, or_assoc, or_left_comm]

theorem update_append (es ps qs : Entries α) : update es (ps ++ qs) = update (update es ps) qs :=
  List.foldl_append ..

theorem insert_insert (k : String) (a b : α) (es : Entries α) :
    insert k a (insert k b es) = insert k a es := by
  induction es with
  | nil => simp [insert]
  | cons p rest ih => by_cases hp : p.1 = k <;> simp [insert, hp, ih]

/-- An entry that is there stays in its place. -/
theorem insert_comm {k k' : String} (hne : k ≠ k') (a b : α) {es : Entries α} (hk : k ∈ keys es) :
    insert k a (insert k' b es) = insert k' b (insert k a es) := by
  induction es with
  | nil => cases hk
  | cons p rest ih =>
      obtain ⟨q, c⟩ := p
      by_cases hq : q = k
      · subst hq
        simp [insert, hne]
      · have later : k ∈ keys rest := (List.mem_cons.mp hk).resolve_left fun h => hq h.symm
        by_cases hq' : q = k' <;> simp [insert, hq, hq', ih later, Ne.symm hne]

theorem insert_update {k : String} (a : α) {es ps : Entries α} (hk : k ∈ keys es)
    (hps : k ∉ keys ps) : insert k a (update es ps) = update (insert k a es) ps := by
  induction ps generalizing es with
  | nil => rfl
  | cons p rest ih =>
      obtain ⟨hne, later⟩ := not_or.mp (mt List.mem_cons.mpr hps)
      show insert k a (update (insert p.1 p.2 es) rest) = update (insert p.1 p.2 (insert k a es)) rest
      rw [ih (mem_keys_insert.mpr (Or.inr hk)) later, insert_comm hne a p.2 hk]

theorem update_insert {ps : Entries α} (hps : (keys ps).Nodup) (es : Entries α) (k : String)
    (a : α) : update es (insert k a ps) = insert k a (update es ps) := by
  induction ps generalizing es with
  | nil => rfl
  | cons p rest ih =>
      obtain ⟨q, b⟩ := p
      obtain ⟨fresh, hrest⟩ := List.nodup_cons.mp hps
      by_cases hq : q = k
      · subst hq
        rw [insert, if_pos rfl]
        show update (insert q a es) rest = insert q a (update (insert q b es) rest)
        rw [insert_update a (mem_keys_insert.mpr (Or.inl rfl)) fresh, insert_insert]
      · rw [insert, if_neg hq]
        exact ih hrest (insert q b es)

/-- Pairs may be made a table before they are added to another. -/
theorem update_ofPairs (es : Entries α) (ps : List (String × α)) :
    update es (ofPairs ps) = update es ps := by
  induction ps using List.reverseRecOn with
  | nil => rfl
  | append_singleton ps p ih =>
      have last : ofPairs (ps ++ [p]) = insert p.1 p.2 (ofPairs ps) := update_append [] ps [p]
      rw [last, update_insert (nodup_keys_ofPairs ps), ih, update_append]
      rfl

theorem find?_update_reverse (es : Entries α) (ps : List (String × α)) (k : String) :
    find? k (update es ps) = (find? k ps.reverse).or (find? k es) := by
  induction ps generalizing es with
  | nil => rfl
  | cons p ps ih =>
      show find? k (update (insert p.1 p.2 es) ps) = _
      rw [ih, find?_insert, List.reverse_cons, find?_append, Option.or_assoc, find?_cons]
      split <;> rfl

/-- Of pairs of one name the last counts. -/
theorem find?_ofPairs (ps : List (String × α)) (k : String) :
    find? k (ofPairs ps) = find? k ps.reverse :=
  (find?_update_reverse [] ps k).trans (Option.or_none ..)

end Keyed

end ResourceGraph
