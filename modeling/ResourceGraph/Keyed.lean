/-!
Lists of named entries in order of insertion. Inserting under a name that is there already changes
the entry in its place; `ofPairs` reads a list of pairs this way, so of equal names the last entry
counts, at the place of the first.
-/

namespace ResourceGraph.Keyed

variable {α β : Type}

abbrev Entries (α : Type) := List (String × α)

def insert (k : String) (a : α) : Entries α → Entries α
  | [] => [(k, a)]
  | (k', a') :: rest => if k' = k then (k, a) :: rest else (k', a') :: insert k a rest

def ofPairs (ps : List (String × α)) : Entries α := ps.foldl (fun es p => insert p.1 p.2 es) []

def update (es ps : Entries α) : Entries α := ps.foldl (fun es p => insert p.1 p.2 es) es

def find? (k : String) (es : Entries α) : Option α := es.lookup k

def keys (es : Entries α) : List String := es.map (·.1)

def hasKey (k : String) (es : Entries α) : Bool := es.any (·.1 == k)

@[simp] theorem find?_nil (k : String) : find? k ([] : Entries α) = none := rfl

@[simp] theorem find?_cons (k k' : String) (a : α) (es : Entries α) :
    find? k ((k', a) :: es) = if k = k' then some a else find? k es := by
  by_cases h : k = k'
  · simp [find?, h]
  · simp [find?, List.lookup_cons, beq_false_of_ne h, h]

theorem find?_append (k : String) (es fs : Entries α) :
    find? k (es ++ fs) = (find? k es).or (find? k fs) := List.lookup_append ..

theorem find?_insert (k k' : String) (a : α) (es : Entries α) :
    find? k (insert k' a es) = if k = k' then some a else find? k es := by
  induction es with
  | nil => simp [insert]
  | cons p rest ih =>
    obtain ⟨q, b⟩ := p
    by_cases hq : q = k' <;> by_cases hk : k = k' <;> by_cases hkq : k = q <;> simp_all [insert]

theorem keys_insert (k : String) (a : α) (es : Entries α) :
    keys (insert k a es) = if k ∈ keys es then keys es else keys es ++ [k] := by
  induction es with
  | nil => simp [insert, keys]
  | cons p rest ih =>
    obtain ⟨q, b⟩ := p
    by_cases hq : q = k
    · simp [insert, keys, hq]
    · have hk : ¬ k = q := fun h => hq h.symm
      by_cases hm : k ∈ keys rest <;> simp_all [insert, keys]

theorem hasKey_iff {k : String} {es : Entries α} : hasKey k es = true ↔ k ∈ keys es := by
  simp [hasKey, keys]

theorem mem_keys_insert {k k' : String} {a : α} {es : Entries α} :
    k' ∈ keys (insert k a es) ↔ k' = k ∨ k' ∈ keys es := by
  rw [keys_insert]
  split
  · rename_i hk
    exact ⟨Or.inr, fun h => h.elim (fun he => he ▸ hk) id⟩
  · rw [List.mem_append, List.mem_singleton, or_comm]

theorem keys_prefix_insert (k : String) (a : α) (es : Entries α) :
    keys es <+: keys (insert k a es) := by
  rw [keys_insert]
  split
  · exact List.prefix_refl _
  · exact List.prefix_append _ _

theorem mem_of_find? {k : String} {a : α} {es : Entries α} (h : find? k es = some a) :
    (k, a) ∈ es := by
  obtain ⟨as, bs, rfl, -⟩ := List.lookup_eq_some_iff.mp h
  exact List.mem_append_right as (List.mem_cons_self ..)

theorem mem_keys_of_find? {k : String} {a : α} {es : Entries α} (h : find? k es = some a) :
    k ∈ keys es := List.mem_map_of_mem (mem_of_find? h)

theorem exists_of_mem_keys {k : String} {es : Entries α} (h : k ∈ keys es) :
    ∃ a, find? k es = some a := by
  cases hf : find? k es with
  | some a => exact ⟨a, rfl⟩
  | none =>
    obtain ⟨p, hp, rfl⟩ := List.mem_map.mp h
    exact absurd (List.lookup_eq_none_iff.mp hf p hp) (by simp)

theorem find?_of_mem {k : String} {a : α} {es : Entries α} (hes : (keys es).Nodup)
    (h : (k, a) ∈ es) : find? k es = some a := by
  induction es with
  | nil => cases h
  | cons p rest ih =>
    obtain ⟨k', a'⟩ := p
    obtain ⟨hk, hrest⟩ := List.nodup_cons.mp hes
    rw [find?_cons]
    rcases List.mem_cons.mp h with he | hr
    · cases he
      rw [if_pos rfl]
    · have hne : k ≠ k' := fun he => hk (List.mem_map.mpr ⟨(k, a), hr, he⟩)
      rw [if_neg hne, ih hrest hr]

theorem mem_of_mem_insert {k : String} {a : α} {es : Entries α} {p : String × α}
    (h : p ∈ insert k a es) : p = (k, a) ∨ p ∈ es := by
  induction es with
  | nil => simpa [insert] using h
  | cons q rest ih =>
    obtain ⟨k', a'⟩ := q
    by_cases hk : k' = k
    · simp only [insert, hk, if_true, List.mem_cons] at h ⊢
      exact h.imp_right Or.inr
    · simp only [insert, hk, if_false, List.mem_cons] at h ⊢
      rcases h with h | h
      · exact Or.inr (Or.inl h)
      · exact (ih h).imp_right Or.inr

theorem mem_of_mem_update {es ps : Entries α} {p : String × α} (h : p ∈ update es ps) :
    p ∈ es ∨ p ∈ ps := by
  induction ps generalizing es with
  | nil => exact Or.inl h
  | cons q ps ih =>
    rcases ih h with h | h
    · exact (mem_of_mem_insert h).elim (fun h => Or.inr (h ▸ List.mem_cons_self ..)) Or.inl
    · exact Or.inr (List.mem_cons_of_mem q h)

theorem nodup_keys_insert {k : String} {a : α} {es : Entries α} (h : (keys es).Nodup) :
    (keys (insert k a es)).Nodup := by
  rw [keys_insert]
  split
  · exact h
  · rename_i hk
    exact List.nodup_append.mpr ⟨h, by simp, fun x hx y hy => by
      rintro rfl; exact hk (List.mem_singleton.mp hy ▸ hx)⟩

theorem nodup_keys_update {es : Entries α} (h : (keys es).Nodup) (ps : Entries α) :
    (keys (update es ps)).Nodup := by
  induction ps generalizing es with
  | nil => exact h
  | cons p ps ih => exact ih (nodup_keys_insert h)

theorem insert_of_not_mem {k : String} {a : α} {es : Entries α} (h : k ∉ keys es) :
    insert k a es = es ++ [(k, a)] := by
  induction es with
  | nil => rfl
  | cons p rest ih =>
    have hne : p.1 ≠ k := fun he => h (he ▸ List.mem_cons_self ..)
    rw [insert, if_neg hne, ih fun hk => h (List.mem_cons_of_mem _ hk), List.cons_append]

/-- Distinct entries are added as they are. -/
theorem update_eq_append {es ps : Entries α} (h : (keys (es ++ ps)).Nodup) :
    update es ps = es ++ ps := by
  induction ps generalizing es with
  | nil => exact (List.append_nil es).symm
  | cons p rest ih =>
    have distinct := h
    rw [keys, List.map_append, List.map_cons, List.nodup_append] at distinct
    have fresh : p.1 ∉ keys es := fun hm =>
      distinct.2.2 _ hm _ (List.mem_cons_self ..) rfl
    have moved : es ++ p :: rest = es ++ [p] ++ rest := by simp
    rw [moved] at h ⊢
    show update (insert p.1 p.2 es) rest = _
    rw [insert_of_not_mem fresh]
    exact ih h

theorem ofPairs_eq {ps : Entries α} (h : (keys ps).Nodup) : ofPairs ps = ps := by
  have added : update [] ps = [] ++ ps := update_eq_append h
  exact added

theorem nodup_keys_ofPairs (ps : List (String × α)) : (keys (ofPairs ps)).Nodup := by
  have h : (keys ([] : Entries α)).Nodup := List.nodup_nil
  exact nodup_keys_update h ps

/-! Changing the entries but not their names -/

variable (f : α → β)

def mapEntries (es : Entries α) : Entries β := es.map fun p => (p.1, f p.2)

@[simp] theorem mapEntries_nil : mapEntries f [] = [] := rfl

@[simp] theorem mapEntries_cons (p : String × α) (es : Entries α) :
    mapEntries f (p :: es) = (p.1, f p.2) :: mapEntries f es := rfl

@[simp] theorem keys_mapEntries (es : Entries α) : keys (mapEntries f es) = keys es := by
  simp [keys, mapEntries, Function.comp_def]

@[simp] theorem length_mapEntries (es : Entries α) : (mapEntries f es).length = es.length :=
  List.length_map _

@[simp] theorem values_mapEntries (es : Entries α) :
    (mapEntries f es).map (·.2) = (es.map (·.2)).map f := by
  simp [mapEntries]

theorem find?_mapEntries (k : String) (es : Entries α) :
    find? k (mapEntries f es) = (find? k es).map f := by
  induction es with
  | nil => rfl
  | cons p rest ih =>
    rw [mapEntries_cons, find?_cons, find?_cons, ih]
    split <;> rfl

theorem mapEntries_insert (k : String) (a : α) (es : Entries α) :
    mapEntries f (insert k a es) = insert k (f a) (mapEntries f es) := by
  induction es with
  | nil => rfl
  | cons p rest ih =>
    obtain ⟨q, b⟩ := p
    by_cases hq : q = k <;> simp [insert, hq, ih]

theorem mapEntries_update (es ps : Entries α) :
    mapEntries f (update es ps) = update (mapEntries f es) (mapEntries f ps) := by
  induction ps generalizing es with
  | nil => rfl
  | cons p ps ih =>
    show mapEntries f (update (insert p.1 p.2 es) ps) = _
    rw [ih, mapEntries_insert]
    rfl

end ResourceGraph.Keyed
