import Mathlib.Data.List.Forall2
import ResourceGraph.Api.Compilation

/-!
# The parts of a definition

Fields and values are collected in order, and of two of one name the first stays. What is collected
is therefore a list of firsts, and its names are distinct.
-/

namespace ResourceGraph

/-- Of the members with one key the first. -/
def firstsBy {α : Type} (key : α → String) : List α → List α
  | [] => []
  | a :: rest => a :: (firstsBy key rest).filter (key · ≠ key a)

section Firsts

variable {α β : Type} {key : α → String} {key' : β → String}

theorem firstsBy_subset (as : List α) : firstsBy key as ⊆ as := by
  induction as with
  | nil => exact List.Subset.refl _
  | cons a rest ih =>
      rw [firstsBy]
      exact List.cons_subset_cons a (List.Subset.trans (List.filter_subset_self _) ih)

theorem nodup_keys_firstsBy (as : List α) : ((firstsBy key as).map key).Nodup := by
  induction as with
  | nil => exact List.nodup_nil
  | cons a rest ih =>
      rw [firstsBy, List.map_cons, List.nodup_cons]
      refine ⟨fun h => ?_, ih.sublist (List.filter_sublist.map key)⟩
      obtain ⟨b, hb, he⟩ := List.mem_map.mp h
      simp only [List.mem_filter, decide_eq_true_eq] at hb
      exact hb.2 he

/-- Every key has a first member. -/
theorem mem_keys_firstsBy {k : String} {as : List α} :
    k ∈ (firstsBy key as).map key ↔ k ∈ as.map key := by
  induction as with
  | nil => exact Iff.rfl
  | cons a rest ih =>
      by_cases hk : k = key a
      · simp [firstsBy, hk]
      · rw [firstsBy, List.map_cons, List.map_cons, List.mem_cons, List.mem_cons, ← ih]
        refine or_congr_right ⟨fun h => ?_, fun h => ?_⟩
        · exact List.map_subset key (List.filter_subset_self _) h
        · obtain ⟨b, hb, rfl⟩ := List.mem_map.mp h
          exact List.mem_map_of_mem (List.mem_filter.mpr ⟨hb, by simpa using hk⟩)

theorem firstsBy_eq_nil {as : List α} : firstsBy key as = [] ↔ as = [] := by
  cases as with
  | nil => exact Iff.rfl
  | cons a rest => simp [firstsBy]

theorem exists_of_forall₂_right {R : α → β → Prop} {as : List α} {bs : List β}
    (h : List.Forall₂ R as bs) {b : β} (hb : b ∈ bs) : ∃ a ∈ as, R a b := by
  induction h with
  | nil => cases hb
  | cons hab _ ih =>
      rcases List.mem_cons.mp hb with rfl | hb
      · exact ⟨_, List.mem_cons_self .., hab⟩
      · obtain ⟨a, ha, hr⟩ := ih hb
        exact ⟨a, List.mem_cons_of_mem _ ha, hr⟩

theorem exists_of_forall₂_left {R : α → β → Prop} {as : List α} {bs : List β}
    (h : List.Forall₂ R as bs) {a : α} (ha : a ∈ as) : ∃ b ∈ bs, R a b :=
  exists_of_forall₂_right h.flip ha

theorem map_eq_of_forall₂ {γ : Type} {f : α → γ} {g : β → γ} {R : α → β → Prop}
    (hfg : ∀ a b, R a b → f a = g b) {as : List α} {bs : List β} (h : List.Forall₂ R as bs) :
    as.map f = bs.map g := by
  induction h with
  | nil => rfl
  | cons hab _ ih => rw [List.map_cons, List.map_cons, hfg _ _ hab, ih]

/-- Lists that agree member by member, keys included, agree on the firsts. -/
theorem forall₂_firstsBy {R : α → β → Prop} (hkey : ∀ a b, R a b → key a = key' b)
    {as : List α} {bs : List β} (h : List.Forall₂ R as bs) :
    List.Forall₂ R (firstsBy key as) (firstsBy key' bs) := by
  induction h with
  | nil => exact .nil
  | cons hab _ ih =>
      refine .cons hab (List.rel_filter (fun c d hcd => ?_) ih)
      simp only [hkey _ _ hab, hkey _ _ hcd]

/-- Adds a member unless there is one of its key. -/
def appendNew (key : α → String) (as : List α) (a : α) : List α :=
  if as.any (key · == key a) then as else as ++ [a]

theorem foldl_appendNew (as acc : List α) :
    as.foldl (appendNew key) acc
      = acc ++ (firstsBy key as).filter (fun a => !acc.any (key · == key a)) := by
  induction as generalizing acc with
  | nil => simp [firstsBy]
  | cons a rest ih =>
      rw [List.foldl_cons, ih, firstsBy, appendNew, List.filter_cons, List.filter_filter]
      by_cases h : acc.any (key · == key a) = true
      · rw [if_pos h, h]
        refine congrArg (acc ++ ·) (List.filter_congr fun b _ => ?_)
        by_cases he : key b = key a
        · rw [he, h]; rfl
        · simp [he]
      · rw [if_neg h]
        rw [Bool.not_eq_true] at h
        rw [h, List.append_assoc]
        refine congrArg (acc ++ a :: ·) (List.filter_congr fun b _ => ?_)
        by_cases he : key b = key a
        · simp [he]
        · simp [he, Ne.symm he]

/-- Collected from nothing, the members are the firsts of their keys. -/
theorem foldl_appendNew_nil (as : List α) : as.foldl (appendNew key) [] = firstsBy key as := by
  rw [foldl_appendNew]
  simp

theorem nodup_foldl_appendNew {as acc : List α} (h : (acc.map key).Nodup) :
    ((as.foldl (appendNew key) acc).map key).Nodup := by
  rw [foldl_appendNew, List.map_append, List.nodup_append]
  refine ⟨h, (nodup_keys_firstsBy as).sublist (List.filter_sublist.map _), ?_⟩
  rintro x hx y hy rfl
  obtain ⟨a, ha, rfl⟩ := List.mem_map.mp hx
  obtain ⟨b, hb, he⟩ := List.mem_map.mp hy
  simp only [List.mem_filter, Bool.not_eq_true', List.any_eq_false, beq_iff_eq] at hb
  exact hb.2 a ha he.symm

theorem mem_foldl_appendNew {as acc : List α} {a : α} (h : a ∈ as.foldl (appendNew key) acc) :
    a ∈ acc ∨ a ∈ as := by
  rw [foldl_appendNew, List.mem_append] at h
  exact h.imp_right fun ha => firstsBy_subset as (List.mem_of_mem_filter ha)

theorem mem_keys_foldl_appendNew {as acc : List α} {k : String} :
    k ∈ (as.foldl (appendNew key) acc).map key ↔ k ∈ acc.map key ∨ k ∈ as.map key := by
  have firsts : k ∈ (firstsBy key as).map key ↔ k ∈ as.map key := mem_keys_firstsBy
  rw [foldl_appendNew, List.map_append, List.mem_append, ← firsts]
  refine or_congr_right' fun missing => ?_
  rw [List.mem_map, List.mem_map]
  refine exists_congr fun a => and_congr_left ?_
  rintro rfl
  rw [List.mem_filter, and_iff_left_iff_imp, Bool.not_eq_true', List.any_eq_false]
  intro _ b hb same
  exact missing (beq_iff_eq.mp same ▸ List.mem_map_of_mem hb)

/-- Members can be left out by their key before or after. -/
theorem filter_firstsBy {keep : α → Bool} (hkeep : ∀ a b, key a = key b → keep a = keep b)
    (as : List α) : (firstsBy key as).filter keep = firstsBy key (as.filter keep) := by
  induction as with
  | nil => rfl
  | cons a rest ih =>
      have commute : ((firstsBy key rest).filter (key · ≠ key a)).filter keep
          = (firstsBy key (rest.filter keep)).filter (key · ≠ key a) := by
        rw [← ih, List.filter_filter, List.filter_filter]
        exact List.filter_congr fun b _ => Bool.and_comm ..
      by_cases ha : keep a = true
      · rw [firstsBy, List.filter_cons_of_pos ha, List.filter_cons_of_pos ha, firstsBy, commute]
      · rw [firstsBy, List.filter_cons_of_neg ha, List.filter_cons_of_neg ha, commute]
        refine List.filter_eq_self.mpr fun b hb => decide_eq_true fun same => ha ?_
        exact hkeep b a same ▸ (List.mem_filter.mp (firstsBy_subset _ hb)).2

theorem map_firstsBy (f : α → β) (as : List α) :
    (firstsBy (fun a => key' (f a)) as).map f = firstsBy key' (as.map f) := by
  induction as with
  | nil => rfl
  | cons a rest ih =>
      rw [firstsBy, List.map_cons, List.map_cons, firstsBy, ← ih, List.filter_map]
      rfl

/-- What occurs again is no first. -/
theorem firstsBy_distinct (key : String → String) (names : List String) :
    firstsBy key (firstsBy id names) = firstsBy key names := by
  induction names with
  | nil => rfl
  | cons a rest ih =>
      have others (as : List String) : (firstsBy key as).filter (key · ≠ key a)
          = firstsBy key (as.filter (key · ≠ key a)) :=
        filter_firstsBy (fun b c same => by rw [same]) as
      rw [firstsBy, firstsBy, firstsBy, ← ih, others, others, List.filter_filter]
      refine congrArg (fun as => a :: firstsBy key as) (List.filter_congr fun b _ => ?_)
      by_cases same : b = a <;> simp [same]

end Firsts

/-! ## Fields and values -/

theorem appendField_eq : appendField = appendNew Field.name := rfl

namespace EnumDef

/-- The value of an enumeration that a raw value asks for. -/
def valueOf (v : Value) : EnumValue := ⟨enumValueName v, v⟩

theorem addValue_eq (e : EnumDef) (v : Value) :
    (e.addValue v).name = e.name ∧
      (e.addValue v).values = appendNew EnumValue.name e.values (valueOf v) := by
  unfold addValue appendNew valueOf
  dsimp only
  split <;> exact ⟨rfl, rfl⟩

theorem foldl_addValue (values : List Value) (e : EnumDef) :
    (values.foldl EnumDef.addValue e).name = e.name ∧
      (values.foldl EnumDef.addValue e).values
        = (values.map valueOf).foldl (appendNew EnumValue.name) e.values := by
  induction values generalizing e with
  | nil => exact ⟨rfl, rfl⟩
  | cons v rest ih =>
      obtain ⟨hname, hvalues⟩ := addValue_eq e v
      rw [List.foldl_cons, List.map_cons, List.foldl_cons, ← hvalues, ← hname]
      exact ih _

theorem ofValues_name (name : String) (values : List Value) : (ofValues name values).name = name :=
  (foldl_addValue values _).1

/-- Of the values with one name the first is in the enumeration. -/
theorem ofValues_values (name : String) (values : List Value) :
    (ofValues name values).values = firstsBy EnumValue.name (values.map valueOf) :=
  (foldl_addValue values _).2.trans (foldl_appendNew_nil _)

theorem ofValues_distinct (name : String) (values : List Value) :
    ((ofValues name values).values.map EnumValue.name).Nodup := by
  rw [ofValues_values]
  exact nodup_keys_firstsBy _

end EnumDef

end ResourceGraph
