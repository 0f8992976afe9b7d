import ResourceGraph.Proofs.Schema.References
import ResourceGraph.Schema.Composite

/-!
# What a known node resolves to

A known node resolves to a settled one: it is neither a reference nor a composite, and what is
inside it is known. A table that grows does not change what a node resolves to.
-/

namespace ResourceGraph

variable {n : Nat}

/-- A node that stands for itself. -/
def Node.IsConcrete : Node n → Prop
  | .ref _ _ => False
  | .composite _ _ _ => False
  | _ => True

/-- Enumerations and objects are what definitions are made from. -/
def Node.Definable : Node n → Prop
  | .enumeration _ _ _ => True
  | .object _ _ _ _ _ => True
  | _ => False

namespace NodeTable

variable {t t' : NodeTable n}

/-- A node that stands for itself, with distinct properties and nothing unknown inside. -/
structure Settled (t : NodeTable n) (x : Node n) : Prop where
  concrete : x.IsConcrete
  distinct : x.Distinct
  inside : ∀ y ∈ x.children, y.All (t.Knows [])

theorem settled_emptyObject (t : NodeTable n) (key : ObjectKey n) :
    t.Settled (.emptyObject key) :=
  ⟨trivial, List.nodup_nil, by simp [Node.emptyObject, Node.children]⟩

theorem Settled.items {i : Fin n} {items : Node n} (h : t.Settled (.array i (some items))) :
    items.All (t.Knows []) :=
  h.inside items (by simp [Node.children])

theorem Settled.property {key : ObjectKey n} {properties : List (String × Node n)}
    {required : List String} {additional : Option (Node n)} {other : Value}
    (h : t.Settled (.object key properties required additional other)) :
    ∀ p ∈ properties, p.2.All (t.Knows []) :=
  fun _ hp => h.inside _ (List.mem_append_left _ (List.mem_map_of_mem hp))

theorem deref_extends (h : t.Extends t') {x : Node n} (hx : t.Knows [] x) :
    t'.deref x = t.deref x := by
  cases x with
  | ref serial target =>
      obtain hx | ⟨y, hy⟩ := hx
      · cases hx
      · simp only [deref, hy, h _ _ hy]
  | _ => rfl

theorem deref_known (ht : t.Sound []) {x y : Node n} (hx : x.All (t.Knows []))
    (h : t.deref x = some y) : y.All (t.Knows []) ∧ ¬ y.IsRef := by
  cases x with
  | ref serial target => exact ⟨(ht target y h).2, ht.not_ref h⟩
  | _ => cases h; exact ⟨hx, id⟩

/-- A known node that is no composite settles in one step. -/
theorem deref_settled (ht : t.Sound []) {x y : Node n} (hx : x.All (t.Knows []))
    (h : t.deref x = some y)
    (hy : ∀ id kind branches, y ≠ .composite id kind branches) : t.Settled y := by
  obtain ⟨known, not_ref⟩ := deref_known ht hx h
  cases y with
  | ref serial target => exact absurd trivial not_ref
  | composite id kind branches => exact absurd rfl (hy id kind branches)
  | _ => exact ⟨trivial, known.self.2.1, known.inside⟩

/-! ## Merged properties -/

/-- Properties with distinct names and known nodes. -/
def Merged (t : NodeTable n) (properties : List (String × Node n)) : Prop :=
  (Keyed.keys properties).Nodup ∧ ∀ p ∈ properties, p.2.All (t.Knows [])

theorem merged_nil (t : NodeTable n) : t.Merged [] := ⟨List.nodup_nil, by simp⟩

theorem Merged.mergeBranch {acc : List (String × Node n) × List String} (hacc : t.Merged acc.1)
    {x : Option (Node n)} (hx : ∀ y, x = some y → t.Settled y) :
    t.Merged (mergeBranch acc x).1 := by
  unfold NodeTable.mergeBranch
  split
  · rename_i key properties required additional other
    refine ⟨Keyed.nodup_keys_update hacc.1 _, fun p hp => ?_⟩
    exact (Keyed.mem_of_mem_update hp).elim (hacc.2 p) ((hx _ rfl).property p)
  · exact hacc

theorem Merged.object {properties : List (String × Node n)} (h : t.Merged properties)
    (composite : Fin n) (required : List String) :
    t.Settled (.object (.merged composite) properties required none .null) := by
  refine ⟨trivial, h.1, fun y hy => ?_⟩
  obtain ⟨p, hp, rfl⟩ : ∃ p ∈ properties, p.2 = y := by simpa [Node.children] using hy
  exact h.2 p hp

/-! ## Resolution -/

mutual

theorem resolveIn_settled (ht : t.Sound []) {owner : Fin n} {within : List (Fin n)} {x y : Node n}
    (hx : x.All (t.Knows [])) (h : t.resolveIn owner within x = some y) : t.Settled y := by
  rw [resolveIn] at h
  split at h
  · rename_i id kind branches hd
    have hb := (deref_known ht hx hd).1.branch
    split at h
    · cases h; exact settled_emptyObject t _
    · rename_i hid
      have := unseenFin_cons_lt hid
      dsimp only at h
      split at h
      · cases h
        exact (mergeBranches_merged ht hb (merged_nil t)).object owner _
      · split at h
        · cases h
        · exact resolveIn_settled ht (hb _ (List.mem_cons_self ..)) h
      · split at h
        · cases h
        · exact resolveIn_settled ht (hb _ (List.mem_cons_self ..)) h
  · rename_i hd
    exact deref_settled ht hx h fun id kind branches he => hd id kind branches (he ▸ h)
termination_by (unseenFin within, 0)
decreasing_by all_goals decreasing_with omega

theorem mergeBranches_merged (ht : t.Sound []) {owner : Fin n} {within : List (Fin n)}
    {branches : List (Node n)} {acc : List (String × Node n) × List String}
    (hb : ∀ b ∈ branches, b.All (t.Knows [])) (hacc : t.Merged acc.1) :
    t.Merged (t.mergeBranches owner within branches acc).1 := by
  cases branches with
  | nil => rw [mergeBranches]; exact hacc
  | cons b bs =>
      rw [mergeBranches]
      refine mergeBranches_merged ht (fun c hc => hb c (List.mem_cons_of_mem b hc))
        (hacc.mergeBranch fun y hy => ?_)
      exact resolveIn_settled ht (hb b (List.mem_cons_self ..)) hy
termination_by (unseenFin within, 1 + branches.length)
decreasing_by all_goals decreasing_with subst_vars; simp +arith

end

mutual

theorem resolveIn_extends (ht : t.Sound []) (hle : t.Extends t') {owner : Fin n}
    {within : List (Fin n)} {x : Node n} (hx : x.All (t.Knows [])) :
    t'.resolveIn owner within x = t.resolveIn owner within x := by
  rw [resolveIn, resolveIn.eq_def t, deref_extends hle hx.self]
  split
  · rename_i id kind branches hd
    have hb := (deref_known ht hx hd).1.branch
    split
    · rfl
    · rename_i hid
      have := unseenFin_cons_lt hid
      dsimp only
      split
      · rw [mergeBranches_extends ht hle hb]
      · split
        · rfl
        · exact resolveIn_extends ht hle (hb _ (List.mem_cons_self ..))
      · split
        · rfl
        · exact resolveIn_extends ht hle (hb _ (List.mem_cons_self ..))
  · rfl
termination_by (unseenFin within, 0)
decreasing_by all_goals decreasing_with omega

theorem mergeBranches_extends (ht : t.Sound []) (hle : t.Extends t') {owner : Fin n}
    {within : List (Fin n)} {branches : List (Node n)}
    {acc : List (String × Node n) × List String} (hb : ∀ b ∈ branches, b.All (t.Knows [])) :
    t'.mergeBranches owner within branches acc = t.mergeBranches owner within branches acc := by
  cases branches with
  | nil => rw [mergeBranches, mergeBranches]
  | cons b bs =>
      rw [mergeBranches, mergeBranches, resolveIn_extends ht hle (hb b (List.mem_cons_self ..))]
      exact mergeBranches_extends ht hle fun c hc => hb c (List.mem_cons_of_mem b hc)
termination_by (unseenFin within, 1 + branches.length)
decreasing_by all_goals decreasing_with subst_vars; simp +arith

end

theorem resolve_settled (ht : t.Sound []) {x y : Node n} (hx : x.All (t.Knows []))
    (h : t.resolve x = some y) : t.Settled y := by
  unfold resolve at h
  split at h
  · rename_i id kind branches hd
    exact resolveIn_settled ht (deref_known ht hx hd).1 h
  · rename_i hd
    exact deref_settled ht hx h fun id kind branches he => hd id kind branches (he ▸ h)

theorem resolve_extends (ht : t.Sound []) (hle : t.Extends t') {x : Node n}
    (hx : x.All (t.Knows [])) : t'.resolve x = t.resolve x := by
  unfold resolve
  rw [deref_extends hle hx.self]
  split
  · rename_i id kind branches hd
    exact resolveIn_extends ht hle (deref_known ht hx hd).1
  · rfl

theorem resolve_of_concrete {x : Node n} (hx : x.IsConcrete) : t.resolve x = some x := by
  cases x with
  | ref _ _ => exact hx.elim
  | composite _ _ _ => exact hx.elim
  | _ => rfl

/-- A known node resolves to the node. -/
def Yields (t : NodeTable n) (x : Node n) : Prop := ∃ z, z.All (t.Knows []) ∧ t.resolve z = some x

theorem yields_of_known {x : Node n} (hx : x.All (t.Knows [])) (concrete : x.IsConcrete) :
    t.Yields x :=
  ⟨x, hx, resolve_of_concrete concrete⟩

theorem Yields.settled (ht : t.Sound []) {x : Node n} (h : t.Yields x) : t.Settled x :=
  let ⟨_, hz, hx⟩ := h
  resolve_settled ht hz hx

theorem Yields.extends (ht : t.Sound []) (hle : t.Extends t') {x : Node n} (h : t.Yields x) :
    t'.Yields x :=
  let ⟨z, hz, hx⟩ := h
  ⟨z, hz.mono fun _ hy => hy.mono hle, (resolve_extends ht hle hz).trans hx⟩

/-! ## Where it leads -/

/-- What the references of such a node lead to, and the nodes inside it, are such nodes as well. -/
structure Closed (t : NodeTable n) (P : Node n → Prop) : Prop where
  deref : ∀ {x y}, P x → t.deref x = some y → P y
  inside : ∀ {x y}, P x → y ∈ x.children → P y

variable {P : Node n → Prop}

theorem closed_known (ht : t.Sound []) : t.Closed fun x => x.All (t.Knows []) where
  deref hx h := (deref_known ht hx h).1
  inside hx mem := hx.inside _ mem

mutual

/-- Resolution leads to such a node, or it makes an object with such properties for the composite
from which it set out. -/
theorem Closed.resolveIn (closed : t.Closed P) {owner : Fin n} {within : List (Fin n)}
    {x y : Node n} (hx : P x) (h : t.resolveIn owner within x = some y) :
    P y ∨ ∃ properties required, y = .object (.merged owner) properties required none .null ∧
      ∀ p ∈ properties, P p.2 := by
  rw [NodeTable.resolveIn] at h
  split at h
  · rename_i id kind branches hd
    have hb : ∀ b ∈ branches, P b := fun b mem => closed.inside (closed.deref hx hd) mem
    split at h
    · cases h
      exact Or.inr ⟨[], [], rfl, by simp⟩
    · rename_i hid
      have := unseenFin_cons_lt hid
      dsimp only at h
      split at h
      · cases h
        exact Or.inr ⟨_, _, rfl, closed.mergeBranches hb (by simp)⟩
      · split at h
        · cases h
        · exact closed.resolveIn (hb _ (List.mem_cons_self ..)) h
      · split at h
        · cases h
        · exact closed.resolveIn (hb _ (List.mem_cons_self ..)) h
  · exact Or.inl (closed.deref hx h)
termination_by (unseenFin within, 0)
decreasing_by all_goals decreasing_with omega

theorem Closed.mergeBranches (closed : t.Closed P) {owner : Fin n} {within : List (Fin n)}
    {branches : List (Node n)} {acc : List (String × Node n) × List String}
    (hb : ∀ b ∈ branches, P b) (hacc : ∀ p ∈ acc.1, P p.2) :
    ∀ p ∈ (t.mergeBranches owner within branches acc).1, P p.2 := by
  cases branches with
  | nil =>
      rw [NodeTable.mergeBranches]
      exact hacc
  | cons b bs =>
      rw [NodeTable.mergeBranches]
      refine closed.mergeBranches (fun c hc => hb c (List.mem_cons_of_mem b hc)) fun p hp => ?_
      unfold NodeTable.mergeBranch at hp
      split at hp
      · rename_i resolved
        rcases Keyed.mem_of_mem_update hp with hp | hp
        · exact hacc p hp
        · rcases closed.resolveIn (hb b (List.mem_cons_self ..)) resolved with h | ⟨_, _, same, h⟩
          · exact closed.inside h (List.mem_append_left _ (List.mem_map_of_mem hp))
          · cases same
            exact h p hp
      · exact hacc p hp
termination_by (unseenFin within, 1 + branches.length)
decreasing_by all_goals decreasing_with subst_vars; simp +arith

end

theorem Closed.resolve (closed : t.Closed P) {x y : Node n} (hx : P x)
    (h : t.resolve x = some y) :
    P y ∨ ∃ composite properties required,
      y = .object (.merged composite) properties required none .null ∧ ∀ p ∈ properties, P p.2 := by
  unfold NodeTable.resolve at h
  split at h
  · rename_i id kind branches hd
    exact (closed.resolveIn (closed.deref hx hd) h).imp_right fun made => ⟨id, made⟩
  · exact Or.inl (closed.deref hx h)

/-! ## Elements -/

def isArray (t : NodeTable n) (node : Node n) : Bool :=
  match t.resolve node with
  | some (.array _ _) => true
  | _ => false

/-- What a property is about: the node it resolves to, or of a list the one of its items. -/
def element (t : NodeTable n) (node : Node n) : Option (Node n) :=
  match t.resolve node with
  | some (.array _ items) => t.resolve? items
  | resolved => resolved

theorem element_yields (ht : t.Sound []) {x y : Node n} (hx : x.All (t.Knows []))
    (h : t.element x = some y) : t.Yields y := by
  unfold element at h
  split at h
  · rename_i id items hr
    obtain ⟨z, rfl, hz⟩ := Option.bind_eq_some_iff.mp h
    exact ⟨z, (resolve_settled ht hx hr).items, hz⟩
  · exact ⟨x, hx, h⟩

theorem element_extends (ht : t.Sound []) (hle : t.Extends t') {x : Node n}
    (hx : x.All (t.Knows [])) : t'.element x = t.element x := by
  unfold element
  rw [resolve_extends ht hle hx]
  split
  · rename_i id items hr
    cases items with
    | none => rfl
    | some y => exact resolve_extends ht hle (resolve_settled ht hx hr).items
  · rfl

end NodeTable

end ResourceGraph
