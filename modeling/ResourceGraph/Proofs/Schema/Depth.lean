import ResourceGraph.Proofs.Api.Parts
import ResourceGraph.Proofs.Schema.Equivalence

/-!
# Depth

How deep nodes are nested inside a node. Equal nodes are of one depth, and what a node resolves to
is no deeper than the node, also where branches are merged. So nothing is equal to a part of it.
-/

namespace ResourceGraph

variable {n : Nat}

theorem foldr_max_le_iff {l : List Nat} {bound : Nat} :
    l.foldr max 0 ≤ bound ↔ ∀ k ∈ l, k ≤ bound := by
  induction l with
  | nil => simp
  | cons k rest ih => rw [List.foldr_cons, Nat.max_le, ih, List.forall_mem_cons]

namespace Node

/-- The length of the longest way from a node down into it. -/
def depth (x : Node n) : Nat := (x.children.attach.map fun y => depth y.1 + 1).foldr max 0
termination_by sizeOf x
decreasing_by exact sizeOf_child_lt y.2

variable {x y : Node n}

theorem depth_le_iff {bound : Nat} : x.depth ≤ bound ↔ ∀ y ∈ x.children, y.depth < bound := by
  rw [depth, foldr_max_le_iff, List.forall_mem_map]
  exact ⟨fun h y hy => h ⟨y, hy⟩ (List.mem_attach ..), fun h y _ => h y.1 y.2⟩

theorem depth_lt (h : y ∈ x.children) : y.depth < x.depth :=
  depth_le_iff.mp (Nat.le_refl _) y h

/-- What is in one of two equal nodes is equal to something in the other one. -/
theorem Eqv.child (h : x.Eqv y) {c : Node n} (hc : c ∈ x.children) :
    ∃ d ∈ y.children, c.Eqv d := by
  cases x with
  | array id items =>
      obtain rfl : items = some c := Option.mem_toList.mp hc
      cases y with
      | array id' items' =>
          rw [Eqv, looseEq, looseEqOption_iff] at h
          cases h with
          | some same => exact ⟨_, List.mem_singleton_self _, same⟩
      | _ => simp [Eqv, looseEq] at h
  | composite id kind branches =>
      cases y with
      | composite id' kind' branches' =>
          rw [Eqv, looseEq, Bool.and_eq_true, looseEqItems_iff] at h
          exact exists_of_forall₂_left h.2 hc
      | _ => simp [Eqv, looseEq] at h
  | object key properties required additional other =>
      cases y with
      | object key' properties' required' additional' other' =>
          simp only [Eqv, looseEq, Bool.and_eq_true, looseEqMembers_iff, looseEqOption_iff] at h
          obtain ⟨⟨⟨⟨-, members⟩, -⟩, extra⟩, -⟩ := h
          rcases List.mem_append.mp hc with hc | hc
          · obtain ⟨p, hp, rfl⟩ := List.mem_map.mp hc
            obtain ⟨d, found, same⟩ := members p hp
            have mem := List.mem_map_of_mem (f := Prod.snd) (Keyed.mem_of_find? found)
            exact ⟨d, List.mem_append_left _ mem, same⟩
          · obtain rfl : additional = some c := Option.mem_toList.mp hc
            cases extra with
            | some same => exact ⟨_, List.mem_append_right _ (List.mem_singleton_self _), same⟩
      | _ => simp [Eqv, looseEq] at h
  | _ => cases hc

theorem Eqv.depth_le {x y : Node n} (h : x.Eqv y) : x.depth ≤ y.depth := by
  refine depth_le_iff.mpr fun c hc => ?_
  obtain ⟨d, hd, same⟩ := h.child hc
  exact Nat.lt_of_le_of_lt same.depth_le (depth_lt hd)
termination_by sizeOf x
decreasing_by exact sizeOf_child_lt hc

end Node

namespace NodeTable

variable {t : NodeTable n} {x y z : Node n}

/-- Inside of what is not that deep, nothing is. -/
theorem closed_shallow (t : NodeTable n) (bound : Nat) :
    t.Closed fun x => t.Grounded x ∧ x.depth < bound where
  deref hx h := by
    cases hx.1.deref.symm.trans h
    exact hx
  inside hx mem := ⟨(hx.1.child _ mem).1, Nat.lt_trans (Node.depth_lt mem) hx.2⟩

theorem depth_object_le {key : ObjectKey n} {properties : List (String × Node n)}
    {required : List String} {other : Value} {bound : Nat}
    (h : ∀ p ∈ properties, t.Grounded p.2 ∧ p.2.depth < bound) :
    (Node.object key properties required none other).depth ≤ bound := by
  refine Node.depth_le_iff.mpr fun y hy => ?_
  obtain ⟨p, hp, rfl⟩ : ∃ p ∈ properties, p.2 = y := by simpa [Node.children] using hy
  exact (h p hp).2

/-- Resolution does not go deeper. -/
theorem depth_resolve_le (hz : t.Grounded z) (h : t.resolve z = some x) : x.depth ≤ z.depth := by
  rw [resolve, hz.deref] at h
  cases z with
  | composite id kind branches =>
      have closed := closed_shallow t (Node.composite id kind branches).depth
      have hb : ∀ b ∈ branches, t.Grounded b ∧ b.depth < (Node.composite id kind branches).depth :=
        fun b hb => ⟨(hz.child b hb).1, Node.depth_lt hb⟩
      dsimp only at h
      rw [resolveIn, hz.deref] at h
      simp only [List.not_mem_nil, dite_false] at h
      cases kind with
      | allOf =>
          cases h
          exact depth_object_le (closed.mergeBranches hb (by simp))
      | _ =>
          cases branches with
          | nil => cases h
          | cons b rest =>
              rcases closed.resolveIn (hb b (List.mem_cons_self ..)) h with hx | ⟨_, _, rfl, below⟩
              · exact Nat.le_of_lt hx.2
              · exact depth_object_le below
  | _ =>
      cases h
      exact Nat.le_refl _

/-- Nodes that count as the same are of one depth. -/
theorem depth_le_of_same (sound : t.Sound []) (hx : t.Yields x) (hy : t.Yields y)
    (definable : x.Definable) (same : x.sameOrEqual y = true) : x.depth ≤ y.depth := by
  rw [Node.sameOrEqual, Bool.or_eq_true, decide_eq_true_eq] at same
  rcases same with identity | equal
  · exact Nat.le_of_eq (congrArg Node.depth (hx.eq_of_identity sound hy definable.rooted identity))
  · exact Node.Eqv.depth_le equal

end NodeTable

end ResourceGraph
