import ResourceGraph.Proofs.Schema.Alike
import ResourceGraph.Proofs.Schema.Flattening

/-!
# What values of equal contents stand for

Composites of the same content resolve branch by branch to the same properties, as long as no
composite comes back to itself through its branches, where resolution would cut it off.
-/

namespace ResourceGraph

open Relation

theorem CompositeKind.forall₂_followed {α β : Type} {R : α → β → Prop} {as : List α} {bs : List β}
    (kind : CompositeKind) (h : List.Forall₂ R as bs) :
    List.Forall₂ R (kind.followed as) (kind.followed bs) := by
  cases kind with
  | allOf => exact h
  | _ => exact List.forall₂_take 1 h

theorem CompositeKind.rel_head? {α β : Type} {R : α → β → Prop} {as : List α} {bs : List β}
    {kind : CompositeKind} (alternative : kind ≠ .allOf)
    (h : List.Forall₂ R (kind.followed as) (kind.followed bs)) :
    Option.Rel R as.head? bs.head? := by
  cases kind with
  | allOf => exact absurd rfl alternative
  | _ =>
      cases as with
      | nil =>
          cases bs with
          | nil => exact .none
          | cons b bs => cases h
      | cons a as =>
          cases bs with
          | nil => cases h
          | cons b bs =>
              cases h with
              | cons head _ => exact .some head

namespace RawGraph

variable {g : RawGraph} {i j : Fin g.size} {within within' : List (Fin g.size)}
  {v w : RawValue g.size}

/-- The first object is a composite, and its resolution goes into the second. -/
def Follows (g : RawGraph) (i j : Fin g.size) : Prop :=
  ∃ kind branches, Layout.ofObject g i = .composite kind branches ∧ .obj j ∈ kind.followed branches

/-- No composite comes back to itself, from branch to branch. -/
def Unlooped (g : RawGraph) (v : RawValue g.size) : Prop :=
  ∀ i j, v = .obj i → ReflTransGen g.Follows i j → ¬ TransGen g.Follows j j

/-- Values of the same content that are resolved inside the composites `within` and `within'`. -/
structure Enters (g : RawGraph) (within within' : List (Fin g.size)) (v w : RawValue g.size) :
    Prop where
  same : g.Same v w
  left : g.Unlooped v
  right : g.Unlooped w
  above : ∀ a ∈ within, ∀ i, v = .obj i → TransGen g.Follows a i
  above' : ∀ a ∈ within', ∀ i, w = .obj i → TransGen g.Follows a i

theorem Unlooped.branch (h : g.Unlooped (.obj i)) (down : ∀ j, v = .obj j → g.Follows i j) :
    g.Unlooped v := fun j k same path =>
  h i k rfl (.head (down j same) path)

theorem above_branch (above : ∀ a ∈ within, TransGen g.Follows a i)
    (down : ∀ j, v = .obj j → g.Follows i j) :
    ∀ a ∈ i :: within, ∀ j, v = .obj j → TransGen g.Follows a j :=
  List.forall_mem_cons.mpr ⟨fun j same => .single (down j same),
    fun a mem j same => (above a mem).tail (down j same)⟩

theorem Enters.branch (h : g.Enters within within' (.obj i) (.obj j)) (same : g.Same v w)
    (down : ∀ k, v = .obj k → g.Follows i k) (down' : ∀ k, w = .obj k → g.Follows j k) :
    g.Enters (i :: within) (j :: within') v w where
  same := same
  left := h.left.branch down
  right := h.right.branch down'
  above := above_branch (fun a mem => h.above a mem i rfl) down
  above' := above_branch (fun a mem => h.above' a mem j rfl) down'

/-- A composite is not met inside itself. -/
theorem Enters.fresh (h : g.Enters within within' (.obj i) (.obj j)) : i ∉ within ∧ j ∉ within' :=
  ⟨fun mem => h.left i i rfl .refl (h.above i mem i rfl),
    fun mem => h.right j j rfl .refl (h.above' j mem j rfl)⟩

end RawGraph

namespace NodeTable

variable {g : RawGraph} {t : NodeTable g.size} {within within' : List (Fin g.size)}

/-- Nodes of values that are resolved inside composites. -/
abbrev Entering (t : NodeTable g.size) (within within' : List (Fin g.size)) (x y : Node g.size) :
    Prop := Made (t.Denotes []) (g.Enters within within') x y

theorem Entering.alike {x y : Node g.size} (h : t.Entering within within' x y) : t.Alike x y :=
  let ⟨v, w, hx, hy, enters⟩ := h
  ⟨v, w, hx, hy, enters.same⟩

/-- Two composites have branches that are resolved inside them. -/
theorem Entering.branches (sound : t.Sound []) (reflects : t.Reflects g []) {x y : Node g.size}
    (h : t.Entering within within' x y) {id id' : Fin g.size} {kind : CompositeKind}
    {bs bs' : List (Node g.size)} (hx : t.deref x = some (.composite id kind bs))
    (hy : t.deref y = some (.composite id' kind bs')) :
    (id ∉ within ∧ id' ∉ within') ∧ List.Forall₂ (t.Entering (id :: within) (id' :: within'))
      (kind.followed bs) (kind.followed bs') := by
  obtain ⟨v, w, hv, hw, enters⟩ := h
  rcases hv.deref sound with ⟨i, x', rfl, found, leads⟩ | ⟨leaf, k, rfl⟩
  · rcases hw.deref sound with ⟨j, y', rfl, found', leads'⟩ | ⟨leaf, k, rfl⟩
    · cases leads.symm.trans hx
      cases leads'.symm.trans hy
      have made := reflects i _ found
      have made' := reflects j _ found'
      have layouts := Layout.ofObject_level enters.same
      generalize hl : Layout.ofObject g i = l at made layouts
      generalize hl' : Layout.ofObject g j = l' at made' layouts
      cases made with
      | composite _ denotes =>
          cases made' with
          | composite _ denotes' =>
              cases layouts with
              | composite _ branches =>
                  have inside := forall₂_imp_of_mem (kind.forall₂_followed branches)
                    fun v mem w mem' same => enters.branch same
                      (fun k is => ⟨kind, _, hl, is ▸ mem⟩) fun k is => ⟨kind, _, hl', is ▸ mem'⟩
                  exact ⟨enters.fresh, made_list (kind.forall₂_followed denotes)
                    (kind.forall₂_followed denotes') inside⟩
    · cases hy
  · cases hx

theorem mergeBranch_agree {acc acc' : List (String × Node g.size) × List String}
    (hacc : Keyed.Agree t.Alike acc.1 acc'.1) {x y : Option (Node g.size)}
    (hx : ∀ z, x = some z → z.Distinct) (hy : ∀ z, y = some z → z.Distinct)
    (h : Option.Rel (Node.Level t.Alike) x y) :
    Keyed.Agree t.Alike (mergeBranch acc x).1 (mergeBranch acc' y).1 := by
  cases h with
  | none => exact hacc
  | some level =>
      cases level with
      | object properties => exact hacc.update (hx _ rfl) (hy _ rfl) properties
      | _ => exact hacc

mutual

theorem Entering.resolveIn (sound : t.Sound []) (reflects : t.Reflects g [])
    (owner owner' : Fin g.size) {within within' : List (Fin g.size)} {x y : Node g.size}
    (h : t.Entering within within' x y) :
    Option.Rel (Node.Level t.Alike) (t.resolveIn owner within x)
      (t.resolveIn owner' within' y) := by
  obtain ⟨x', hx⟩ : ∃ x', t.deref x = some x' := by
    obtain ⟨v, w, hv, -⟩ := h
    exact deref_of_known (hv.known sound).self
  obtain ⟨y', hy⟩ : ∃ y', t.deref y = some y' := by
    obtain ⟨v, w, -, hw, -⟩ := h
    exact deref_of_known (hw.known sound).self
  have level := h.alike.deref sound reflects hx hy
  have plain (left : ∀ i kind branches, t.deref x ≠ some (.composite i kind branches))
      (right : ∀ i kind branches, t.deref y ≠ some (.composite i kind branches)) :
      Option.Rel (Node.Level t.Alike) (t.resolveIn owner within x)
        (t.resolveIn owner' within' y) := by
    rw [resolveIn_plain left, resolveIn_plain right, hx, hy]
    exact .some level
  cases level with
  | @composite id id' kind bs bs' _ =>
      obtain ⟨⟨fresh, fresh'⟩, branches⟩ := h.branches sound reflects hx hy
      have := unseenFin_cons_lt fresh
      by_cases alternative : kind = .allOf
      · subst alternative
        rw [resolveIn_allOf hx fresh, resolveIn_allOf hy fresh']
        refine .some (.object ?_ .none nofun)
        exact mergeBranches_agree sound reflects branches fun _ => .none
      · rw [resolveIn_alternative hx alternative fresh, resolveIn_alternative hy alternative fresh']
        have first := CompositeKind.rel_head? alternative branches
        generalize bs.head? = b at first
        generalize bs'.head? = b' at first
        cases first with
        | none => exact .none
        | some head => exact Entering.resolveIn sound reflects owner owner' head
  | enumeration | array | object | scalar => exact plain (by simp [hx]) (by simp [hy])
termination_by (unseenFin within, 0)
decreasing_by all_goals decreasing_with omega

theorem mergeBranches_agree (sound : t.Sound []) (reflects : t.Reflects g [])
    {owner owner' : Fin g.size} {within within' : List (Fin g.size)} {bs bs' : List (Node g.size)}
    {acc acc' : List (String × Node g.size) × List String}
    (h : List.Forall₂ (t.Entering within within') bs bs')
    (hacc : Keyed.Agree t.Alike acc.1 acc'.1) :
    Keyed.Agree t.Alike (t.mergeBranches owner within bs acc).1
      (t.mergeBranches owner' within' bs' acc').1 := by
  match bs, bs', h with
  | [], [], .nil =>
      rw [mergeBranches, mergeBranches]
      exact hacc
  | b :: bs, b' :: bs', .cons head rest =>
      rw [mergeBranches, mergeBranches]
      refine mergeBranches_agree sound reflects rest ?_
      obtain ⟨v, w, hv, hw, -⟩ := id head
      refine mergeBranch_agree hacc (fun z hz => ?_) (fun z hz => ?_)
        (Entering.resolveIn sound reflects owner owner' head)
      · exact (resolveIn_settled sound (hv.known sound) hz).distinct
      · exact (resolveIn_settled sound (hw.known sound) hz).distinct
termination_by (unseenFin within, 1 + bs.length)
decreasing_by all_goals decreasing_with omega

end

/-- Values of the same content without looping composites stand for nodes that are alike below. -/
theorem Means.level (sound : t.Sound []) (reflects : t.Reflects g []) {v w : RawValue g.size}
    {x y : Node g.size} (hx : t.Means v x) (hy : t.Means w y) (same : g.Same v w)
    (hv : g.Unlooped v) (hw : g.Unlooped w) : x.Level t.Alike y := by
  obtain ⟨x₀, hx₀, hx⟩ := hx
  obtain ⟨y₀, hy₀, hy⟩ := hy
  have entering : t.Entering [] [] x₀ y₀ :=
    ⟨v, w, hx₀, hy₀, same, hv, hw, by simp, by simp⟩
  obtain ⟨x₁, is⟩ := deref_of_known (hx₀.known sound).self
  obtain ⟨y₁, is'⟩ := deref_of_known (hy₀.known sound).self
  have level := entering.alike.deref sound reflects is is'
  have here := level
  cases level with
  | @composite id id' =>
      have resolved := entering.resolveIn sound reflects id id'
      rw [← resolve_of_composite is, ← resolve_of_composite is', hx, hy] at resolved
      cases resolved with
      | some level => exact level
  | _ =>
      rw [resolve, is] at hx
      rw [resolve, is'] at hy
      cases hx
      cases hy
      exact here

end NodeTable

end ResourceGraph
