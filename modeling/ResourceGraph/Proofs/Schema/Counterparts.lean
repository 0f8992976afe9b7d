import Mathlib.Data.List.Forall2
import ResourceGraph.Proofs.Schema.Origin
import ResourceGraph.Schema.Paths

/-!
# One raw value in two tables

A table that was filled from other values, or in another order, has its references at other places.
What a raw value resolves to is the same in both but for the nodes inside, and these are again nodes
of the same raw values. So the paths to the strings of a schema do not depend on the table.
-/

namespace ResourceGraph

variable {n : Nat}

/-! ## Nodes that differ only inside -/

namespace Node

/-- Nodes of one origin with related nodes inside. Scalars without an object may be any two. -/
inductive Paired (R : Node n → Node n → Prop) : Node n → Node n → Prop
  | scalar {key key' : ScalarKey n} (type format : Value) :
      Paired R (.scalar key type format) (.scalar key' type format)
  | enumeration (id : Fin n) (values : List Value) (type : Value) :
      Paired R (.enumeration id values type) (.enumeration id values type)
  | array (id : Fin n) {items items' : Option (Node n)} (inside : Option.Rel R items items') :
      Paired R (.array id items) (.array id items')
  | composite (id : Fin n) (kind : CompositeKind) {branches branches' : List (Node n)}
      (inside : List.Forall₂ R branches branches') :
      Paired R (.composite id kind branches) (.composite id kind branches')
  | object (key : ObjectKey n) {ps ps' : List (String × Node n)} (required : List String)
      {extra extra' : Option (Node n)} (other : Value)
      (properties : List.Forall₂ (fun p q => p.1 = q.1 ∧ R p.2 q.2) ps ps')
      (additional : Option.Rel R extra extra') :
      Paired R (.object key ps required extra other) (.object key ps' required extra' other)

end Node

theorem forall₂_meet {α β γ : Type} {D : α → β → Prop} {D' : α → γ → Prop} {as : List α}
    {bs : List β} {cs : List γ} (h : List.Forall₂ D as bs) (h' : List.Forall₂ D' as cs) :
    List.Forall₂ (fun b c => ∃ a, D a b ∧ D' a c) bs cs :=
  forall₂_trans_of_mem h.flip h' fun _ _ a _ _ _ hd hd' => ⟨a, hd, hd'⟩

theorem optionRel_meet {α β γ : Type} {D : α → β → Prop} {D' : α → γ → Prop} {a : Option α}
    {b : Option β} {c : Option γ} (h : Option.Rel D a b) (h' : Option.Rel D' a c) :
    Option.Rel (fun b c => ∃ a, D a b ∧ D' a c) b c := by
  cases h with
  | none =>
      cases h'
      exact .none
  | some hd =>
      cases h' with
      | some hd' => exact .some ⟨_, hd, hd'⟩

/-- Two nodes of one layout differ only inside. -/
theorem Layout.Makes.paired {D D' : RawValue n → Node n → Prop} {i : Fin n} {l : Layout n}
    {x x' : Node n} (h : l.Makes D i x) (h' : l.Makes D' i x') :
    x.Paired (fun y y' => ∃ raw, D raw y ∧ D' raw y') x' := by
  cases h with
  | composite kind branches =>
      cases h' with
      | composite _ branches' => exact .composite i kind (forall₂_meet branches branches')
  | enumeration values type =>
      cases h'
      exact .enumeration i values type
  | array items =>
      cases h' with
      | array items' => exact .array i (optionRel_meet items items')
  | object other properties required additional =>
      cases h' with
      | object _ properties' required' additional' =>
          obtain rfl := Except.ok.inj (required.symm.trans required')
          refine .object _ _ other ?_ (optionRel_meet additional additional')
          refine (forall₂_meet properties properties').imp fun p q => ?_
          rintro ⟨r, ⟨name, hd⟩, name', hd'⟩
          exact ⟨name.symm.trans name', r.2, hd, hd'⟩
  | scalar type format =>
      cases h'
      exact .scalar type format

/-! ## Resolution -/

namespace NodeTable

/-- Nodes of one raw value, each in its table. -/
def Counterparts (t t' : NodeTable n) (x x' : Node n) : Prop :=
  ∃ raw, t.Denotes [] raw x ∧ t'.Denotes [] raw x'

/-- Properties of one name, in order, whose nodes are counterparts. -/
abbrev PairedProperties (t t' : NodeTable n) :
    List (String × Node n) → List (String × Node n) → Prop :=
  List.Forall₂ fun p q => p.1 = q.1 ∧ Counterparts t t' p.2 q.2

theorem PairedProperties.insert {t t' : NodeTable n} {ps qs : List (String × Node n)}
    (h : PairedProperties t t' ps qs) (k : String) {x x' : Node n} (hx : Counterparts t t' x x') :
    PairedProperties t t' (Keyed.insert k x ps) (Keyed.insert k x' qs) := by
  induction h with
  | nil => exact .cons ⟨rfl, hx⟩ .nil
  | @cons p q ps qs head tail ih =>
      rw [Keyed.insert, Keyed.insert, head.1]
      split
      · exact .cons ⟨rfl, hx⟩ tail
      · exact .cons ⟨rfl, head.2⟩ ih

theorem PairedProperties.update {t t' : NodeTable n} {ps qs rs ss : List (String × Node n)}
    (h : PairedProperties t t' ps qs) (h' : PairedProperties t t' rs ss) :
    PairedProperties t t' (Keyed.update ps rs) (Keyed.update qs ss) := by
  induction h' generalizing ps qs with
  | nil => exact h
  | @cons r s rs ss head tail ih =>
      show PairedProperties t t' (Keyed.update (Keyed.insert r.1 r.2 ps) rs)
        (Keyed.update (Keyed.insert s.1 s.2 qs) ss)
      rw [← head.1]
      exact ih (h.insert r.1 head.2)

/-- What two nodes resolve to differs only inside. -/
abbrev PairedResults (t t' : NodeTable n) : Option (Node n) → Option (Node n) → Prop :=
  Option.Rel (Node.Paired (Counterparts t t'))

/-- Properties that are counterparts, and the same required names. -/
def PairedBranches (t t' : NodeTable n) (acc acc' : List (String × Node n) × List String) : Prop :=
  PairedProperties t t' acc.1 acc'.1 ∧ acc.2 = acc'.2

theorem PairedBranches.mergeBranch {t t' : NodeTable n}
    {acc acc' : List (String × Node n) × List String} (h : PairedBranches t t' acc acc')
    {x x' : Option (Node n)} (hx : PairedResults t t' x x') :
    PairedBranches t t' (mergeBranch acc x) (mergeBranch acc' x') := by
  cases hx with
  | none => exact h
  | some hx =>
      cases hx with
      | object key required other properties additional =>
          refine ⟨h.1.update properties, ?_⟩
          show acc.2 ++ required = acc'.2 ++ required
          rw [h.2]
      | _ => exact h

/-- Every node of the table is known and is the node of its object. -/
structure Faithful (g : RawGraph) (t : NodeTable g.size) : Prop where
  sound : t.Sound []
  reflects : t.Reflects g []

variable {g : RawGraph} {t t' : NodeTable g.size}

theorem Counterparts.deref (ht : t.Faithful g) (ht' : t'.Faithful g) {x x' : Node g.size}
    (h : Counterparts t t' x x') :
    ∃ y y', t.deref x = some y ∧ t'.deref x' = some y' ∧ Counterparts t t' y y' ∧
      y.Paired (Counterparts t t') y' := by
  obtain ⟨raw, hx, hx'⟩ := h
  rcases hx.deref ht.sound with ⟨i, y, rfl, found, leads⟩ | ⟨leaf, k, rfl⟩
  · rcases hx'.deref ht'.sound with ⟨i', y', same, found', leads'⟩ | ⟨leaf', -⟩
    · cases same
      exact ⟨y, y', leads, leads', ⟨_, .found found, .found found'⟩,
        (ht.reflects i y found).paired (ht'.reflects i y' found')⟩
    · exact (leaf' i rfl).elim
  · rcases hx'.deref ht'.sound with ⟨i', y', rfl, -⟩ | ⟨-, k', rfl⟩
    · exact (leaf i' rfl).elim
    · exact ⟨_, _, rfl, rfl, ⟨raw, hx, hx'⟩, .scalar .null .null⟩

mutual

/-- Counterparts are resolved in step: they are composites at the same time, with branches that are
counterparts. -/
theorem Counterparts.resolveIn (ht : t.Faithful g) (ht' : t'.Faithful g) (owner : Fin g.size)
    (within : List (Fin g.size)) {x x' : Node g.size} (h : Counterparts t t' x x') :
    PairedResults t t' (t.resolveIn owner within x) (t'.resolveIn owner within x') := by
  obtain ⟨y, y', leads, leads', -, paired⟩ := h.deref ht ht'
  rw [NodeTable.resolveIn, NodeTable.resolveIn, leads, leads']
  cases paired with
  | composite id kind inside =>
      dsimp only
      split
      · exact .some (.object _ _ _ .nil .none)
      · rename_i hid
        have := unseenFin_cons_lt hid
        cases kind with
        | allOf =>
            have unmerged : PairedBranches t t' ([], []) ([], []) := ⟨.nil, rfl⟩
            have merged := mergeBranches_paired ht ht' owner (id :: within) inside unmerged
            dsimp only
            rw [merged.2]
            exact .some (.object _ _ _ merged.1 .none)
        | _ =>
            cases inside with
            | nil => exact .none
            | cons first _ => exact first.resolveIn ht ht' owner (id :: within)
  | scalar type format => exact .some (.scalar type format)
  | enumeration id values type => exact .some (.enumeration id values type)
  | array id inside => exact .some (.array id inside)
  | object key required other properties additional =>
      exact .some (.object key required other properties additional)
termination_by (unseenFin within, 0)
decreasing_by all_goals decreasing_with omega

theorem mergeBranches_paired (ht : t.Faithful g) (ht' : t'.Faithful g) (owner : Fin g.size)
    (within : List (Fin g.size)) {branches branches' : List (Node g.size)}
    {acc acc' : List (String × Node g.size) × List String}
    (h : List.Forall₂ (Counterparts t t') branches branches')
    (hacc : PairedBranches t t' acc acc') :
    PairedBranches t t' (t.mergeBranches owner within branches acc)
      (t'.mergeBranches owner within branches' acc') := by
  match branches, branches', h with
  | [], [], _ =>
      rw [mergeBranches, mergeBranches]
      exact hacc
  | b :: bs, b' :: bs', .cons head tail =>
      rw [mergeBranches, mergeBranches]
      exact mergeBranches_paired ht ht' owner within tail
        (hacc.mergeBranch (head.resolveIn ht ht' owner within))
termination_by (unseenFin within, 1 + branches.length)
decreasing_by all_goals decreasing_with omega

end

theorem Counterparts.resolve (ht : t.Faithful g) (ht' : t'.Faithful g) {x x' : Node g.size}
    (h : Counterparts t t' x x') : PairedResults t t' (t.resolve x) (t'.resolve x') := by
  obtain ⟨y, y', leads, leads', counterparts, paired⟩ := h.deref ht ht'
  rw [NodeTable.resolve, NodeTable.resolve, leads, leads']
  cases paired with
  | composite id kind inside =>
      exact counterparts.resolveIn ht ht' id []
  | scalar type format => exact .some (.scalar type format)
  | enumeration id values type => exact .some (.enumeration id values type)
  | array id inside => exact .some (.array id inside)
  | object key required other properties additional =>
      exact .some (.object key required other properties additional)

/-! ## Paths -/

theorem flatMap_congr_forall₂ {α β γ : Type} {R : α → β → Prop} {as : List α} {bs : List β}
    (h : List.Forall₂ R as bs) {f : α → List γ} {f' : β → List γ}
    (same : ∀ a b, R a b → f a = f' b) :
    as.flatMap f = bs.flatMap f' := by
  induction h with
  | nil => rfl
  | cons head _ ih => rw [List.flatMap_cons, List.flatMap_cons, same _ _ head, ih]

/-- What differs only inside leads to its strings by the same paths. -/
theorem PairedResults.stringPaths (ht : t.Faithful g) (ht' : t'.Faithful g) {depth : Nat}
    {start : String} {x x' : Option (Node g.size)}
    (h : PairedResults t t' (t.resolve? x) (t'.resolve? x')) :
    t.stringPaths depth start x = t'.stringPaths depth start x' := by
  induction depth generalizing start x x' with
  | zero => rfl
  | succ depth ih =>
      rw [NodeTable.stringPaths, NodeTable.stringPaths]
      generalize t.resolve? x = y at h
      generalize t'.resolve? x' = y' at h
      cases h with
      | none => rfl
      | some h =>
          cases h with
          | object key required other properties additional =>
              refine flatMap_congr_forall₂ properties fun p q hpq => ?_
              have results := hpq.2.resolve ht ht'
              dsimp only
              rw [hpq.1]
              generalize t.resolve p.2 = z at results
              generalize t'.resolve q.2 = z' at results
              cases results with
              | none => rfl
              | some results =>
                  cases results with
                  | scalar type format =>
                      cases type with
                      | str s =>
                          by_cases hs : s = "string"
                          · subst hs
                            rfl
                          · simp [hs]
                      | _ => rfl
                  | object key required other properties additional =>
                      cases properties with
                      | nil => rfl
                      | cons first rest =>
                          exact ih (.some (.object _ _ _ (.cons first rest) additional))
                  | _ => rfl
          | _ => rfl

/-- The paths of a raw value, beginning with its node or with what that resolves to. -/
theorem Denotes.stringPaths_eq (ht : t.Faithful g) (ht' : t'.Faithful g) {raw : RawValue g.size}
    {x x' root : Node g.size} (h : t.Denotes [] raw x) (h' : t'.Denotes [] raw x')
    (resolved : t'.resolve x' = some root) (depth : Nat) (start : String) :
    t.stringPaths depth start (some x) = t'.stringPaths depth start (some root) := by
  have counterparts : Counterparts t t' x x' := ⟨raw, h, h'⟩
  have concrete := (resolve_settled ht'.sound (h'.known ht'.sound) resolved).concrete
  have results : PairedResults t t' (t.resolve? (some x)) (t'.resolve? (some root)) := by
    show PairedResults t t' (t.resolve x) (t'.resolve root)
    rw [resolve_of_concrete concrete, ← resolved]
    exact counterparts.resolve ht ht'
  exact results.stringPaths ht ht'

end NodeTable

end ResourceGraph
