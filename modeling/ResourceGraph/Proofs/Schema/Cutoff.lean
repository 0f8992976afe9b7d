import ResourceGraph.Proofs.Schema.Standins

/-!
# Composites that come back to themselves

Where a composite is met inside itself, resolution is cut off, and where that is depends on the
objects and not on their content. An object that is merged has a property of a name nevertheless if
resolution comes to an object that lists one, so the names are the same for equal contents.
-/

namespace ResourceGraph

open Relation

namespace RawGraph

variable {g : RawGraph} {i j : Fin g.size} {within : List (Fin g.size)} {name : String}

/-! ## Values that settle -/

/-- From first branch to first branch of alternatives, the value leads to one that is no composite. -/
inductive Settles (g : RawGraph) : RawValue g.size → Prop
  | leaf {v : RawValue g.size} (leaf : ∀ i, v ≠ .obj i) : Settles g v
  | plain {a : Fin g.size} (plain : ∀ kind branches, Layout.ofObject g a ≠ .composite kind branches) :
      Settles g (.obj a)
  | first {a : Fin g.size} {kind b bs} (layout : Layout.ofObject g a = .composite kind (b :: bs))
      (alternative : kind ≠ .allOf) (after : Settles g b) : Settles g (.obj a)

theorem Settles.same {v w : RawValue g.size} (h : g.Settles v) (same : g.Same v w) :
    g.Settles w := by
  induction h generalizing w with
  | leaf leaf =>
      refine .leaf fun j is => ?_
      subst is
      cases same.level with
      | @obj i => exact leaf i rfl
  | plain plain =>
      cases same.level with
      | @obj _ j =>
          refine .plain fun kind branches is => ?_
          have layouts := Layout.ofObject_level same
          rw [is] at layouts
          generalize hl : Layout.ofObject g _ = l at layouts
          cases layouts
          exact plain _ _ hl
  | first layout alternative _ ih =>
      cases same.level with
      | @obj _ j =>
          have layouts := Layout.ofObject_level same
          rw [layout] at layouts
          generalize hl : Layout.ofObject g j = l at layouts
          cases layouts with
          | composite _ branches =>
              cases branches with
              | cons head _ => exact .first hl alternative (ih head)

theorem Settles.unlooped {v : RawValue g.size} (h : g.Settles v) : g.Unlooped v := by
  induction h with
  | leaf leaf => exact fun i j is => absurd is (leaf i)
  | @plain i plain =>
      have stays (j : Fin g.size) : ¬ g.Follows i j := fun ⟨kind, branches, layout, _⟩ =>
        plain kind branches layout
      rintro _ j ⟨⟩ path
      rcases ReflTransGen.cases_head path with rfl | ⟨k, down, -⟩
      · intro loop
        obtain ⟨k, down, -⟩ := TransGen.head'_iff.mp loop
        exact stays k down
      · exact absurd down (stays k)
  | @first i kind b bs layout alternative _ ih =>
      -- resolution goes into the first branch alone
      have down (j : Fin g.size) (follows : g.Follows i j) : b = .obj j := by
        obtain ⟨kind', branches, layout', mem⟩ := follows
        cases layout.symm.trans layout'
        cases kind with
        | allOf => exact absurd rfl alternative
        | _ => exact (List.mem_singleton.mp mem).symm
      rintro _ j ⟨⟩ path
      rcases ReflTransGen.cases_head path with rfl | ⟨k, step, path⟩
      · intro loop
        obtain ⟨k, step, path⟩ := TransGen.head'_iff.mp loop
        exact ih k i (down k step) path loop
      · exact ih k j (down k step) path

/-! ## Names of properties -/

/-- The object is described as one with a property of that name. -/
def Lists (g : RawGraph) (i : Fin g.size) (name : String) : Prop :=
  ∃ properties required extra other,
    Layout.ofObject g i = .object properties required extra other ∧ name ∈ Keyed.keys properties

/-- Resolution of an object inside the composites `within` comes to an object that lists the name,
before it is cut off. -/
inductive Offers (g : RawGraph) : List (Fin g.size) → Fin g.size → String → Prop
  | here {above : List (Fin g.size)} {a : Fin g.size} {s : String} (lists : g.Lists a s) :
      Offers g above a s
  | branch {above : List (Fin g.size)} {a b : Fin g.size} {s : String} (fresh : a ∉ above)
      (follows : g.Follows a b) (inside : Offers g (a :: above) b s) : Offers g above a s

theorem offers_plain (plain : ∀ kind branches, Layout.ofObject g i ≠ .composite kind branches) :
    g.Offers within i name ↔ g.Lists i name := by
  refine ⟨fun h => ?_, .here⟩
  cases h with
  | here lists => exact lists
  | branch _ follows _ =>
      obtain ⟨kind, branches, layout, -⟩ := follows
      exact absurd layout (plain kind branches)

theorem offers_composite {kind : CompositeKind} {branches : List (RawValue g.size)}
    (layout : Layout.ofObject g i = .composite kind branches) :
    g.Offers within i name ↔ i ∉ within ∧
      ∃ v ∈ kind.followed branches, ∃ j, v = .obj j ∧ g.Offers (i :: within) j name := by
  constructor
  · intro h
    cases h with
    | here lists =>
        obtain ⟨_, _, _, _, object, -⟩ := lists
        cases layout.symm.trans object
    | branch fresh follows inside =>
        obtain ⟨_, _, layout', mem⟩ := follows
        cases layout.symm.trans layout'
        exact ⟨fresh, _, mem, _, rfl, inside⟩
  · rintro ⟨fresh, _, mem, j, rfl, inside⟩
    exact .branch fresh ⟨kind, branches, layout, mem⟩ inside

/-- A path to another place need not come back to where it starts. -/
theorem exists_step_away {α : Type} {R : α → α → Prop} {a b : α} (path : ReflTransGen R a b)
    (apart : b ≠ a) :
    ∃ c, R a c ∧ c ≠ a ∧ ReflTransGen (fun x y => R x y ∧ y ≠ a) c b := by
  induction path with
  | refl => exact absurd rfl apart
  | @tail m b before step ih =>
      by_cases back : m = a
      · exact ⟨b, back ▸ step, apart, .refl⟩
      · obtain ⟨c, first, away, rest⟩ := ih back
        exact ⟨c, first, away, rest.tail ⟨step, apart⟩⟩

/-- An object that can be reached outside of `within` is come to. -/
theorem offers_of_path {within : List (Fin g.size)} {i : Fin g.size} (lists : g.Lists j name)
    (fresh : i ∉ within) (path : ReflTransGen (fun a b => g.Follows a b ∧ b ∉ within) i j) :
    g.Offers within i name := by
  by_cases there : j = i
  · exact .here (there ▸ lists)
  · obtain ⟨k, ⟨follows, out⟩, away, rest⟩ := exists_step_away path there
    have := unseenFin_cons_lt fresh
    refine .branch fresh follows (offers_of_path lists ?_ ?_)
    · exact List.not_mem_cons_of_ne_of_not_mem away out
    · refine ReflTransGen.mono (fun a b step => ?_) _ _ rest
      exact ⟨step.1.1, List.not_mem_cons_of_ne_of_not_mem step.2 step.1.2⟩
termination_by unseenFin within

theorem offers_iff : g.Offers [] i name ↔ ∃ j, ReflTransGen g.Follows i j ∧ g.Lists j name := by
  constructor
  · intro h
    generalize [] = within at h
    induction h with
    | @here _ i _ lists => exact ⟨i, .refl, lists⟩
    | branch _ follows _ ih =>
        obtain ⟨j, path, lists⟩ := ih
        exact ⟨j, .head follows path, lists⟩
  · rintro ⟨j, path, lists⟩
    exact offers_of_path lists List.not_mem_nil
      (ReflTransGen.mono (fun _ _ follows => ⟨follows, List.not_mem_nil⟩) _ _ path)

theorem Same.lists (same : g.Same (.obj i) (.obj j)) (h : g.Lists i name) : g.Lists j name := by
  obtain ⟨properties, required, extra, other, layout, mem⟩ := h
  have layouts := Layout.ofObject_level same
  rw [layout] at layouts
  generalize hl : Layout.ofObject g j = l at layouts
  cases layouts with
  | object agree => exact ⟨_, _, _, _, hl, (agree.mem_keys name).mp mem⟩

theorem Same.follows {k : Fin g.size} (same : g.Same (.obj i) (.obj j)) (h : g.Follows i k) :
    ∃ l, g.Follows j l ∧ g.Same (.obj k) (.obj l) := by
  obtain ⟨kind, branches, layout, mem⟩ := h
  have layouts := Layout.ofObject_level same
  rw [layout] at layouts
  generalize hl : Layout.ofObject g j = l at layouts
  cases layouts with
  | composite _ branches =>
      obtain ⟨w, hw, inside⟩ := exists_of_forall₂_left (kind.forall₂_followed branches) mem
      cases id inside.level with
      | @obj _ l _ => exact ⟨l, ⟨kind, _, hl, hw⟩, inside⟩

/-- Which names are offered is a matter of content. -/
theorem Same.offers (same : g.Same (.obj i) (.obj j)) (h : g.Offers [] i name) :
    g.Offers [] j name := by
  obtain ⟨k, path, lists⟩ := offers_iff.mp h
  suffices ∃ l, ReflTransGen g.Follows j l ∧ g.Same (.obj k) (.obj l) by
    obtain ⟨l, path, same⟩ := this
    exact offers_iff.mpr ⟨l, path, same.lists lists⟩
  clear lists
  induction path with
  | refl => exact ⟨j, .refl, same⟩
  | tail _ step ih =>
      obtain ⟨l, path, same⟩ := ih
      obtain ⟨m, step, same⟩ := same.follows step
      exact ⟨m, path.tail step, same⟩

end RawGraph

/-! ## Nodes -/

namespace NodeTable

variable {g : RawGraph} {t : NodeTable g.size} {within : List (Fin g.size)} {owner : Fin g.size}

theorem keys_mergeBranches {bs : List (Node g.size)}
    {acc : List (String × Node g.size) × List String} {name : String} :
    name ∈ Keyed.keys (t.mergeBranches owner within bs acc).1 ↔ name ∈ Keyed.keys acc.1 ∨
      ∃ b ∈ bs, name ∈ Keyed.keys (contribution (t.resolveIn owner within b)).1 := by
  induction bs generalizing acc with
  | nil => simp [mergeBranches]
  | cons b bs ih =>
      rw [mergeBranches, ih, mergeBranch_eq, Keyed.mem_keys_update, List.exists_mem_cons_iff,
        or_assoc]

/-- A composite that is not met inside itself has the names of the branches that resolution goes
into. -/
theorem keys_resolveIn_composite {x : Node g.size} {i : Fin g.size} {kind : CompositeKind}
    {bs : List (Node g.size)} (is : t.deref x = some (.composite i kind bs)) (hi : i ∉ within)
    {name : String} :
    name ∈ Keyed.keys (contribution (t.resolveIn owner within x)).1 ↔ ∃ b ∈ kind.followed bs,
      name ∈ Keyed.keys (contribution (t.resolveIn owner (i :: within) b)).1 := by
  by_cases alternative : kind = .allOf
  · subst alternative
    rw [resolveIn_allOf is hi, contribution, keys_mergeBranches]
    exact or_iff_right List.not_mem_nil
  · rw [resolveIn_alternative is alternative hi]
    cases kind with
    | allOf => exact absurd rfl alternative
    | _ => cases bs <;> simp [CompositeKind.followed, contribution, Keyed.keys]

/-- What a value resolves to has the properties whose names it offers. -/
theorem Denotes.keys_resolveIn (sound : t.Sound []) (reflects : t.Reflects g [])
    {v : RawValue g.size} {x : Node g.size} (h : t.Denotes [] v x) {name : String} :
    name ∈ Keyed.keys (contribution (t.resolveIn owner within x)).1 ↔
      ∃ i, v = .obj i ∧ g.Offers within i name := by
  induction unseen : unseenFin within using Nat.strongRecOn generalizing within v x with
  | _ k ih =>
      rcases h.deref sound with ⟨i, y, rfl, found, is⟩ | ⟨leaf, k, rfl⟩
      · have made := reflects i _ found
        generalize hl : Layout.ofObject g i = l at made
        cases made with
        | composite kind denotes =>
            by_cases hi : i ∈ within
            · rw [resolveIn_cut is hi]
              refine iff_of_false List.not_mem_nil ?_
              rintro ⟨_, ⟨⟩, offers⟩
              exact ((RawGraph.offers_composite hl).mp offers).1 hi
            · have smaller := unseenFin_cons_lt hi
              have followed := kind.forall₂_followed denotes
              have each {v : RawValue g.size} {b : Node g.size} (hb : t.Denotes [] v b) :=
                ih _ (unseen ▸ smaller) hb rfl
              rw [keys_resolveIn_composite is hi]
              constructor
              · rintro ⟨b, hb, mem⟩
                obtain ⟨v, hv, hd⟩ := exists_of_forall₂_right followed hb
                exact ⟨i, rfl, (RawGraph.offers_composite hl).mpr ⟨hi, v, hv, (each hd).mp mem⟩⟩
              · rintro ⟨_, ⟨⟩, offers⟩
                obtain ⟨-, v, hv, inside⟩ := (RawGraph.offers_composite hl).mp offers
                obtain ⟨b, hb, hd⟩ := exists_of_forall₂_left followed hv
                exact ⟨b, hb, (each hd).mpr inside⟩
        | object other properties required extra =>
            have names : Keyed.keys _ = Keyed.keys _ :=
              map_eq_of_forall₂ (fun _ _ pair => pair.1) properties
            rw [resolveIn_plain (by simp [is]), is, contribution, ← names]
            constructor
            · exact fun mem => ⟨i, rfl, .here ⟨_, _, _, _, hl, mem⟩⟩
            · rintro ⟨_, ⟨⟩, offers⟩
              obtain ⟨_, _, _, _, object, mem⟩ := (RawGraph.offers_plain (by simp [hl])).mp offers
              cases hl.symm.trans object
              exact mem
        | enumeration | array | scalar =>
            rw [resolveIn_plain (by simp [is]), is]
            refine iff_of_false List.not_mem_nil ?_
            rintro ⟨_, ⟨⟩, offers⟩
            obtain ⟨_, _, _, _, object, -⟩ := (RawGraph.offers_plain (by simp [hl])).mp offers
            cases hl.symm.trans object
      · rw [resolveIn_plain (x := .scalar (.serial k) .null .null) fun _ _ _ is => by cases is]
        refine iff_of_false List.not_mem_nil ?_
        rintro ⟨i, is, -⟩
        exact leaf i is

/-- What a value resolves to is an object that is merged, unless the value settles. -/
theorem Denotes.settles_or_merged (sound : t.Sound []) (reflects : t.Reflects g [])
    {v : RawValue g.size} {x y : Node g.size} (h : t.Denotes [] v x)
    (resolved : t.resolveIn owner within x = some y) :
    g.Settles v ∨ ∃ properties required,
      y = .object (.merged owner) properties required none .null := by
  induction unseen : unseenFin within using Nat.strongRecOn generalizing within v x with
  | _ k ih =>
      rcases h.deref sound with ⟨i, z, rfl, found, is⟩ | ⟨leaf, k, rfl⟩
      · have made := reflects i _ found
        generalize hl : Layout.ofObject g i = l at made
        cases made with
        | composite kind denotes =>
            by_cases hi : i ∈ within
            · rw [resolveIn_cut is hi] at resolved
              exact Or.inr ⟨_, _, (Option.some.inj resolved).symm⟩
            · have smaller := unseenFin_cons_lt hi
              by_cases alternative : kind = .allOf
              · subst alternative
                rw [resolveIn_allOf is hi] at resolved
                exact Or.inr ⟨_, _, (Option.some.inj resolved).symm⟩
              · rw [resolveIn_alternative is alternative hi] at resolved
                cases denotes with
                | nil => cases resolved
                | cons head _ =>
                    exact (ih _ (unseen ▸ smaller) head resolved rfl).imp_left
                      (.first hl alternative)
        | enumeration | array | object | scalar => exact Or.inl (.plain (by simp [hl]))
      · exact Or.inl (.leaf leaf)

/-- Object nodes that are merged for composites, where each has properties of the same names. -/
structure MergedAlike (x y : Node g.size) : Prop where
  merged : ∃ c properties required, x = .object (.merged c) properties required none .null
  merged' : ∃ c properties required, y = .object (.merged c) properties required none .null
  names : ∀ name, name ∈ Keyed.keys (contribution (some x)).1 ↔
    name ∈ Keyed.keys (contribution (some y)).1

theorem Means.settles_or_merged (sound : t.Sound []) (reflects : t.Reflects g [])
    {v : RawValue g.size} {x : Node g.size} (h : t.Means v x) : g.Settles v ∨
      (∃ c properties required, x = .object (.merged c) properties required none .null) ∧
        ∀ name, name ∈ Keyed.keys (contribution (some x)).1 ↔
          ∃ i, v = .obj i ∧ g.Offers [] i name := by
  obtain ⟨z, denotes, resolved⟩ := h
  by_cases composite : ∃ i kind branches, t.deref z = some (.composite i kind branches)
  · obtain ⟨i, kind, branches, is⟩ := composite
    rw [resolve_of_composite is] at resolved
    refine (denotes.settles_or_merged sound reflects resolved).imp_right fun merged => ?_
    refine ⟨⟨i, merged⟩, fun name => ?_⟩
    rw [← resolved]
    exact denotes.keys_resolveIn sound reflects
  · left
    rcases denotes.deref sound with ⟨i, z, rfl, found, is⟩ | ⟨leaf, k, rfl⟩
    · have made := reflects i _ found
      generalize hl : Layout.ofObject g i = l at made
      cases made with
      | composite kind denotes => exact absurd ⟨i, kind, _, is⟩ composite
      | enumeration | array | object | scalar => exact .plain (by simp [hl])
    · exact .leaf leaf

/-- Nodes that values of the same content stand for are alike below, or a composite comes back to
itself and both are objects that are merged, with properties of the same names. -/
theorem Means.level_or_merged (sound : t.Sound []) (reflects : t.Reflects g [])
    {v w : RawValue g.size} {x y : Node g.size} (hx : t.Means v x) (hy : t.Means w y)
    (same : g.Same v w) : x.Level t.Alike y ∨
      (¬ g.Unlooped v ∨ ¬ g.Unlooped w) ∧ MergedAlike x y := by
  by_cases unlooped : g.Unlooped v ∧ g.Unlooped w
  · exact Or.inl (hx.level sound reflects hy same unlooped.1 unlooped.2)
  · have unsettled : ¬ g.Settles v := fun settles =>
      unlooped ⟨settles.unlooped, (settles.same same).unlooped⟩
    have unsettled' : ¬ g.Settles w := fun settles => unsettled (settles.same same.symm)
    obtain ⟨merged, names⟩ := (hx.settles_or_merged sound reflects).resolve_left unsettled
    obtain ⟨merged', names'⟩ := (hy.settles_or_merged sound reflects).resolve_left unsettled'
    refine Or.inr ⟨not_and_or.mp unlooped, merged, merged', fun name => ?_⟩
    rw [names, names']
    have offered {v w : RawValue g.size} (same : g.Same v w)
        (h : ∃ i, v = .obj i ∧ g.Offers [] i name) : ∃ i, w = .obj i ∧ g.Offers [] i name := by
      obtain ⟨i, rfl, offers⟩ := h
      cases id same.level with
      | @obj _ j _ => exact ⟨j, rfl, same.offers offers⟩
    exact ⟨offered same, offered same.symm⟩

end NodeTable

end ResourceGraph
