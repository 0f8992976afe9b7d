import ResourceGraph.Proofs.Schema.Flattening
import ResourceGraph.Proofs.Schema.Likeness

/-!
# What branches require

An `allOf` whose branches are plain objects resolves to one object, also where it is the first
alternative of other composites. The object has the properties of all branches, but it requires only
what is required by a branch that is read as an object: one of that type or with properties.
-/

namespace ResourceGraph

namespace RawGraph

variable (g : RawGraph)

/-- The name is in the list of required names. -/
def Requires (j : Fin g.size) (p : String) : Prop :=
  ∃ names, g.get j "required" = .arr names ∧ .str p ∈ names

/-- It is read as an object, if no other keyword counts: by its type or for its properties. -/
def isObject (j : Fin g.size) : Bool :=
  (Layout.typeOf g j).isWord "object" || Keyed.hasKey "properties" (g.members j)

/-- No composition and no enumeration, no type but `object`, and required names that are texts. -/
structure IsPlain (j : Fin g.size) : Prop where
  keywords : ∀ k ∈ ["allOf", "anyOf", "oneOf", "enum"], g.get j k = .null
  type : Layout.typeOf g j = .null ∨ Layout.typeOf g j = .str "object"
  required : g.get j "required" = .null ∨
    ∃ names : List String, g.get j "required" = .arr (names.map .str)

/-- The branches of an `allOf`, which are plain objects. -/
structure Merges (i : Fin g.size) (js : List (Fin g.size)) : Prop where
  branches : g.get i "allOf" = .arr (js.map .obj)
  plain : ∀ j ∈ js, g.IsPlain j

/-- The property names of branches, one branch after the other. -/
def propertyNames (js : List (Fin g.size)) : List String :=
  js.flatMap fun j => Keyed.keys (Layout.propertiesOf g j)

end RawGraph

variable {g : RawGraph} {i j : Fin g.size}

/-! ## One branch -/

theorem RawGraph.plain_unfoldItems (i : Fin g.size) (key : String) (index : Nat)
    (names : List String) :
    (g.unfoldItems i key index (names.map .str)).map Value.plain = names := by
  induction names generalizing index with
  | nil => rfl
  | cons name rest ih => exact congrArg (List.cons name) (ih (index + 1))

namespace RawGraph.IsPlain

theorem requiredOf (h : g.IsPlain j) : ∃ names, Layout.requiredOf g j = .ok names ∧
    ∀ p, p ∈ names ↔ g.Requires j p := by
  rcases h.required with absent | ⟨names, listed⟩
  · refine ⟨[], by rw [Layout.requiredOf, absent]; rfl, fun p => ?_⟩
    refine iff_of_false List.not_mem_nil ?_
    rintro ⟨_, listed, -⟩
    cases absent.symm.trans listed
  · have texts := plain_unfoldItems j "required" 0 names
    refine ⟨names, ?_, fun p => ⟨fun hp => ⟨_, listed, List.mem_map_of_mem hp⟩, ?_⟩⟩
    · rw [Layout.requiredOf, listed]
      cases names with
      | nil => rfl
      | cons name rest => exact congrArg Except.ok texts
    · rintro ⟨_, listed', hp⟩
      cases listed.symm.trans listed'
      obtain ⟨name, hn, ⟨⟩⟩ := List.mem_map.mp hp
      exact hn

theorem layout (h : g.IsPlain j) : Layout.ofObject g j
    = if g.isObject j then Layout.objectOf g j
      else .scalar (g.unfold (Layout.typeOf g j)) (g.unfold (g.get j "format")) := by
  have none (k : String) (hk : k ∈ ["allOf", "anyOf", "oneOf", "enum"]) := h.keywords k hk
  have array : (Layout.typeOf g j).isWord "array" = false := by
    rcases h.type with type | type <;> rw [type] <;> rfl
  rw [Layout.ofObject, none "allOf" (by simp)]
  dsimp only
  rw [Layout.alternatives?, none "anyOf" (by simp), none "oneOf" (by simp)]
  dsimp only
  rw [Layout.plainOf, none "enum" (by simp)]
  dsimp only
  rw [array]
  rfl

end RawGraph.IsPlain

theorem RawGraph.propertiesOf_eq_nil (h : g.isObject j = false) : Layout.propertiesOf g j = [] := by
  have absent : Keyed.hasKey "properties" (g.members j) = false := (Bool.or_eq_false_iff.mp h).2
  have none : Keyed.find? "properties" (g.members j) = none := by
    by_contra found
    obtain ⟨v, hv⟩ := Option.ne_none_iff_exists'.mp found
    rw [Keyed.hasKey_iff.mpr (Keyed.mem_keys_of_find? hv)] at absent
    cases absent
  rw [Layout.propertiesOf, get, none]
  rfl

theorem Layout.objectOf_eq (g : RawGraph) (j : Fin g.size) : ∃ additional other,
    objectOf g j = .object (propertiesOf g j) (requiredOf g j) additional other := by
  unfold objectOf
  split <;> exact ⟨_, _, rfl⟩

namespace NodeTable

variable {t : NodeTable g.size} {x b : Node g.size} {js : List (Fin g.size)}
  {branches : List (Node g.size)}

/-- What a plain branch adds: its properties, and its required names if it is an object. -/
structure Adds (t : NodeTable g.size) (j : Fin g.size) (b : Node g.size) : Prop where
  plain : ∀ i kind branches, t.deref b ≠ some (.composite i kind branches)
  properties : Keyed.keys (contribution (t.resolve b)).1 = Keyed.keys (Layout.propertiesOf g j)
  required : ∀ p, p ∈ (contribution (t.resolve b)).2 ↔ g.isObject j = true ∧ g.Requires j p

theorem Denotes.adds (sound : t.Sound []) (reflects : t.Reflects g [])
    (h : t.Denotes [] (.obj j) b) (plain : g.IsPlain j) : t.Adds j b := by
  rcases h.deref sound with ⟨_, w, ⟨⟩, found, is⟩ | ⟨leaf, -⟩
  · have resolved (concrete : ∀ i kind branches, w ≠ .composite i kind branches) :
        t.resolve b = some w := by
      rw [resolve, is]
      cases w with
      | composite i kind branches => exact absurd rfl (concrete i kind branches)
      | _ => rfl
    have made := reflects j w found
    rw [plain.layout] at made
    by_cases object : g.isObject j = true
    · obtain ⟨additional, other, layout⟩ := Layout.objectOf_eq g j
      obtain ⟨names, required, listed⟩ := plain.requiredOf
      rw [if_pos object, layout, required] at made
      cases made with
      | object other members hreq extra =>
          cases hreq
          refine ⟨fun i kind branches composite => ?_, ?_, fun p => ?_⟩
          · cases is.symm.trans composite
          · rw [resolved (by simp)]
            exact (map_eq_of_forall₂ (fun _ _ same => same.1) members).symm
          · rw [resolved (by simp)]
            exact (listed p).trans (and_iff_right object).symm
    · rw [if_neg object] at made
      cases made with
      | scalar =>
          refine ⟨fun i kind branches composite => ?_, ?_, fun p => ?_⟩
          · cases is.symm.trans composite
          · rw [resolved (by simp), RawGraph.propertiesOf_eq_nil (Bool.eq_false_iff.mpr object)]
            rfl
          · rw [resolved (by simp)]
            exact iff_of_false List.not_mem_nil fun requires => object requires.1
  · exact (leaf j rfl).elim

/-! ## All branches -/

theorem keys_propertiesOf (h : List.Forall₂ t.Adds js branches) :
    Keyed.keys (t.propertiesOf branches) = g.propertyNames js := by
  induction h with
  | nil => rfl
  | @cons j b js branches first _ ih =>
      have keys : Keyed.keys (t.propertiesOf (b :: branches))
          = Keyed.keys (contribution (t.resolve b)).1 ++ Keyed.keys (t.propertiesOf branches) := by
        rw [propertiesOf_cons]
        exact List.map_append
      rw [keys, first.properties, ih]
      rfl

theorem mem_requiredOf (h : List.Forall₂ t.Adds js branches) (p : String) :
    p ∈ t.requiredOf branches ↔ ∃ j ∈ js, g.isObject j = true ∧ g.Requires j p := by
  induction h with
  | nil => simp [requiredOf]
  | cons first _ ih =>
      rw [requiredOf_cons, List.mem_append, first.required, ih]
      simp

/-! ## Where a chain of first branches ends -/

section Chains

variable {n : Nat} {t : NodeTable n} {x z : Node n} {i j : Fin n} {k : Nat}
  {branches : List (Node n)}

theorem exists_of_firstBranch? {y b : Node n} (h : y.firstBranch? = some b) :
    ∃ c kind rest, y = .composite c kind (b :: rest) ∧ kind ≠ .allOf ∧
      CompositeKind.followed kind (b :: rest) = [b] := by
  cases y with
  | composite c kind branches =>
      cases kind with
      | allOf => cases h
      | _ =>
          cases branches with
          | nil => cases h
          | cons first rest =>
              cases h
              exact ⟨c, _, rest, rfl, by decide, rfl⟩
  | _ => cases h

theorem Ends.known (sound : t.Sound []) (h : t.Ends k x z) (known : x.All (t.Knows [])) :
    z.All (t.Knows []) := by
  induction h with
  | here is _ => exact (deref_known sound known is).1
  | next is branch _ ih =>
      obtain ⟨c, kind, rest, rfl, -, -⟩ := exists_of_firstBranch? branch
      exact ih ((deref_known sound known is).1.branch _ (List.mem_cons_self ..))

/-- On the way to merged branches that are no composites, resolution meets only composites that are
on the way. -/
theorem Ends.meets (sound : t.Sound []) (h : t.Ends k x z) (known : x.All (t.Knows []))
    (plain : ∀ i kind branches, z = .composite i kind branches →
      ∀ b ∈ kind.followed branches, ¬ t.Meets b j) (met : t.Meets x j) :
    ∃ y k', t.find? j = some y ∧ k' ≤ k ∧ t.Ends k' y z := by
  induction h with
  | here is last =>
      cases met with
      | here is' =>
          cases is.symm.trans is'
          exact ⟨_, 0, (deref_known sound known is).1.self.1 j rfl, Nat.le_refl _, .here rfl last⟩
      | through is' mem after =>
          cases is.symm.trans is'
          exact absurd after (plain _ _ _ rfl _ mem)
  | @next k x y b z is branch after ih =>
      obtain ⟨c, kind, rest, rfl, -, followed⟩ := exists_of_firstBranch? branch
      have inside := (deref_known sound known is).1
      rcases (meets_composite is).mp met with rfl | ⟨b', mem, met⟩
      · exact ⟨_, k + 1, inside.self.1 _ rfl, Nat.le_refl _, .next rfl branch after⟩
      · rw [followed] at mem
        obtain rfl := List.mem_singleton.mp mem
        obtain ⟨y, k', found, le, ends⟩ := ih (inside.branch _ (List.mem_cons_self ..)) plain met
        exact ⟨y, k', found, Nat.le_succ_of_le le, ends⟩

/-- Branches that are no composites are merged to one object at the end of a chain too. -/
theorem Ends.resolve_allOf (sound : t.Sound []) (h : t.Ends k x (.composite i .allOf branches))
    (known : x.All (t.Knows []))
    (plain : ∀ b ∈ branches, ∀ i kind inner, t.deref b ≠ some (.composite i kind inner)) :
    ∃ c, t.resolve x = some (.object (.merged c) (Keyed.ofPairs (t.propertiesOf branches))
      (t.requiredOf branches) none .null) := by
  generalize hz : Node.composite i .allOf branches = z at h
  have unmet : ∀ j i kind branches, z = .composite i kind branches →
      ∀ b ∈ kind.followed branches, ¬ t.Meets b j := by
    rintro j _ _ _ rfl b hb
    cases hz
    exact not_meets (plain b hb)
  induction h with
  | here is _ =>
      subst hz
      refine ⟨i, NodeTable.resolve_allOf is fun _ _ _ is' b hb => ?_⟩
      cases is.symm.trans is'
      exact unmet _ _ _ _ rfl b hb
  | @next k x y b z is branch after ih =>
      obtain ⟨c, kind, rest, rfl, alternative, followed⟩ := exists_of_firstBranch? branch
      have inside := (deref_known sound known is).1
      have known' := inside.branch b (List.mem_cons_self ..)
      -- a composite that came back to itself would be at two distances from the end
      have unlooped : t.Unlooped x := by
        intro _ _ _ is' b' mem met
        cases is.symm.trans is'
        rw [followed] at mem
        obtain rfl := List.mem_singleton.mp mem
        obtain ⟨y, k', found, le, ends⟩ := after.meets sound known' (unmet c) met
        obtain rfl := Option.some.inj ((inside.self.1 c rfl).symm.trans found)
        have := (ends.unique (.next rfl branch after)).1
        omega
      obtain ⟨c', copy⟩ := resolve_first is alternative unlooped
      obtain ⟨c'', resolved⟩ := ih known' hz unmet
      rw [resolved] at copy
      generalize t.resolve x = result at copy
      cases copy with
      | some same => cases same <;> exact ⟨_, rfl⟩

end Chains

/-- At the end of a chain of first branches, an `allOf` of plain objects is one object that has
their properties and requires what is required by those that are read as objects. -/
theorem resolve_merges {t : NodeTable g.size} (sound : t.Sound []) (reflects : t.Reflects g [])
    {x : Node g.size} (known : x.All (t.Knows [])) {i : Fin g.size} {js : List (Fin g.size)}
    (merges : g.Merges i js) {k : Nat} {branches : List (Node g.size)}
    (ends : t.Ends k x (.composite i .allOf branches)) :
    ∃ c properties required,
      t.resolve x = some (.object (.merged c) properties required none .null) ∧
      Keyed.keys properties = firstsBy id (g.propertyNames js) ∧
      ∀ p, p ∈ required ↔ ∃ j ∈ js, g.isObject j = true ∧ g.Requires j p := by
  have made := reflects i _ ((ends.known sound known).self.1 i rfl)
  rw [Layout.ofObject, merges.branches] at made
  have adds : List.Forall₂ t.Adds js branches := by
    cases made with
    | composite kind denotes =>
        have denotes := List.forall₂_map_left_iff.mp denotes
        exact ((List.forall₂_and_left _ _).mpr ⟨merges.plain, denotes⟩).imp
          fun j b h => h.2.adds sound reflects h.1
  obtain ⟨c, resolved⟩ := ends.resolve_allOf sound known fun b hb => by
    obtain ⟨_, _, adds⟩ := exists_of_forall₂_right adds hb
    exact adds.plain
  refine ⟨c, _, _, resolved, ?_, mem_requiredOf adds⟩
  rw [keys_ofPairs, keys_propertiesOf adds]

end NodeTable

end ResourceGraph
