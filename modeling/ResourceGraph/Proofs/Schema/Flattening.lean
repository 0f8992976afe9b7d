import ResourceGraph.Proofs.Api.Parts
import ResourceGraph.Proofs.Schema.Bounded
import ResourceGraph.Proofs.Schema.Sketch

/-!
# Composites flatten

Resolution ends on every node that has been read, with a concrete node. A composite that does not
come back to itself means no more than its branches mean: its first alternative, or the properties
of its branches one after the other. So the branches of an `allOf` inside another may stand in its
place, and an alternative may stand for the composite wherever that occurs.
-/

namespace ResourceGraph

variable {n : Nat}

/-- The branches that resolution goes into. -/
def CompositeKind.followed {α : Type} : CompositeKind → List α → List α
  | .allOf, branches => branches
  | _, branches => branches.take 1

/-- The same node, or objects of one content that were made for two composites. -/
inductive Node.Copy (c c' : Fin n) : Node n → Node n → Prop
  | same (x : Node n) : Copy c c' x x
  | merged (properties required additional other) :
      Copy c c' (.object (.merged c) properties required additional other)
        (.object (.merged c') properties required additional other)

theorem Node.Copy.eq {c : Fin n} {x y : Option (Node n)} (h : Option.Rel (Node.Copy c c) x y) :
    x = y := by
  cases h with
  | none => rfl
  | some same => cases same <;> rfl

namespace NodeTable

variable (t : NodeTable n)

/-- Resolution of a node comes to a composite. -/
inductive Meets : Node n → Fin n → Prop
  | here {x i kind branches} (is : t.deref x = some (.composite i kind branches)) : Meets x i
  | through {x i kind branches b j} (is : t.deref x = some (.composite i kind branches))
      (mem : b ∈ kind.followed branches) (after : Meets b j) : Meets x j

/-- The node is no composite that contains itself. -/
def Unlooped (x : Node n) : Prop :=
  ∀ i kind branches, t.deref x = some (.composite i kind branches) →
    ∀ b ∈ kind.followed branches, ¬ t.Meets b i

variable {t} {owner owner' : Fin n} {within within' : List (Fin n)} {x b : Node n} {i j : Fin n}
  {kind : CompositeKind} {branches : List (Node n)}

theorem meets_composite (is : t.deref x = some (.composite i kind branches)) :
    t.Meets x j ↔ j = i ∨ ∃ b ∈ kind.followed branches, t.Meets b j := by
  constructor
  · rintro (⟨is'⟩ | ⟨is', mem, after⟩)
    · cases is.symm.trans is'
      exact Or.inl rfl
    · cases is.symm.trans is'
      exact Or.inr ⟨_, mem, after⟩
  · rintro (rfl | ⟨b, mem, after⟩)
    · exact .here is
    · exact .through is mem after

theorem not_meets (plain : ∀ i kind branches, t.deref x ≠ some (.composite i kind branches)) :
    ¬ t.Meets x j := by
  rintro (⟨is⟩ | ⟨is, -, -⟩) <;> exact plain _ _ _ is

/-! ## One step of resolution -/

theorem resolveIn_deref {y : Node n} (h : t.deref x = t.deref y) :
    t.resolveIn owner within x = t.resolveIn owner within y := by
  rw [resolveIn, resolveIn, h]

theorem resolveIn_plain (h : ∀ i kind branches, t.deref x ≠ some (.composite i kind branches)) :
    t.resolveIn owner within x = t.deref x := by
  rw [resolveIn]
  split
  · rename_i is
    exact absurd is (h _ _ _)
  · rfl

theorem resolveIn_cut (is : t.deref x = some (.composite i kind branches)) (hi : i ∈ within) :
    t.resolveIn owner within x = some (.emptyObject (.merged owner)) := by
  rw [resolveIn, is]
  simp only [hi, dite_true]

theorem resolveIn_allOf (is : t.deref x = some (.composite i .allOf branches)) (hi : i ∉ within) :
    t.resolveIn owner within x = some (.object (.merged owner)
      (t.mergeBranches owner (i :: within) branches ([], [])).1
      (t.mergeBranches owner (i :: within) branches ([], [])).2 none .null) := by
  rw [resolveIn, is]
  simp only [hi, dite_false]

theorem resolveIn_alternative (is : t.deref x = some (.composite i kind branches))
    (alternative : kind ≠ .allOf) (hi : i ∉ within) :
    t.resolveIn owner within x = branches.head?.bind (t.resolveIn owner (i :: within)) := by
  rw [resolveIn, is]
  simp only [hi, dite_false]
  cases kind with
  | allOf => exact absurd rfl alternative
  | _ => cases branches <;> rfl

theorem mem_followed_of_head? (alternative : kind ≠ .allOf) (h : branches.head? = some b) :
    b ∈ kind.followed branches := by
  obtain ⟨rest, rfl⟩ := List.head?_eq_some_iff.mp h
  cases kind with
  | allOf => exact absurd rfl alternative
  | _ => exact List.mem_cons_self ..

/-! ## Contributions -/

/-- The properties and required names that a resolved branch adds to those before it. -/
def contribution : Option (Node n) → List (String × Node n) × List String
  | some (.object _ properties required _ _) => (properties, required)
  | _ => ([], [])

theorem mergeBranch_eq (acc : List (String × Node n) × List String) (x : Option (Node n)) :
    mergeBranch acc x
      = (Keyed.update acc.1 (contribution x).1, acc.2 ++ (contribution x).2) := by
  rcases x with _ | x
  · exact Prod.ext rfl (List.append_nil _).symm
  · cases x with
    | object key properties required additional other => rfl
    | _ => exact Prod.ext rfl (List.append_nil _).symm

theorem contribution_copy {c c' : Fin n} {x y : Option (Node n)}
    (h : Option.Rel (Node.Copy c c') x y) : contribution x = contribution y := by
  cases h with
  | none => rfl
  | some same => cases same <;> rfl

variable (t) in
/-- The properties of the branches that are objects, one branch after the other. -/
def propertiesOf (branches : List (Node n)) : List (String × Node n) :=
  branches.flatMap fun b => (contribution (t.resolve b)).1

variable (t) in
/-- The required names of the branches that are objects, one branch after the other. -/
def requiredOf (branches : List (Node n)) : List String :=
  branches.flatMap fun b => (contribution (t.resolve b)).2

theorem propertiesOf_cons (b : Node n) (rest : List (Node n)) : t.propertiesOf (b :: rest)
    = (contribution (t.resolve b)).1 ++ t.propertiesOf rest := List.flatMap_cons

theorem requiredOf_cons (b : Node n) (rest : List (Node n)) : t.requiredOf (b :: rest)
    = (contribution (t.resolve b)).2 ++ t.requiredOf rest := List.flatMap_cons

theorem propertiesOf_append (bs cs : List (Node n)) :
    t.propertiesOf (bs ++ cs) = t.propertiesOf bs ++ t.propertiesOf cs := List.flatMap_append

theorem requiredOf_append (bs cs : List (Node n)) :
    t.requiredOf (bs ++ cs) = t.requiredOf bs ++ t.requiredOf cs := List.flatMap_append

/-! ## What a node stands in does not matter -/

mutual

/-- Of the composites around a node those count that its resolution comes to. -/
theorem resolveIn_congr {owner owner' : Fin n} {within within' : List (Fin n)} {x : Node n}
    (h : ∀ i, t.Meets x i → (i ∈ within ↔ i ∈ within')) :
    Option.Rel (Node.Copy owner owner') (t.resolveIn owner within x)
      (t.resolveIn owner' within' x) := by
  by_cases composite : ∃ i kind branches, t.deref x = some (.composite i kind branches)
  · obtain ⟨i, kind, branches, is⟩ := composite
    by_cases hi : i ∈ within
    · rw [resolveIn_cut is hi, resolveIn_cut is ((h i (.here is)).mp hi)]
      exact .some (.merged ..)
    · have hi' : i ∉ within' := mt (h i (.here is)).mpr hi
      have := unseenFin_cons_lt hi
      have inside : ∀ b ∈ kind.followed branches, ∀ j, t.Meets b j →
          (j ∈ i :: within ↔ j ∈ i :: within') := by
        intro b hb j after
        rw [List.mem_cons, List.mem_cons, h j (.through is hb after)]
      by_cases alternative : kind = .allOf
      · subst alternative
        have same : t.mergeBranches owner (i :: within) branches ([], [])
            = t.mergeBranches owner' (i :: within') branches ([], []) := mergeBranches_congr inside
        rw [resolveIn_allOf is hi, resolveIn_allOf is hi', same]
        exact .some (.merged ..)
      · rw [resolveIn_alternative is alternative hi, resolveIn_alternative is alternative hi']
        cases first : branches.head? with
        | none => exact .none
        | some b => exact resolveIn_congr (inside b (mem_followed_of_head? alternative first))
  · have plain : ∀ i kind branches, t.deref x ≠ some (.composite i kind branches) :=
      fun i kind branches is => composite ⟨i, kind, branches, is⟩
    rw [resolveIn_plain plain, resolveIn_plain plain]
    cases t.deref x with
    | none => exact .none
    | some y => exact .some (.same y)
termination_by (unseenFin within, 0)
decreasing_by all_goals decreasing_with omega

theorem mergeBranches_congr {owner owner' : Fin n} {within within' : List (Fin n)}
    {branches : List (Node n)} {acc : List (String × Node n) × List String}
    (h : ∀ b ∈ branches, ∀ i, t.Meets b i → (i ∈ within ↔ i ∈ within')) :
    t.mergeBranches owner within branches acc = t.mergeBranches owner' within' branches acc := by
  cases branches with
  | nil => rw [mergeBranches, mergeBranches]
  | cons b rest =>
      have first : Option.Rel (Node.Copy owner owner') (t.resolveIn owner within b)
          (t.resolveIn owner' within' b) := resolveIn_congr (h b (List.mem_cons_self ..))
      rw [mergeBranches, mergeBranches, mergeBranch_eq, mergeBranch_eq, contribution_copy first]
      exact mergeBranches_congr fun c hc => h c (List.mem_cons_of_mem b hc)
termination_by (unseenFin within, 1 + branches.length)
decreasing_by all_goals decreasing_with subst_vars; simp +arith

end

theorem resolve_of_composite (is : t.deref x = some (.composite i kind branches)) :
    t.resolve x = t.resolveIn i [] x :=
  (resolve_eq_resolveIn is).trans (resolveIn_deref is.symm)

/-- Among composites that its resolution does not come to, a node resolves as it does alone. -/
theorem resolveIn_copy (h : ∀ i, t.Meets x i → i ∉ within) :
    ∃ c, Option.Rel (Node.Copy owner c) (t.resolveIn owner within x) (t.resolve x) := by
  by_cases composite : ∃ i kind branches, t.deref x = some (.composite i kind branches)
  · obtain ⟨i, kind, branches, is⟩ := composite
    refine ⟨i, ?_⟩
    rw [resolve_of_composite is]
    exact resolveIn_congr fun j hj => iff_of_false (h j hj) List.not_mem_nil
  · have plain : ∀ i kind branches, t.deref x ≠ some (.composite i kind branches) :=
      fun i kind branches is => composite ⟨i, kind, branches, is⟩
    refine ⟨owner, ?_⟩
    rw [resolveIn_plain plain, resolve]
    split
    · rename_i is
      exact absurd is (plain _ _ _)
    · cases t.deref x with
      | none => exact .none
      | some y => exact .some (.same y)

theorem mergeBranches_eq (h : ∀ b ∈ branches, ∀ i, t.Meets b i → i ∉ within)
    (acc : List (String × Node n) × List String) :
    t.mergeBranches owner within branches acc
      = (Keyed.update acc.1 (t.propertiesOf branches), acc.2 ++ t.requiredOf branches) := by
  induction branches generalizing acc with
  | nil =>
      rw [mergeBranches]
      exact Prod.ext rfl (List.append_nil _).symm
  | cons b rest ih =>
      obtain ⟨hb, hrest⟩ := List.forall_mem_cons.mp h
      obtain ⟨c, copy⟩ : ∃ c, Option.Rel (Node.Copy owner c) (t.resolveIn owner within b)
          (t.resolve b) := resolveIn_copy hb
      rw [mergeBranches, mergeBranch_eq, contribution_copy copy, ih hrest, propertiesOf_cons,
        requiredOf_cons, Keyed.update_append, List.append_assoc]

/-! ## Composites that do not contain themselves -/

/-- An `allOf` is one object: the properties of its branches read in order, and their required
names. -/
theorem resolve_allOf (is : t.deref x = some (.composite i .allOf branches))
    (unlooped : t.Unlooped x) : t.resolve x = some (.object (.merged i)
      (Keyed.ofPairs (t.propertiesOf branches)) (t.requiredOf branches) none .null) := by
  have apart : ∀ b ∈ branches, ∀ j, t.Meets b j → j ∉ [i] := by
    intro b hb j hj hi
    obtain rfl := List.mem_singleton.mp hi
    exact unlooped j .allOf branches is b hb hj
  rw [resolve_of_composite is, resolveIn_allOf is List.not_mem_nil, mergeBranches_eq apart]
  rfl

/-- An alternative stands for the composite among other composites too. -/
theorem resolveIn_first (is : t.deref x = some (.composite i kind (b :: branches)))
    (alternative : kind ≠ .allOf) (unlooped : t.Unlooped x) (hi : i ∉ within) :
    t.resolveIn owner within x = t.resolveIn owner within b := by
  have followed : b ∈ kind.followed (b :: branches) := mem_followed_of_head? alternative rfl
  rw [resolveIn_alternative is alternative hi]
  refine Node.Copy.eq (resolveIn_congr fun j hj => ?_)
  have hne : j ≠ i := fun he => unlooped i kind _ is b followed (he ▸ hj)
  exact List.mem_cons.trans (or_iff_right hne)

/-- An alternative means what the composite means. -/
theorem resolve_first (is : t.deref x = some (.composite i kind (b :: branches)))
    (alternative : kind ≠ .allOf) (unlooped : t.Unlooped x) :
    ∃ c, Option.Rel (Node.Copy i c) (t.resolve x) (t.resolve b) := by
  rw [resolve_of_composite is, resolveIn_first is alternative unlooped List.not_mem_nil]
  exact resolveIn_copy fun _ _ => List.not_mem_nil

/-- In a list of branches an alternative may stand in the place of its composite. -/
theorem resolve_replace {o : Fin n} {k : CompositeKind} {pre post : List (Node n)}
    (is : t.deref x = some (.composite i kind (b :: branches))) (alternative : kind ≠ .allOf)
    (unlooped : t.Unlooped x) (outer : t.Unlooped (.composite o k (pre ++ x :: post))) :
    t.resolve (.composite o k (pre ++ x :: post)) = t.resolve (.composite o k (pre ++ b :: post)) := by
  have followed : b ∈ kind.followed (b :: branches) := mem_followed_of_head? alternative rfl
  by_cases merging : k = .allOf
  · subst merging
    have outer' : t.Unlooped (.composite o .allOf (pre ++ b :: post)) := by
      rintro _ _ _ ⟨⟩ c hc met
      rcases List.mem_append.mp hc with hc | hc
      · exact outer _ _ _ rfl c (List.mem_append_left _ hc) met
      · rcases List.mem_cons.mp hc with rfl | hc
        · exact outer _ _ _ rfl x (List.mem_append_right _ (List.mem_cons_self ..))
            (.through is followed met)
        · exact outer _ _ _ rfl c (List.mem_append_right _ (List.mem_cons_of_mem _ hc)) met
    obtain ⟨c, copy⟩ := resolve_first is alternative unlooped
    have same := contribution_copy copy
    rw [resolve_allOf rfl outer, resolve_allOf rfl outer', propertiesOf_append, propertiesOf_append,
      propertiesOf_cons, propertiesOf_cons, requiredOf_append, requiredOf_append, requiredOf_cons,
      requiredOf_cons, same]
  · rw [resolve_of_composite rfl, resolve_of_composite rfl,
      resolveIn_alternative rfl merging List.not_mem_nil,
      resolveIn_alternative rfl merging List.not_mem_nil]
    cases pre with
    | nil =>
        have apart : i ∉ [o] := by
          intro hi
          obtain rfl := List.mem_singleton.mp hi
          exact outer i k (x :: post) rfl x (mem_followed_of_head? merging rfl) (.here is)
        exact resolveIn_first is alternative unlooped apart
    | cons p pre => rfl

/-- The branches of an `allOf` inside another may stand in its place. -/
theorem resolve_splice {pre inner post : List (Node n)} {c : Fin n}
    (is : t.deref x = some (.composite i .allOf (pre ++ b :: post)))
    (nested : t.deref b = some (.composite j .allOf inner)) (unlooped : t.Unlooped x)
    (unlooped' : t.Unlooped b) (spliced : t.Unlooped (.composite c .allOf (pre ++ inner ++ post))) :
    ∃ properties required, t.resolve x = some (.object (.merged i) properties required none .null) ∧
      t.resolve (.composite c .allOf (pre ++ inner ++ post))
        = some (.object (.merged c) properties required none .null) := by
  refine ⟨_, _, resolve_allOf is unlooped, ?_⟩
  have flat : Keyed.ofPairs (t.propertiesOf (pre ++ b :: post))
      = Keyed.ofPairs (t.propertiesOf (pre ++ inner ++ post)) := by
    rw [propertiesOf_append, propertiesOf_append, propertiesOf_append, propertiesOf_cons,
      resolve_allOf nested unlooped', ← List.append_assoc]
    show Keyed.update [] (_ ++ Keyed.ofPairs (t.propertiesOf inner) ++ _) = Keyed.update [] _
    rw [Keyed.update_append, Keyed.update_append, Keyed.update_ofPairs, ← Keyed.update_append,
      ← Keyed.update_append, List.append_assoc]
  have required : t.requiredOf (pre ++ b :: post) = t.requiredOf (pre ++ inner ++ post) := by
    rw [requiredOf_append, requiredOf_append, requiredOf_append, requiredOf_cons,
      resolve_allOf nested unlooped', ← List.append_assoc]
    rfl
  rw [flat, required, resolve_allOf rfl spliced]

theorem keys_ofPairs {α : Type} (ps : List (String × α)) :
    Keyed.keys (Keyed.ofPairs ps) = firstsBy id (Keyed.keys ps) := by
  have keys_update (es : Keyed.Entries α) :
      Keyed.keys (Keyed.update es ps) = (Keyed.keys ps).foldl (appendNew id) (Keyed.keys es) := by
    induction ps generalizing es with
    | nil => rfl
    | cons p rest ih =>
        show Keyed.keys (Keyed.update (Keyed.insert p.1 p.2 es) rest)
          = (Keyed.keys rest).foldl (appendNew id) (appendNew id (Keyed.keys es) p.1)
        have inserted : Keyed.keys (Keyed.insert p.1 p.2 es)
            = appendNew id (Keyed.keys es) p.1 := by
          simp [Keyed.keys_insert, appendNew]
        rw [ih, inserted]
  exact (keys_update []).trans (foldl_appendNew_nil _)

/-- What composites mean that do not contain themselves. -/
structure Flattens (t : NodeTable n) : Prop where
  /-- The branches of an `allOf` inside another may stand in its place: the same properties in the
  same order and the same required names come out. -/
  splice : ∀ {x b : Node n} {i j : Fin n} {pre inner post : List (Node n)},
    t.deref x = some (.composite i .allOf (pre ++ b :: post)) →
    t.deref b = some (.composite j .allOf inner) → t.Unlooped x → t.Unlooped b →
    ∀ c, t.Unlooped (.composite c .allOf (pre ++ inner ++ post)) → ∃ properties required,
      t.resolve x = some (.object (.merged i) properties required none .null) ∧
        t.resolve (.composite c .allOf (pre ++ inner ++ post))
          = some (.object (.merged c) properties required none .null)
  /-- Where there are alternatives the first one may stand, alone and in a list of branches. -/
  first : ∀ {x b : Node n} {i : Fin n} {kind : CompositeKind} {branches : List (Node n)},
    t.deref x = some (.composite i kind (b :: branches)) → kind ≠ .allOf → t.Unlooped x →
      (∃ c, Option.Rel (Node.Copy i c) (t.resolve x) (t.resolve b)) ∧
      ∀ o k pre post, t.Unlooped (.composite o k (pre ++ x :: post)) →
        t.resolve (.composite o k (pre ++ x :: post))
          = t.resolve (.composite o k (pre ++ b :: post))
  /-- An `allOf` is an object with each property of the branches once, in the place of the first of
  its name and with the node of the last. -/
  merge : ∀ {x : Node n} {i : Fin n} {branches : List (Node n)},
    t.deref x = some (.composite i .allOf branches) → t.Unlooped x → ∃ properties,
      t.resolve x = some (.object (.merged i) properties (t.requiredOf branches) none .null) ∧
      (Keyed.keys properties).Nodup ∧
      Keyed.keys properties = firstsBy id (Keyed.keys (t.propertiesOf branches)) ∧
      ∀ k, Keyed.find? k properties = Keyed.find? k (t.propertiesOf branches).reverse

theorem flattens (t : NodeTable n) : t.Flattens where
  splice is nested unlooped unlooped' _ spliced :=
    resolve_splice is nested unlooped unlooped' spliced
  first is alternative unlooped := ⟨resolve_first is alternative unlooped, fun _ _ _ _ outer =>
    resolve_replace is alternative unlooped outer⟩
  merge is unlooped := ⟨_, resolve_allOf is unlooped, Keyed.nodup_keys_ofPairs _, keys_ofPairs _,
    Keyed.find?_ofPairs _⟩

/-! ## Nodes that have been read -/

/-- A node of the graph that some nodes span: one of them, one inside, or one referred to. -/
inductive Reached (t : NodeTable n) (roots : List (Node n)) : Node n → Prop
  | root {x : Node n} (mem : x ∈ roots) : Reached t roots x
  | inside {x y : Node n} (above : Reached t roots x) (mem : y ∈ x.children) : Reached t roots y
  | target {x y : Node n} (ref : Reached t roots x) (is : t.deref x = some y) : Reached t roots y

theorem Reached.known (ht : t.Sound []) {roots : List (Node n)}
    (known : ∀ x ∈ roots, x.All (t.Knows [])) (h : t.Reached roots x) : x.All (t.Knows []) := by
  induction h with
  | root mem => exact known _ mem
  | inside _ mem ih => exact (closed_known ht).inside ih mem
  | target _ is ih => exact (closed_known ht).deref ih is

end NodeTable

namespace Layout

variable {g : RawGraph} {i : Fin g.size} {kind : CompositeKind}

theorem plainOf_ne_composite {branches : List (RawValue g.size)} :
    plainOf g i ≠ .composite kind branches := by
  unfold plainOf objectOf
  dsimp only
  split
  · simp
  · split
    · split <;> simp
    · split
      · split <;> simp
      · simp

/-- Only an `allOf` has no branch. -/
theorem ofObject_branchless (h : ofObject g i = .composite kind []) : kind = .allOf := by
  unfold ofObject at h
  split at h
  · cases h
    rfl
  · split at h
    · rename_i some_branches
      cases h
      unfold alternatives? at some_branches
      split at some_branches
      · cases some_branches
      · split at some_branches <;> cases some_branches
    · exact absurd h plainOf_ne_composite

end Layout

namespace NodeTable

variable {g : RawGraph} {t : NodeTable g.size}

/-- Alternatives that have been read have a branch. -/
theorem Reflects.branchless (reflects : t.Reflects g []) {i : Fin g.size} {kind : CompositeKind}
    (found : t.find? i = some (.composite i kind [])) : kind = .allOf := by
  have makes := reflects i _ found
  generalize hl : Layout.ofObject g i = layout at makes
  cases makes with
  | composite _ denotes =>
      obtain rfl := List.forall₂_nil_right_iff.mp denotes
      exact Layout.ofObject_branchless hl

theorem resolveIn_exists (sound : t.Sound []) (reflects : t.Reflects g []) {owner : Fin g.size}
    {within : List (Fin g.size)} {x : Node g.size} (known : x.All (t.Knows [])) :
    ∃ y, t.resolveIn owner within x = some y := by
  obtain ⟨z, is⟩ := deref_of_known known.self
  cases z with
  | composite i kind branches =>
      have inner := (deref_known sound known is).1
      by_cases hi : i ∈ within
      · exact ⟨_, resolveIn_cut is hi⟩
      · have := unseenFin_cons_lt hi
        by_cases merging : kind = .allOf
        · subst merging
          exact ⟨_, resolveIn_allOf is hi⟩
        · rw [resolveIn_alternative is merging hi]
          cases branches with
          | nil => exact absurd (reflects.branchless (inner.self.1 i rfl)) merging
          | cons b rest =>
              exact resolveIn_exists sound reflects (inner.branch b (List.mem_cons_self ..))
  | _ =>
      rw [resolveIn_plain (by rw [is]; nofun)]
      exact ⟨_, is⟩
termination_by unseenFin within

/-- A node that has been read resolves to a concrete node, within a limit that the table tells. -/
theorem resolve_exists (sound : t.Sound []) (reflects : t.Reflects g []) {x : Node g.size}
    (known : x.All (t.Knows [])) :
    t.resolveTo t.composites.length x = some (t.resolve x) ∧
      ∃ y, t.resolve x = some y ∧ y.IsConcrete ∧ t.resolve y = some y := by
  refine ⟨resolveTo_eq sound known, ?_⟩
  obtain ⟨y, hy⟩ : ∃ y, t.resolve x = some y := by
    obtain ⟨z, is⟩ := deref_of_known known.self
    cases z with
    | composite i kind branches =>
        rw [resolve_of_composite is]
        exact resolveIn_exists sound reflects known
    | _ => exact ⟨_, by rw [resolve, is]⟩
  have concrete := (resolve_settled sound known hy).concrete
  exact ⟨y, hy, concrete, resolve_of_concrete concrete⟩

end NodeTable

namespace Parsing

/-- After any readings with one table, resolution ends on every node of the graph that was read,
with a concrete node which resolves to itself, and the composites that do not contain themselves
flatten. -/
theorem readings_flatten {g : RawGraph} {raws : List (RawValue g.size)} {nodes : List (Node g.size)}
    {t : NodeTable g.size} (h : outcome (raws.mapM (parse g [])) .empty = (.ok nodes, t)) :
    (∀ x, t.Reached nodes x → t.resolveTo t.composites.length x = some (t.resolve x) ∧
      ∃ y, t.resolve x = some y ∧ y.IsConcrete ∧ t.resolve y = some y) ∧ t.Flattens := by
  obtain ⟨grown, reflects, settled⟩ := readings_ensures raws .empty nodes t
    (NodeTable.sound_empty []) (NodeTable.reflects_empty []) h
  refine ⟨fun x hx => ?_, t.flattens⟩
  apply NodeTable.resolve_exists grown.sound reflects
  refine hx.known grown.sound fun y hy => ?_
  obtain ⟨raw, -, read⟩ := exists_of_forall₂_right settled hy
  exact read.known

end Parsing

/-- Persons with friends, merged from a part and another composite. -/
abbrev RawGraph.befriended : RawGraph where
  size := 7
  objects := #v[
    [("allOf", .arr [.obj 1, .obj 2])],
    [("properties", .obj 3), ("required", .arr [.str "name"])],
    [("allOf", .arr [.obj 4, .obj 1])],
    [("name", .obj 5), ("friend", .obj 0)],
    [("anyOf", .arr [.obj 6, .obj 5])],
    [("type", .str "string")],
    [("type", .str "object"), ("required", .str "id")]]
  nodup := by decide

namespace RawGraph.befriended

abbrev part : Node 7 :=
  .object (.parsed 1) [("name", .scalar (.parsed 5) (.str "string") .null), ("friend", .ref 0 0)]
    ["name"] none .null

abbrev identified : Node 7 := .object (.parsed 6) [] ["i", "d"] none .null

abbrev choice : Node 7 :=
  .composite 4 .anyOf [identified, .scalar (.parsed 5) (.str "string") .null]

abbrev person : Node 7 := .composite 0 .allOf [part, .composite 2 .allOf [choice, part]]

theorem read : ∃ t, Parsing.outcome
    ([.obj 0].mapM (Parsing.parse RawGraph.befriended [])) .empty = (.ok [person], t) := by
  refine ⟨_, Prod.ext ?_ rfl⟩
  rw [Parsing.parse_eq_upTo (unseenFin_nil_le _)]
  decide +kernel

theorem unlooped (t : NodeTable 7) :
    t.Unlooped person ∧ t.Unlooped (.composite 2 .allOf [choice, part]) ∧ t.Unlooped choice ∧
      t.Unlooped (.composite 0 .allOf [part, choice, part]) := by
  have part_meets (j : Fin 7) : ¬ t.Meets part j := NodeTable.not_meets nofun
  have identified_meets (j : Fin 7) : ¬ t.Meets identified j := NodeTable.not_meets nofun
  have choice_meets (j : Fin 7) : t.Meets choice j ↔ j = 4 := by
    simp [NodeTable.meets_composite (t := t) (x := choice) rfl, CompositeKind.followed,
      identified_meets]
  have inner_meets (j : Fin 7) :
      t.Meets (.composite 2 .allOf [choice, part]) j ↔ j = 2 ∨ j = 4 := by
    simp [NodeTable.meets_composite (t := t) (x := .composite 2 .allOf [choice, part]) rfl,
      CompositeKind.followed, choice_meets, part_meets]
  refine ⟨?_, ?_, ?_, ?_⟩ <;> rintro i kind branches ⟨⟩ b hb
  · rcases hb with _ | ⟨_, _ | ⟨_, ⟨⟩⟩⟩ <;> simp [part_meets, inner_meets]
  · rcases hb with _ | ⟨_, _ | ⟨_, ⟨⟩⟩⟩ <;> simp [part_meets, choice_meets]
  · rcases hb with _ | ⟨_, ⟨⟩⟩
    exact identified_meets _
  · rcases hb with _ | ⟨_, _ | ⟨_, _ | ⟨_, ⟨⟩⟩⟩⟩ <;> simp [part_meets, choice_meets]

end RawGraph.befriended

open RawGraph.befriended in
theorem befriended_flatten : ∃ t properties, Parsing.outcome
    ([.obj 0].mapM (Parsing.parse RawGraph.befriended [])) .empty = (.ok [person], t) ∧
    t.resolveTo t.composites.length person = some (t.resolve person) ∧
    t.resolve person = some (.object (.merged 0) properties ["name", "i", "d", "name"] none .null) ∧
    t.resolve (.composite 0 .allOf [part, choice, part])
      = some (.object (.merged 0) properties ["name", "i", "d", "name"] none .null) ∧
    t.resolve (.composite 0 .allOf [part, identified, part])
      = some (.object (.merged 0) properties ["name", "i", "d", "name"] none .null) ∧
    Keyed.keys properties = ["name", "friend"] := by
  obtain ⟨t, run⟩ := read
  obtain ⟨ends, flattens⟩ := Parsing.readings_flatten run
  obtain ⟨outer, nested, alternatives, flat⟩ := RawGraph.befriended.unlooped t
  have plain : t.Unlooped (.composite 0 .allOf [part, identified, part]) := by
    rintro i kind branches ⟨⟩ b hb
    rcases hb with _ | ⟨_, _ | ⟨_, _ | ⟨_, ⟨⟩⟩⟩⟩ <;> exact NodeTable.not_meets (by simp [NodeTable.deref])
  have is : t.deref person
      = some (.composite 0 .allOf ([part] ++ .composite 2 .allOf [choice, part] :: [])) := rfl
  obtain ⟨properties, required, resolved, spliced⟩ :=
    flattens.splice is rfl outer nested 0 flat
  have replaced := (flattens.first (x := choice) rfl (by decide) alternatives).2 0 .allOf [part] [part] flat
  obtain ⟨merged, is_merged, -, keys, -⟩ :=
    flattens.merge (x := .composite 0 .allOf [part, identified, part]) rfl plain
  obtain ⟨-, rfl, rfl, -⟩ := Node.object.inj (Option.some.inj
    (spliced.symm.trans (replaced.trans is_merged)))
  refine ⟨t, properties, run, (ends person (.root (List.mem_singleton_self _))).1, resolved, spliced,
    is_merged, keys.trans ?_⟩
  show firstsBy id ["name", "friend", "name", "friend"] = _
  decide

end ResourceGraph
