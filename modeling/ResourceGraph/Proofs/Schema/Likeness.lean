import ResourceGraph.Proofs.Keyed
import ResourceGraph.Proofs.Schema.Resolution
import ResourceGraph.Schema.Equality
import ResourceGraph.Schema.Scalar

/-!
# Equal nodes resolve alike

Two nodes that are equal need not resolve to equal ones: a composite is cut where it comes back to
itself, and equal composites come back at different places. What they resolve to is still of one
kind and stands for one scalar. Alternatives are followed branch by branch, in two equal nodes the
same number of times; if that never ends, both resolve to an object.
-/

namespace ResourceGraph

variable {n : Nat}

/-! ## Similar nodes -/

theorem lookupScalar_congr {v w : Value} (h : v.innerEq w = true)
    (table : List (String × String)) : lookupScalar table v = lookupScalar table w := by
  cases v <;> cases w <;>
    simp_all [Value.innerEq, Value.isNaN, Value.looseEq, Value.numeric?, lookupScalar,
      Value.kindWord]

/-- Equal lists, in one order of comparison. -/
def Value.EqualItems (vs ws : List Value) : Prop :=
  looseEqItems vs ws = true ∨ looseEqItems ws vs = true

theorem Value.EqualItems.empty_iff {vs ws : List Value} (h : EqualItems vs ws) :
    vs = [] ↔ ws = [] := by
  cases vs <;> cases ws <;> simp_all [EqualItems, looseEqItems]

namespace Node

/-- Nodes of one kind that stand for one scalar, and so do their items and first branches. Of
enumerations the values are equal. -/
inductive Similar : Node n → Node n → Prop
  | same (x : Node n) : Similar x x
  | scalar {key key' type type' format format'}
      (mapped : scalarName (some (.scalar key type format : Node n))
        = scalarName (some (.scalar key' type' format' : Node n))) :
      Similar (.scalar key type format) (.scalar key' type' format')
  | enumeration {id id' values values' type type'} (equal : Value.EqualItems values values') :
      Similar (.enumeration id values type) (.enumeration id' values' type')
  | untyped (id id' : Fin n) : Similar (.array id none) (.array id' none)
  | array {id id' items items'} (inside : Similar items items') :
      Similar (.array id (some items)) (.array id' (some items'))
  | childless (id id' : Fin n) (kind : CompositeKind) :
      Similar (.composite id kind []) (.composite id' kind [])
  | composite {id id' kind b b' rest rest'} (first : Similar b b') :
      Similar (.composite id kind (b :: rest)) (.composite id' kind (b' :: rest'))
  | object {key key' properties properties' required required' additional additional' other other'} :
      Similar (.object key properties required additional other)
        (.object key' properties' required' additional' other')

theorem Similar.symm {x y : Node n} (h : Similar x y) : Similar y x := by
  induction h with
  | same x => exact .same x
  | scalar mapped => exact .scalar mapped.symm
  | enumeration equal => exact .enumeration equal.symm
  | untyped id id' => exact .untyped id' id
  | array _ ih => exact .array ih
  | childless id id' kind => exact .childless id' id kind
  | composite _ ih => exact .composite ih
  | object => exact .object

theorem scalarName_congr {key key' : ScalarKey n} {type type' format format' : Value}
    (htype : type.innerEq type' = true) (hformat : format.innerEq format' = true) :
    scalarName (some (.scalar key type format : Node n))
      = scalarName (some (.scalar key' type' format' : Node n)) := by
  simp only [scalarName, lookupScalar_congr htype, lookupScalar_congr hformat]

theorem similar_of_looseEq {x y : Node n} (h : x.looseEq y = true) : Similar x y := by
  cases x with
  | scalar key type format =>
      cases y with
      | scalar key' type' format' =>
          rw [looseEq, Bool.and_eq_true] at h
          exact .scalar (scalarName_congr h.1 h.2)
      | _ => simp [looseEq] at h
  | enumeration id values type =>
      cases y with
      | enumeration id' values' type' =>
          rw [looseEq, Bool.and_eq_true] at h
          exact .enumeration (Or.inl h.1)
      | _ => simp [looseEq] at h
  | array id items =>
      cases y with
      | array id' items' =>
          rw [looseEq] at h
          cases items with
          | none =>
              cases items' with
              | none => exact .untyped id id'
              | some items' => simp [looseEqOption] at h
          | some items =>
              cases items' with
              | none => simp [looseEqOption] at h
              | some items' =>
                  rw [looseEqOption] at h
                  exact .array (similar_of_looseEq h)
      | _ => simp [looseEq] at h
  | composite id kind branches =>
      cases y with
      | composite id' kind' branches' =>
          rw [looseEq, Bool.and_eq_true, decide_eq_true_eq] at h
          obtain ⟨rfl, h⟩ := h
          cases branches with
          | nil =>
              cases branches' with
              | nil => exact .childless id id' kind
              | cons b' rest' => simp [looseEqItems] at h
          | cons b rest =>
              cases branches' with
              | nil => simp [looseEqItems] at h
              | cons b' rest' =>
                  rw [looseEqItems, Bool.and_eq_true] at h
                  exact .composite (similar_of_looseEq h.1)
      | _ => simp [looseEq] at h
  | object _ _ _ _ _ =>
      cases y with
      | object _ _ _ _ _ => exact .object
      | _ => simp [looseEq] at h
  | ref serial target =>
      cases y with
      | ref serial' target' =>
          rw [looseEq, Bool.and_eq_true, beq_iff_eq, beq_iff_eq] at h
          exact h.1 ▸ h.2 ▸ .same _
      | _ => simp [looseEq] at h

/-- The branch that an alternative stands for. -/
def firstBranch? : Node n → Option (Node n)
  | .composite _ .allOf _ => none
  | .composite _ _ (b :: _) => some b
  | _ => none

/-- The node gives the result: itself, an object if its branches are merged, or nothing if it has
none. -/
def Gives : Node n → Option (Node n) → Prop
  | .composite _ .allOf _, result =>
    ∃ key properties required additional other,
      result = some (.object key properties required additional other)
  | .composite _ _ _, result => result = none
  | x, result => result = some x

end Node

/-! ## Chains of first branches -/

namespace NodeTable

variable {t : NodeTable n}

/-- After so many first branches comes a node that is no alternative, or one without branches. -/
inductive Ends (t : NodeTable n) : Nat → Node n → Node n → Prop
  | here {x z : Node n} (is : t.deref x = some z) (last : z.firstBranch? = none) : Ends t 0 x z
  | next {k : Nat} {x y b z : Node n} (is : t.deref x = some y) (branch : y.firstBranch? = some b)
      (after : Ends t k b z) : Ends t (k + 1) x z

theorem Ends.unique {k k' : Nat} {x z z' : Node n} (h : t.Ends k x z) (h' : t.Ends k' x z') :
    k = k' ∧ z = z' := by
  induction h generalizing k' with
  | here is last =>
      cases h' with
      | here is' _ => exact ⟨rfl, Option.some.inj (is.symm.trans is')⟩
      | next is' branch' _ =>
          obtain rfl := Option.some.inj (is.symm.trans is')
          rw [last] at branch'
          cases branch'
  | next is branch _ ih =>
      cases h' with
      | here is' last' =>
          obtain rfl := Option.some.inj (is.symm.trans is')
          rw [branch] at last'
          cases last'
      | next is' branch' after' =>
          obtain rfl := Option.some.inj (is.symm.trans is')
          obtain rfl := Option.some.inj (branch.symm.trans branch')
          obtain ⟨rfl, hz⟩ := ih after'
          exact ⟨rfl, hz⟩

theorem Ends.deref {k : Nat} {x y z : Node n} (h : t.Ends k x z) (hx : t.deref x = some y)
    (hy : t.deref y = some y) : t.Ends k y z := by
  cases h with
  | here is last =>
      obtain rfl := Option.some.inj (hx.symm.trans is)
      exact .here hy last
  | next is branch after =>
      obtain rfl := Option.some.inj (hx.symm.trans is)
      exact .next hy branch after

/-- The chains of similar nodes end in similar nodes. -/
theorem Ends.similar {k : Nat} {x y z : Node n} (hx : t.Ends k x z) (h : x.Similar y) :
    ∃ z', t.Ends k y z' ∧ z.Similar z' := by
  induction hx generalizing y with
  | @here x z is last =>
      cases h with
      | same => exact ⟨z, .here is last, .same z⟩
      | composite first =>
          cases is
          refine ⟨_, .here rfl ?_, .composite first⟩
          rename_i kind _ _ _ _
          cases kind with
          | allOf => rfl
          | _ => cases last
      | childless id id' kind =>
          cases is
          exact ⟨_, .here rfl (by cases kind <;> rfl), .childless ..⟩
      | scalar mapped => cases is; exact ⟨_, .here rfl rfl, .scalar mapped⟩
      | enumeration equal => cases is; exact ⟨_, .here rfl rfl, .enumeration equal⟩
      | untyped => cases is; exact ⟨_, .here rfl rfl, .untyped ..⟩
      | array inside => cases is; exact ⟨_, .here rfl rfl, .array inside⟩
      | object => cases is; exact ⟨_, .here rfl rfl, .object⟩
  | @next k x x' b z is branch after ih =>
      cases h with
      | same => exact ⟨z, .next is branch after, .same z⟩
      | composite first =>
          cases is
          rename_i kind _ _ _ _
          cases kind with
          | allOf => cases branch
          | _ =>
              cases branch
              obtain ⟨z', ends, similar⟩ := ih first
              exact ⟨z', .next rfl rfl ends, similar⟩
      | childless id id' kind => cases is; cases kind <;> cases branch
      | _ => cases is; cases branch

/-- A chain that ends does not come back: what it ends in is what the node gives. -/
theorem Ends.resolveIn (ht : t.Sound []) {owner : Fin n} {within : List (Fin n)} {k : Nat}
    {x z : Node n} (h : t.Ends k x z) (hx : x.All (t.Knows []))
    (before : ∀ id ∈ within, ∀ y, t.find? id = some y → ∃ k' z', k < k' ∧ t.Ends k' y z') :
    z.Gives (t.resolveIn owner within x) := by
  -- a composite met before has a longer chain, but each node has only one
  have unmet {k : Nat} {x z : Node n} {id : Fin n} {kind : CompositeKind}
      {branches : List (Node n)} {within : List (Fin n)} (h : t.Ends k x z)
      (hx : x.All (t.Knows [])) (is : t.deref x = some (.composite id kind branches))
      (before : ∀ id ∈ within, ∀ y, t.find? id = some y → ∃ k' z', k < k' ∧ t.Ends k' y z') :
      id ∉ within := by
    intro hid
    obtain ⟨k', z', hk, ends⟩ := before id hid _ ((deref_known ht hx is).1.self.1 id rfl)
    obtain ⟨rfl, -⟩ := ends.unique (h.deref is rfl)
    omega
  induction h generalizing within with
  | @here x z is last =>
      rw [NodeTable.resolveIn, is]
      cases z with
      | composite id kind branches =>
          have hid := unmet (.here is last) hx is before
          simp only [hid, dite_false]
          cases kind with
          | allOf => exact ⟨_, _, _, _, _, rfl⟩
          | _ =>
              cases branches with
              | nil => rfl
              | cons b rest => cases last
      | _ => rfl
  | @next k x y b z is branch after ih =>
      rw [NodeTable.resolveIn, is]
      cases y with
      | composite id kind branches =>
          have chain : t.Ends (k + 1) x z := .next is branch after
          have hid := unmet chain hx is before
          have known := (deref_known ht hx is).1
          have inner : ∀ id' ∈ id :: within, ∀ y, t.find? id' = some y →
              ∃ k' z', k < k' ∧ t.Ends k' y z' := by
            refine List.forall_mem_cons.mpr ⟨fun y hy => ?_, fun id' hid' y hy => ?_⟩
            · obtain rfl := Option.some.inj ((known.self.1 id rfl).symm.trans hy)
              exact ⟨k + 1, z, Nat.lt_succ_self k, chain.deref is rfl⟩
            · obtain ⟨k', z', hk, ends⟩ := before id' hid' y hy
              exact ⟨k', z', Nat.lt_of_succ_lt hk, ends⟩
          simp only [hid, dite_false]
          cases kind with
          | allOf => cases branch
          | _ =>
              cases branches with
              | nil => cases branch
              | cons first rest =>
                  cases branch
                  exact ih (known.branch _ (List.mem_cons_self ..)) inner
      | _ => cases branch

theorem deref_of_known {x : Node n} (hx : t.Knows [] x) : ∃ y, t.deref x = some y := by
  cases x with
  | ref serial target =>
      obtain hx | hx := hx
      · cases hx
      · exact hx
  | _ => exact ⟨_, rfl⟩

/-- A chain that never ends comes back to a composite, which counts as an object. -/
theorem resolveIn_endless (ht : t.Sound []) {owner : Fin n} {within : List (Fin n)} {x : Node n}
    (hx : x.All (t.Knows [])) (endless : ∀ k z, ¬ t.Ends k x z) :
    ∃ key properties required additional other,
      t.resolveIn owner within x = some (.object key properties required additional other) := by
  obtain ⟨y, is⟩ := deref_of_known hx.self
  obtain ⟨b, branch⟩ : ∃ b, y.firstBranch? = some b := by
    cases hb : y.firstBranch? with
    | none => exact absurd (.here is hb) (endless 0 y)
    | some b => exact ⟨b, rfl⟩
  rw [resolveIn, is]
  cases y with
  | composite id kind branches =>
      dsimp only
      split
      · exact ⟨_, _, _, _, _, rfl⟩
      · rename_i hid
        have := unseenFin_cons_lt hid
        cases kind with
        | allOf => cases branch
        | _ =>
            cases branches with
            | nil => cases branch
            | cons first rest =>
                cases branch
                have known := (deref_known ht hx is).1.branch _ (List.mem_cons_self ..)
                exact resolveIn_endless ht known
                  fun k z after => endless (k + 1) z (.next is rfl after)
  | _ => cases branch
termination_by unseenFin within

theorem resolve_eq_resolveIn {x : Node n} {id : Fin n} {kind : CompositeKind}
    {branches : List (Node n)} (is : t.deref x = some (.composite id kind branches)) :
    t.resolve x = t.resolveIn id [] (.composite id kind branches) := by
  rw [resolve, is]

theorem Ends.resolve (ht : t.Sound []) {k : Nat} {x z : Node n} (h : t.Ends k x z)
    (hx : x.All (t.Knows [])) : z.Gives (t.resolve x) := by
  obtain ⟨y, is⟩ := deref_of_known hx.self
  cases y with
  | composite id kind branches =>
      rw [resolve_eq_resolveIn is]
      exact (h.deref is rfl).resolveIn ht (deref_known ht hx is).1 (by simp)
  | _ =>
      rw [NodeTable.resolve, is]
      obtain ⟨-, rfl⟩ := h.unique (.here is rfl)
      rfl

theorem resolve_endless (ht : t.Sound []) {x : Node n} (hx : x.All (t.Knows []))
    (endless : ∀ k z, ¬ t.Ends k x z) : ∃ key properties required additional other,
      t.resolve x = some (.object key properties required additional other) := by
  obtain ⟨y, is⟩ := deref_of_known hx.self
  cases y with
  | composite id kind branches =>
      rw [resolve_eq_resolveIn is]
      refine resolveIn_endless ht (deref_known ht hx is).1 fun k z h => ?_
      cases h with
      | here is' last => exact endless 0 z (.here (is.trans is') last)
      | next is' branch after => exact endless _ z (.next (is.trans is') branch after)
  | _ => exact absurd (.here is rfl) (endless 0 _)

theorem gives_composite {id id' : Fin n} {kind : CompositeKind} {branches branches' : List (Node n)}
    {result result' : Option (Node n)} (hz : (Node.composite id kind branches).Gives result)
    (hz' : (Node.composite id' kind branches').Gives result') :
    Option.Rel Node.Similar result result' := by
  cases kind with
  | allOf =>
      obtain ⟨_, _, _, _, _, rfl⟩ := hz
      obtain ⟨_, _, _, _, _, rfl⟩ := hz'
      exact .some .object
  | _ => cases hz; cases hz'; exact .none

theorem gives_similar {z z' : Node n} (h : z.Similar z') {result result' : Option (Node n)}
    (hz : z.Gives result) (hz' : z'.Gives result') : Option.Rel Node.Similar result result' := by
  cases h with
  | same =>
      cases z with
      | composite id kind branches => exact gives_composite hz hz'
      | _ => cases hz; cases hz'; exact .some (.same _)
  | childless => exact gives_composite hz hz'
  | composite => exact gives_composite hz hz'
  | scalar mapped => cases hz; cases hz'; exact .some (.scalar mapped)
  | enumeration equal => cases hz; cases hz'; exact .some (.enumeration equal)
  | untyped => cases hz; cases hz'; exact .some (.untyped ..)
  | array inside => cases hz; cases hz'; exact .some (.array inside)
  | object => cases hz; cases hz'; exact .some .object

/-- Similar nodes resolve to similar nodes, or both to nothing. -/
theorem resolve_similar (ht : t.Sound []) {x y : Node n} (hx : x.All (t.Knows []))
    (hy : y.All (t.Knows [])) (h : x.Similar y) :
    Option.Rel Node.Similar (t.resolve x) (t.resolve y) := by
  -- either both chains end, at similar nodes, or neither does
  by_cases hends : ∃ k z, t.Ends k x z
  · obtain ⟨k, z, ends⟩ := hends
    obtain ⟨z', ends', similar⟩ := ends.similar h
    exact gives_similar similar (ends.resolve ht hx) (ends'.resolve ht hy)
  · have endless : ∀ k z, ¬ t.Ends k x z := fun k z ends => hends ⟨k, z, ends⟩
    have endless' : ∀ k z, ¬ t.Ends k y z := fun k z ends =>
      let ⟨_, ends', _⟩ := ends.similar h.symm
      endless k _ ends'
    obtain ⟨_, _, _, _, _, hx⟩ := resolve_endless ht hx endless
    obtain ⟨_, _, _, _, _, hy⟩ := resolve_endless ht hy endless'
    rw [hx, hy]
    exact .some .object

theorem isArray_similar (ht : t.Sound []) {x y : Node n} (hx : x.All (t.Knows []))
    (hy : y.All (t.Knows [])) (h : x.Similar y) : t.isArray x = t.isArray y := by
  have results := resolve_similar ht hx hy h
  unfold isArray
  generalize t.resolve x = rx at results
  generalize t.resolve y = ry at results
  cases results with
  | none => rfl
  | some similar => cases similar <;> rfl

theorem element_similar (ht : t.Sound []) {x y : Node n} (hx : x.All (t.Knows []))
    (hy : y.All (t.Knows [])) (h : x.Similar y) :
    Option.Rel Node.Similar (t.element x) (t.element y) := by
  have results := resolve_similar ht hx hy h
  unfold element
  generalize hrx : t.resolve x = rx at results
  generalize hry : t.resolve y = ry at results
  cases results with
  | none => exact .none
  | @some z _ similar =>
      cases similar with
      | same =>
          cases z with
          | array id items =>
              cases items with
              | none => exact .none
              | some items =>
                  have known := (resolve_settled ht hx hrx).items
                  exact resolve_similar ht known known (.same items)
          | _ => exact .some (.same _)
      | untyped => exact .none
      | array inside =>
          have known := (resolve_settled ht hx hrx).items
          have known' := (resolve_settled ht hy hry).items
          exact resolve_similar ht known known' inside
      | scalar mapped => exact .some (.scalar mapped)
      | enumeration equal => exact .some (.enumeration equal)
      | childless => exact .some (.childless ..)
      | composite first => exact .some (.composite first)
      | object => exact .some .object

end NodeTable

/-! ## Nodes that are the same -/

namespace NodeTable

variable {t : NodeTable n}

/-- The node of an identity: that of a raw object, or what a composite resolves to. -/
def nodeOf? (t : NodeTable n) : Node.Identity n → Option (Node n)
  | .source i => t.find? i
  | .merged composite => (t.find? composite).bind t.resolve
  | .serial _ => none

theorem nodeOf?_of_known {x : Node n} (hx : t.Knows [] x)
    (rooted : ∀ k, x.identity ≠ .serial k) : t.nodeOf? x.identity = some x := by
  cases x with
  | scalar key type format =>
      cases key with
      | parsed i => exact hx.1 i rfl
      | serial k => exact absurd rfl (rooted k)
  | enumeration id values type => exact hx.1 id rfl
  | array id items => exact hx.1 id rfl
  | composite id kind branches => exact hx.1 id rfl
  | object key properties required additional other =>
      cases key with
      | parsed i => exact hx.1 i rfl
      | merged composite => exact hx.2.2.elim
  | ref serial target => exact absurd rfl (rooted serial)

/-- A node that comes from the source is the node of its identity. -/
theorem Yields.nodeOf? (ht : t.Sound []) {x : Node n} (h : t.Yields x)
    (rooted : ∀ k, x.identity ≠ .serial k) : t.nodeOf? x.identity = some x := by
  obtain ⟨z, hz, hx⟩ := h
  obtain ⟨y, is⟩ := deref_of_known hz.self
  have known := (deref_known ht hz is).1
  cases y with
  | composite id kind branches =>
      have resolved := resolve_eq_resolveIn is ▸ hx
      rcases (closed_known ht).resolveIn known resolved with hx | ⟨properties, required, rfl, -⟩
      · exact nodeOf?_of_known hx.self rooted
      · have stored : t.find? id = some (.composite id kind branches) := known.self.1 id rfl
        show (t.find? id).bind t.resolve = _
        rw [stored, Option.bind_some, resolve_eq_resolveIn rfl, resolved]
  | _ =>
      rw [resolve, is] at hx
      cases hx
      exact nodeOf?_of_known known.self rooted

theorem Yields.eq_of_identity (ht : t.Sound []) {x y : Node n} (hx : t.Yields x)
    (hy : t.Yields y) (rooted : ∀ k, x.identity ≠ .serial k) (h : x.identity = y.identity) :
    x = y :=
  Option.some.inj ((hx.nodeOf? ht rooted).symm.trans (h ▸ hy.nodeOf? ht (h ▸ rooted)))

end NodeTable

/-! ## Equal objects -/

/-- The properties have the same names, and those of one name are similar. -/
structure Matching (properties properties' : List (String × Node n)) : Prop where
  keys : ∀ k, k ∈ Keyed.keys properties ↔ k ∈ Keyed.keys properties'
  similar : ∀ p ∈ properties, ∀ q ∈ properties', p.1 = q.1 → p.2.Similar q.2

theorem Matching.symm {ps qs : List (String × Node n)} (h : Matching ps qs) : Matching qs ps :=
  ⟨fun k => (h.keys k).symm, fun q hq p hp he => (h.similar p hp q hq he.symm).symm⟩

/-- A property has a similar one of its name on the other side. -/
theorem Matching.exists_similar {ps qs : List (String × Node n)} (h : Matching ps qs)
    {q : String × Node n} (hq : q ∈ qs) : ∃ p ∈ ps, p.1 = q.1 ∧ p.2.Similar q.2 := by
  obtain ⟨p, hp, named⟩ := List.mem_map.mp ((h.keys q.1).mpr (List.mem_map_of_mem hq))
  exact ⟨p, hp, named, h.similar p hp q hq named⟩

theorem Matching.refl {ps : List (String × Node n)} (h : (Keyed.keys ps).Nodup) :
    Matching ps ps := by
  refine ⟨fun _ => Iff.rfl, fun p hp q hq he => ?_⟩
  obtain rfl := List.inj_on_of_nodup_map h hp hq he
  exact .same p.2

theorem Node.looseEqMembers_iff {ps qs : List (String × Node n)} :
    Node.looseEqMembers ps qs = true ↔
      ∀ p ∈ ps, ∃ y, Keyed.find? p.1 qs = some y ∧ p.2.looseEq y = true := by
  induction ps with
  | nil => simp [looseEqMembers]
  | cons p ps ih =>
      obtain ⟨k, x⟩ := p
      rw [looseEqMembers, List.forall_mem_cons, ← ih]
      cases Keyed.find? k qs with
      | none => simp
      | some y => simp

/-- Properties that agree up to equality match. -/
theorem matching_of_agree {ps qs : List (String × Node n)} (hps : (Keyed.keys ps).Nodup)
    (hqs : (Keyed.keys qs).Nodup)
    (h : Keyed.Agree (fun x y : Node n => x.looseEq y = true) ps qs) : Matching ps qs := by
  refine ⟨h.mem_keys, fun p hp q hq he => ?_⟩
  obtain ⟨y, hy, loose⟩ := h.of_find? (Keyed.find?_of_mem hps hp)
  have hq := Keyed.find?_of_mem hqs hq
  rw [← he, hy] at hq
  cases hq
  exact Node.similar_of_looseEq loose

/-- What two nodes share if a name that was claimed with the first is accepted for the second. -/
inductive Node.Matched : Node n → Node n → Prop
  | enumeration {id id' values values' type type'} (empty : values = [] ↔ values' = []) :
      Matched (.enumeration id values type) (.enumeration id' values' type')
  | object {key key' properties properties' required additional additional' other other'}
      (members : Matching properties properties') :
      Matched (.object key properties required additional other)
        (.object key' properties' required additional' other')

theorem Node.Definable.rooted {x : Node n} (h : x.Definable) (k : Nat) :
    x.identity ≠ .serial k := by
  cases x with
  | enumeration id values type => nofun
  | object key properties required additional other => cases key <;> nofun
  | _ => exact h.elim

theorem Node.matched_of_same {t : NodeTable n} (ht : t.Sound []) {x y : Node n}
    (hx : t.Yields x) (hy : t.Yields y) (definable : y.Definable)
    (h : x.sameOrEqual y = true) : x.Matched y := by
  rw [sameOrEqual, Bool.or_eq_true, decide_eq_true_eq] at h
  rcases h with identity | loose
  · obtain rfl := hy.eq_of_identity ht hx definable.rooted identity.symm
    cases y with
    | enumeration id values type => exact .enumeration Iff.rfl
    | object key properties required additional other =>
        exact .object (.refl (hy.settled ht).distinct)
    | _ => exact definable.elim
  · have similar := similar_of_looseEq loose
    cases y with
    | enumeration id values type =>
        cases similar with
        | same => exact .enumeration Iff.rfl
        | enumeration equal => exact .enumeration equal.empty_iff
    | object key properties required additional other =>
        cases x with
        | object key' properties' required' additional' other' =>
            simp only [looseEq, Bool.and_eq_true, beq_iff_eq] at loose
            obtain ⟨⟨⟨⟨length, members⟩, rfl⟩, -⟩, -⟩ := loose
            have hps := (hx.settled ht).distinct
            have hqs := (hy.settled ht).distinct
            apply Matched.object
            apply matching_of_agree hps hqs
            exact (Keyed.agree_iff hps hqs).mpr ⟨length, looseEqMembers_iff.mp members⟩
        | _ => cases similar
    | _ => exact definable.elim

end ResourceGraph
