import Mathlib.Data.List.Forall2
import ResourceGraph.Proofs.Schema.Reading
import ResourceGraph.Schema.Paths

/-!
# Nodes without cycles

A grounded node is known to its table and has no references inside. What it resolves to is made of
smaller nodes, so no composite is met inside itself, and the shape of the result is a matter of the
shape of the node.
-/

namespace ResourceGraph

variable {n m : Nat}

namespace Node

theorem sizeOf_child_lt {x y : Node n} (h : y ∈ x.children) : sizeOf y < sizeOf x := by
  cases x with
  | array id items =>
      cases items with
      | none => cases h
      | some items =>
          obtain rfl := List.mem_singleton.mp h
          simp only [array.sizeOf_spec, Option.some.sizeOf_spec]
          omega
  | composite id kind branches =>
      have mem : y ∈ branches := h
      have := List.sizeOf_lt_of_mem mem
      simp only [composite.sizeOf_spec]
      omega
  | object key properties required additional other =>
      simp only [object.sizeOf_spec]
      rcases List.mem_append.mp h with h | h
      · obtain ⟨p, hp, rfl⟩ := List.mem_map.mp h
        have := List.sizeOf_lt_of_mem hp
        cases p
        simp only [Prod.mk.sizeOf_spec] at this ⊢
        omega
      · obtain rfl : additional = some y := Option.mem_toList.mp h
        simp only [Option.some.sizeOf_spec]
        omega
  | _ => cases h

mutual

/-- What a shape resolves to. -/
def collapse : Node 1 → Option (Node 1)
  | .composite _ .allOf branches =>
    let (properties, required) := collapseAll branches ([], [])
    some (.object (.parsed 0) properties required none .null)
  | .composite _ _ branches => collapseFirst branches
  | x => some x

def collapseFirst : List (Node 1) → Option (Node 1)
  | [] => none
  | b :: _ => collapse b

def collapseAll : List (Node 1) → List (String × Node 1) × List String →
    List (String × Node 1) × List String
  | [], acc => acc
  | b :: bs, acc => collapseAll bs (NodeTable.mergeBranch acc (collapse b))

end

end Node

namespace NodeTable

variable {t : NodeTable n}

/-! ## Resolution stays inside -/

/-- A node of the table without references inside. -/
def Grounded (t : NodeTable n) (x : Node n) : Prop := x.All fun y => t.Knows [] y ∧ y.IsPlain

theorem Grounded.known {x : Node n} (h : t.Grounded x) : x.All (t.Knows []) :=
  h.mono fun _ hy => hy.1

theorem Grounded.plain {x : Node n} (h : t.Grounded x) : x.All Node.IsPlain :=
  h.mono fun _ hy => hy.2

theorem Grounded.deref {x : Node n} (h : t.Grounded x) : t.deref x = some x := by
  cases x with
  | ref serial target => exact absurd trivial h.self.2.1
  | _ => rfl

theorem Grounded.child {x : Node n} (h : t.Grounded x) :
    ∀ y ∈ x.children, t.Grounded y ∧ sizeOf y < sizeOf x :=
  fun y hy => ⟨h.inside y hy, Node.sizeOf_child_lt hy⟩

/-- What is inside the result is smaller than what was resolved, and so is the result unless it is
itself or made of branches. -/
structure Within (t : NodeTable n) (owner : Fin n) (z x : Node n) : Prop where
  inside : ∀ y ∈ x.children, t.Grounded y ∧ sizeOf y < sizeOf z
  origin : (t.Grounded x ∧ sizeOf x ≤ sizeOf z) ∨
    ∃ properties required, x = .object (.merged owner) properties required none .null

/-- Grounded properties below a size. -/
def Below (t : NodeTable n) (bound : Nat) (properties : List (String × Node n)) : Prop :=
  ∀ p ∈ properties, t.Grounded p.2 ∧ sizeOf p.2 < bound

theorem Below.mergeBranch {bound : Nat} {acc : List (String × Node n) × List String}
    (hacc : t.Below bound acc.1) {x : Option (Node n)}
    (hx : ∀ y, x = some y → ∀ c ∈ y.children, t.Grounded c ∧ sizeOf c < bound) :
    t.Below bound (mergeBranch acc x).1 := by
  unfold NodeTable.mergeBranch
  split
  · rename_i key properties required additional other
    intro p hp
    rcases Keyed.mem_of_mem_update hp with hp | hp
    · exact hacc p hp
    · exact hx _ rfl p.2 (List.mem_append_left _ (List.mem_map_of_mem hp))
  · exact hacc

mutual

theorem resolveIn_within {owner : Fin n} {within : List (Fin n)} {z x : Node n}
    (hz : t.Grounded z) (h : t.resolveIn owner within z = some x) : t.Within owner z x := by
  rw [resolveIn, hz.deref] at h
  cases z with
  | composite id kind branches =>
      have hb : ∀ b ∈ branches, t.Grounded b ∧ sizeOf b < sizeOf (Node.composite id kind branches) :=
        hz.child
      dsimp only at h
      split at h
      · cases h
        exact ⟨by simp [Node.emptyObject, Node.children], Or.inr ⟨[], [], rfl⟩⟩
      · rename_i hid
        have := unseenFin_cons_lt hid
        cases kind with
        | allOf =>
            cases h
            refine ⟨fun y hy => ?_, Or.inr ⟨_, _, rfl⟩⟩
            have below : t.Below (sizeOf (Node.composite id .allOf branches))
                (t.mergeBranches owner (id :: within) branches ([], [])).1 :=
              mergeBranches_below (fun b hm => ⟨(hb b hm).1, Nat.le_of_lt (hb b hm).2⟩)
                (by simp [Below])
            obtain ⟨p, hp, rfl⟩ : ∃ p ∈ (t.mergeBranches owner (id :: within) branches ([], [])).1,
                p.2 = y := by simpa [Node.children] using hy
            exact below p hp
        | _ =>
            cases branches with
            | nil => cases h
            | cons b rest =>
                obtain ⟨grounded, smaller⟩ := hb b (List.mem_cons_self ..)
                have inner := resolveIn_within grounded h
                refine ⟨fun y hy => ?_, inner.origin.imp_left fun ⟨hx, le⟩ => ⟨hx, ?_⟩⟩
                · obtain ⟨hy, lt⟩ := inner.inside y hy
                  exact ⟨hy, Nat.lt_trans lt smaller⟩
                · exact Nat.le_trans le (Nat.le_of_lt smaller)
  | _ =>
      cases h
      exact ⟨hz.child, Or.inl ⟨hz, Nat.le_refl _⟩⟩
termination_by (unseenFin within, 0)
decreasing_by all_goals decreasing_with omega

theorem mergeBranches_below {owner : Fin n} {within : List (Fin n)} {bound : Nat}
    {branches : List (Node n)} {acc : List (String × Node n) × List String}
    (hb : ∀ b ∈ branches, t.Grounded b ∧ sizeOf b ≤ bound) (hacc : t.Below bound acc.1) :
    t.Below bound (t.mergeBranches owner within branches acc).1 := by
  cases branches with
  | nil =>
      rw [mergeBranches]
      exact hacc
  | cons b bs =>
      obtain ⟨⟨grounded, le⟩, hbs⟩ := List.forall_mem_cons.mp hb
      rw [mergeBranches]
      refine mergeBranches_below hbs (hacc.mergeBranch fun y hy c hc => ?_)
      obtain ⟨hc, lt⟩ := (resolveIn_within grounded hy).inside c hc
      exact ⟨hc, Nat.lt_of_lt_of_le lt le⟩
termination_by (unseenFin within, 1 + branches.length)
decreasing_by all_goals decreasing_with subst_vars; simp +arith

end

theorem resolve_within {z x : Node n} (hz : t.Grounded z) (h : t.resolve z = some x) :
    (∃ id kind branches, z = .composite id kind branches ∧ t.Within id z x) ∨ x = z := by
  rw [resolve, hz.deref] at h
  cases z with
  | composite id kind branches => exact Or.inl ⟨id, kind, branches, rfl, resolveIn_within hz h⟩
  | _ =>
      cases h
      exact Or.inr rfl

theorem resolve_plain {z x : Node n} (hz : t.Grounded z) (h : t.resolve z = some x) :
    x.All Node.IsPlain := by
  rcases resolve_within hz h with ⟨id, kind, branches, -, within⟩ | rfl
  · rcases within.origin with ⟨hx, -⟩ | ⟨properties, required, rfl⟩
    · exact hx.plain
    · exact .intro ⟨fun h => h, .null⟩ fun y hy => (within.inside y hy).1.plain
  · exact hz.plain

/-! ## Sizes -/

/-- The size of the node that an object was made from. -/
noncomputable def sizeAt (t : NodeTable n) : ObjectKey n → Nat
  | .parsed i => (t.find? i).elim 0 sizeOf
  | .merged i => (t.find? i).elim 0 sizeOf

theorem sizeAt_parsed {i : Fin n} {properties : List (String × Node n)} {required : List String}
    {additional : Option (Node n)} {other : Value}
    (h : t.Grounded (.object (.parsed i) properties required additional other)) :
    t.sizeAt (.parsed i) = sizeOf (Node.object (.parsed i) properties required additional other) := by
  have found := h.self.1.1 i rfl
  rw [sizeAt, found]
  rfl

/-- An object is made from a node that is at most as large as what was resolved, and its properties
are smaller. -/
theorem resolve_object {z : Node n} {key : ObjectKey n} {properties : List (String × Node n)}
    {required : List String} {additional : Option (Node n)} {other : Value} (hz : t.Grounded z)
    (h : t.resolve z = some (.object key properties required additional other)) :
    t.sizeAt key ≤ sizeOf z ∧ t.Below (t.sizeAt key) properties := by
  have itself {key : ObjectKey n} {properties : List (String × Node n)} {required : List String}
      {additional : Option (Node n)} {other : Value}
      (hx : t.Grounded (.object key properties required additional other)) :
      t.sizeAt key = sizeOf (Node.object key properties required additional other) ∧
        t.Below (t.sizeAt key) properties := by
    cases key with
    | parsed i =>
        rw [sizeAt_parsed hx]
        exact ⟨rfl, fun p hp =>
          hx.child p.2 (List.mem_append_left _ (List.mem_map_of_mem hp))⟩
    | merged i => exact hx.self.1.2.2.elim
  rcases resolve_within hz h with ⟨id, kind, branches, rfl, within⟩ | rfl
  · rcases within.origin with ⟨hx, le⟩ | ⟨properties', required', he⟩
    · obtain ⟨size, below⟩ := itself hx
      exact ⟨size ▸ le, below⟩
    · cases he
      have found : t.find? id = some (.composite id kind branches) := hz.self.1.1 id rfl
      have size : t.sizeAt (.merged id) = sizeOf (Node.composite id kind branches) := by
        rw [sizeAt, found]
        rfl
      rw [size]
      exact ⟨Nat.le_refl _, fun p hp =>
        within.inside p.2 (List.mem_append_left _ (List.mem_map_of_mem hp))⟩
  · obtain ⟨size, below⟩ := itself hz
    exact ⟨Nat.le_of_eq size, below⟩

/-! ## Resolution and shapes -/

/-- The composites `within` are larger than the node. -/
def Outside (t : NodeTable n) (within : List (Fin n)) (z : Node n) : Prop :=
  ∀ id ∈ within, ∃ y, t.find? id = some y ∧ sizeOf z < sizeOf y

theorem Outside.not_mem {within : List (Fin n)} {id : Fin n} {kind : CompositeKind}
    {branches : List (Node n)} (hz : t.Grounded (.composite id kind branches))
    (h : t.Outside within (.composite id kind branches)) : id ∉ within := by
  intro hid
  obtain ⟨y, found, larger⟩ := h id hid
  obtain rfl := Option.some.inj ((hz.self.1.1 id rfl).symm.trans found)
  exact Nat.lt_irrefl _ larger

theorem Outside.branch {within : List (Fin n)} {id : Fin n} {kind : CompositeKind}
    {branches : List (Node n)} (hz : t.Grounded (.composite id kind branches))
    (h : t.Outside within (.composite id kind branches)) :
    ∀ b ∈ branches, t.Outside (id :: within) b := by
  intro b hb
  have smaller : sizeOf b < sizeOf (Node.composite id kind branches) := (hz.child b hb).2
  refine List.forall_mem_cons.mpr ⟨⟨_, hz.self.1.1 id rfl, smaller⟩, fun id' hid' => ?_⟩
  obtain ⟨y, found, larger⟩ := h id' hid'
  exact ⟨y, found, Nat.lt_trans smaller larger⟩

/-- The shapes of properties, beside required names. -/
def shapesOf (acc : List (String × Node n) × List String) : List (String × Node 1) × List String :=
  (Keyed.mapEntries Node.shape acc.1, acc.2)

theorem shapesOf_mergeBranch (acc : List (String × Node n) × List String) (x : Option (Node n)) :
    shapesOf (mergeBranch acc x) = mergeBranch (shapesOf acc) (x.map Node.shape) := by
  cases x with
  | none => rfl
  | some x =>
      cases x with
      | object key properties required additional other =>
          rw [Option.map_some, Node.shape_object, mergeBranch, mergeBranch, shapesOf,
            Keyed.mapEntries_update]
          rfl
      | _ => simp [mergeBranch]

mutual

theorem resolveIn_shape {owner : Fin n} {within : List (Fin n)} {z : Node n} (hz : t.Grounded z)
    (outside : t.Outside within z) :
    (t.resolveIn owner within z).map Node.shape = z.shape.collapse := by
  rw [resolveIn, hz.deref]
  cases z with
  | composite id kind branches =>
      have hid := outside.not_mem hz
      have := unseenFin_cons_lt hid
      have grounded : ∀ b ∈ branches, t.Grounded b := fun b hb => (hz.child b hb).1
      have further := outside.branch hz
      dsimp only
      rw [dif_neg hid, Node.shape_composite]
      cases kind with
      | allOf =>
          have merged : shapesOf (t.mergeBranches owner (id :: within) branches ([], []))
              = Node.collapseAll (branches.map Node.shape) ([], []) :=
            mergeBranches_shape grounded further
          rw [Node.collapse, ← merged]
          simp [shapesOf]
      | _ =>
          rw [Node.collapse]
          · cases branches with
            | nil => simp [Node.collapseFirst]
            | cons b rest =>
                rw [List.map_cons, Node.collapseFirst]
                exact resolveIn_shape (grounded b (List.mem_cons_self ..))
                  (further b (List.mem_cons_self ..))
          · exact nofun
  | ref serial target => exact absurd trivial hz.self.2.1
  | _ => simp [Node.collapse]
termination_by (unseenFin within, 0)
decreasing_by all_goals decreasing_with omega

theorem mergeBranches_shape {owner : Fin n} {within : List (Fin n)} {branches : List (Node n)}
    {acc : List (String × Node n) × List String} (grounded : ∀ b ∈ branches, t.Grounded b)
    (outside : ∀ b ∈ branches, t.Outside within b) :
    shapesOf (t.mergeBranches owner within branches acc)
      = Node.collapseAll (branches.map Node.shape) (shapesOf acc) := by
  cases branches with
  | nil => rw [mergeBranches, List.map_nil, Node.collapseAll]
  | cons b bs =>
      obtain ⟨hb, hbs⟩ := List.forall_mem_cons.mp grounded
      obtain ⟨ob, obs⟩ := List.forall_mem_cons.mp outside
      rw [mergeBranches, List.map_cons, Node.collapseAll, mergeBranches_shape hbs obs,
        shapesOf_mergeBranch, resolveIn_shape hb ob]
termination_by (unseenFin within, 1 + branches.length)
decreasing_by all_goals decreasing_with subst_vars; simp +arith

end

/-- What a node resolves to is a matter of shape. -/
theorem resolve_shape {z : Node n} (hz : t.Grounded z) :
    (t.resolve z).map Node.shape = z.shape.collapse := by
  rw [resolve, hz.deref]
  cases z with
  | composite id kind branches => exact resolveIn_shape hz (by simp [Outside])
  | ref serial target => exact absurd trivial hz.self.2.1
  | _ => simp [Node.collapse]

/-- What a grounded node resolves to. -/
def Stands (t : NodeTable n) (x : Node n) : Prop := ∃ z, t.Grounded z ∧ t.resolve z = some x

variable {x : Node n}

theorem Stands.yields (h : t.Stands x) : t.Yields x :=
  let ⟨z, hz, hx⟩ := h
  ⟨z, hz.known, hx⟩

theorem Stands.plain (h : t.Stands x) : x.All Node.IsPlain :=
  let ⟨_, hz, hx⟩ := h
  resolve_plain hz hx

theorem Stands.extends {t' : NodeTable n} (ht : t.Sound []) (hle : t.Extends t')
    (h : t.Stands x) : t'.Stands x :=
  let ⟨z, hz, hx⟩ := h
  ⟨z, hz.mono fun _ hy => ⟨hy.1.mono hle, hy.2⟩, (resolve_extends ht hle hz.known).trans hx⟩

theorem Stands.properties {key : ObjectKey n} {properties : List (String × Node n)}
    {required : List String} {additional : Option (Node n)} {other : Value}
    (h : t.Stands (.object key properties required additional other)) :
    ∀ p ∈ properties, t.Grounded p.2 := by
  obtain ⟨z, hz, hx⟩ := h
  exact fun p hp => ((resolve_object hz hx).2 p hp).1

/-- The items of a list are grounded and smaller than what stands for the list. -/
theorem resolve_items {z items : Node n} {id : Fin n} (hz : t.Grounded z)
    (h : t.resolve z = some (.array id (some items))) : t.Grounded items ∧ sizeOf items < sizeOf z := by
  rcases resolve_within hz h with ⟨_, _, _, -, within⟩ | rfl
  · exact within.inside items (List.mem_singleton_self items)
  · exact hz.child items (List.mem_singleton_self items)

/-! ## Two tables -/

/-- Properties of one name and one shape, in order. -/
def TwinProperties : List (String × Node n) → List (String × Node m) → Prop :=
  List.Forall₂ fun p p' => p.1 = p'.1 ∧ p.2.shape = p'.2.shape

/-- What two nodes of one shape resolve to, each in its table. -/
inductive Twins (t : NodeTable n) (t' : NodeTable m) : Option (Node n) → Option (Node m) → Prop
  | none : Twins t t' none none
  | scalar {key key' type format} :
      Twins t t' (some (.scalar key type format)) (some (.scalar key' type format))
  | enumeration {id id' values type} (left : t.Stands (.enumeration id values type))
      (right : t'.Stands (.enumeration id' values type)) :
      Twins t t' (some (.enumeration id values type)) (some (.enumeration id' values type))
  | untyped {id id'} : Twins t t' (some (.array id none)) (some (.array id' none))
  | array {id id' items items'} (same : items.shape = items'.shape) :
      Twins t t' (some (.array id (some items))) (some (.array id' (some items')))
  | object {key key' properties properties' required additional additional' other}
      (same : TwinProperties properties properties')
      (extra : additional.map Node.shape = additional'.map Node.shape)
      (left : t.Stands (.object key properties required additional other))
      (right : t'.Stands (.object key' properties' required additional' other)) :
      Twins t t' (some (.object key properties required additional other))
        (some (.object key' properties' required additional' other))

variable {t' : NodeTable m}

theorem twinProperties_of_shapes {properties : List (String × Node n)}
    {properties' : List (String × Node m)}
    (h : Keyed.mapEntries Node.shape properties = Keyed.mapEntries Node.shape properties') :
    TwinProperties properties properties' := by
  rw [Keyed.mapEntries, Keyed.mapEntries, ← List.forall₂_eq_eq_eq, List.forall₂_map_left_iff,
    List.forall₂_map_right_iff] at h
  exact h.imp fun p p' => Prod.mk.inj

theorem shapes_of_twinProperties {properties : List (String × Node n)}
    {properties' : List (String × Node m)} (h : TwinProperties properties properties') :
    Keyed.mapEntries Node.shape properties = Keyed.mapEntries Node.shape properties' := by
  induction h with
  | nil => rfl
  | cons same _ ih => rw [Keyed.mapEntries_cons, Keyed.mapEntries_cons, same.1, same.2, ih]

/-- Nodes of one shape that stand in their tables are twins. -/
theorem twins_of_shape (ht : t.Sound []) {x : Node n} {x' : Node m}
    (left : t.Stands x) (right : t'.Stands x') (same : x.shape = x'.shape) :
    Twins t t' (some x) (some x') := by
  have concrete := (left.yields.settled ht).concrete
  cases x with
  | scalar key type format =>
      cases x' with
      | scalar key' type' format' =>
          simp only [Node.shape_scalar, Node.scalar.injEq] at same
          obtain ⟨-, rfl, rfl⟩ := same
          exact .scalar
      | _ => simp at same
  | enumeration id values type =>
      cases x' with
      | enumeration id' values' type' =>
          simp only [Node.shape_enumeration, Node.enumeration.injEq] at same
          obtain ⟨-, rfl, rfl⟩ := same
          exact .enumeration left right
      | _ => simp at same
  | array id items =>
      cases x' with
      | array id' items' =>
          simp only [Node.shape_array, Node.array.injEq] at same
          cases items with
          | none =>
              cases items' with
              | none => exact .untyped
              | some items' => simp at same
          | some items =>
              cases items' with
              | none => simp at same
              | some items' => exact .array (Option.some.inj same.2)
      | _ => simp at same
  | object key properties required additional other =>
      cases x' with
      | object key' properties' required' additional' other' =>
          simp only [Node.shape_object, Node.object.injEq] at same
          obtain ⟨-, same, rfl, extra, rfl⟩ := same
          exact .object (twinProperties_of_shapes same) extra left right
      | _ => simp at same
  | composite id kind branches => exact concrete.elim
  | ref serial target => exact concrete.elim

theorem twins_resolve (ht : t.Sound []) {z : Node n} {z' : Node m} (hz : t.Grounded z)
    (hz' : t'.Grounded z') (same : z.shape = z'.shape) :
    Twins t t' (t.resolve z) (t'.resolve z') := by
  have shapes : (t.resolve z).map Node.shape = (t'.resolve z').map Node.shape := by
    rw [resolve_shape hz, resolve_shape hz', same]
  cases hx : t.resolve z with
  | none =>
      cases hx' : t'.resolve z' with
      | none => exact .none
      | some x' => simp [hx, hx'] at shapes
  | some x =>
      cases hx' : t'.resolve z' with
      | none => simp [hx, hx'] at shapes
      | some x' =>
          rw [hx, hx'] at shapes
          exact twins_of_shape ht ⟨z, hz, hx⟩ ⟨z', hz', hx'⟩ (Option.some.inj shapes)

/-- Twins are of one scalar. -/
theorem Twins.scalarOf {x : Option (Node n)} {x' : Option (Node m)} (h : Twins t t' x x') :
    t.scalarOf x = t'.scalarOf x' := by
  cases h <;> rfl

theorem Twins.describe {x : Option (Node n)} {x' : Option (Node m)} (h : Twins t t' x x') :
    t.describe x = t'.describe x' := by
  cases h <;> rfl

/-- Objects that are twins lead to their strings by the same paths. -/
theorem Twins.stringPaths (ht : t.Sound []) {depth : Nat} {start : String} {x : Option (Node n)}
    {x' : Option (Node m)} (h : Twins t t' x x') :
    t.stringPaths depth start x = t'.stringPaths depth start x' := by
  induction depth generalizing start x x' with
  | zero => rfl
  | succ depth ih =>
      rw [NodeTable.stringPaths, NodeTable.stringPaths]
      cases h with
      | @object key key' properties properties' required additional additional' other same extra
          left right =>
          show properties.flatMap _ = properties'.flatMap _
          have known := left.properties
          have known' := right.properties
          clear left right
          induction same with
          | nil => rfl
          | @cons p p' rest rest' head _ tail =>
              obtain ⟨hp, hrest⟩ := List.forall_mem_cons.mp known
              obtain ⟨hp', hrest'⟩ := List.forall_mem_cons.mp known'
              rw [List.flatMap_cons, List.flatMap_cons, tail hrest hrest']
              refine congrArg (· ++ _) ?_
              have twins := twins_resolve ht hp hp' head.2
              dsimp only
              rw [head.1]
              generalize t.resolve p.2 = y at twins
              generalize t'.resolve p'.2 = y' at twins
              cases twins with
              | @object _ _ ps ps' _ _ _ _ inner _ _ _ =>
                  cases inner with
                  | nil => rfl
                  | cons first more => exact ih (.object (.cons first more) ‹_› ‹_› ‹_›)
              | @scalar _ _ type _ =>
                  cases type with
                  | str s =>
                      by_cases hs : s = "string"
                      · subst hs
                        rfl
                      · simp [hs]
                  | _ => rfl
              | _ => rfl
      | _ => rfl

end NodeTable

/-! ## Reading without cycles -/

namespace Parsing

variable {g : RawGraph} {raw : RawValue g.size} {t t' : NodeTable g.size}

/-- Without cycles reading gives a grounded node of the shape of the tree. -/
theorem run_grounded (ht : t.Sound []) (reads : t.Reads g) (acyclic : g.Acyclic raw)
    {x : Node g.size} (h : run g raw t = (.ok x, t')) :
    (g.unfold raw).reading = .ok x.shape ∧ t'.Reads g ∧ t'.Grounded x := by
  have gives := run_gives acyclic reads
  have ends : outcome (parse g [] raw) t = (.ok x, t') := h
  rw [Gives, ends] at gives
  obtain ⟨read, reads'⟩ := gives
  have plain : x.All Node.IsPlain :=
    (Node.all_of_shape (Value.reading_plain (g.unfold_distinct raw) read)).mono
      fun _ => Node.isPlain_shape.mp
  exact ⟨read, reads', (run_grown ht h).2.and plain⟩

theorem run_error (reads : t.Reads g) (acyclic : g.Acyclic raw) {e : SchemaError}
    (h : run g raw t = (.error e, t')) : (g.unfold raw).reading = .error e := by
  have gives := run_gives acyclic reads
  have ends : outcome (parse g [] raw) t = (.error e, t') := h
  rw [Gives, ends] at gives
  exact gives

end Parsing

end ResourceGraph
