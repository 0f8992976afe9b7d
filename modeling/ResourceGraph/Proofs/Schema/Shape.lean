import ResourceGraph.Proofs.Schema.Likeness
import ResourceGraph.Proofs.Value.Equivalence

/-!
# The shape of a node

The shape of a node is what is left of it when nobody asks where it comes from. Without references
inside, two nodes of a table are the same or equal exactly when their shapes are equal.
-/

namespace ResourceGraph

variable {n : Nat}

/-! ## Equality is reflexive -/

namespace Node

theorem All.and {P Q : Node n → Prop} {x : Node n} (h : x.All P) (h' : x.All Q) :
    x.All fun y => P y ∧ Q y := by
  induction h with
  | intro self _ ih => exact .intro ⟨self, h'.self⟩ fun y hy => ih y hy (h'.inside y hy)

end Node

theorem NodeTable.Knows.distinct {t : NodeTable n} {within : List (Fin n)} {x : Node n}
    (h : t.Knows within x) : x.Distinct := by
  cases x with
  | ref serial target => trivial
  | _ => exact h.2.1

namespace Node

/-- The values in a node have distinct names. -/
def IsLiteral : Node n → Prop
  | .scalar _ type format => type.Distinct ∧ format.Distinct
  | .enumeration _ values type => (∀ v ∈ values, v.Distinct) ∧ type.Distinct
  | .object _ _ _ _ other => other.Distinct
  | _ => True

/-- A node that is no reference, with proper values. -/
def IsPlain (x : Node n) : Prop := ¬ x.IsRef ∧ x.IsLiteral

/-- A node that is equal to itself. -/
def Reflexive (x : Node n) : Prop := x.looseEq x = true

theorem looseEqItems_self {xs : List (Node n)} (h : ∀ x ∈ xs, x.Reflexive) :
    looseEqItems xs xs = true := by
  induction xs with
  | nil => simp [looseEqItems]
  | cons x rest ih =>
      obtain ⟨hx, hrest⟩ := List.forall_mem_cons.mp h
      rw [looseEqItems, hx, ih hrest]
      rfl

theorem looseEqOption_self {x : Option (Node n)} (h : ∀ y ∈ x.toList, y.Reflexive) :
    looseEqOption x x = true := by
  cases x with
  | none => simp [looseEqOption]
  | some y =>
      rw [looseEqOption]
      exact h y (List.mem_singleton_self y)

theorem looseEqMembers_self {ps qs : List (String × Node n)} (nodup : (Keyed.keys qs).Nodup)
    (sub : ∀ p ∈ ps, p ∈ qs) (h : ∀ p ∈ ps, p.2.Reflexive) : looseEqMembers ps qs = true := by
  induction ps with
  | nil => simp [looseEqMembers]
  | cons p rest ih =>
      obtain ⟨hp, hrest⟩ := List.forall_mem_cons.mp h
      obtain ⟨mem, sub⟩ := List.forall_mem_cons.mp sub
      rw [looseEqMembers, Keyed.find?_of_mem nodup mem]
      exact Bool.and_eq_true _ _ ▸ ⟨hp, ih sub hrest⟩

/-- Distinct properties and proper values make a node equal to itself. -/
theorem looseEq_self {x : Node n} (h : x.All fun y => y.Distinct ∧ y.IsLiteral) :
    x.looseEq x = true := by
  induction h with
  | @intro x self inside ih =>
      obtain ⟨nodup, literal⟩ := self
      cases x with
      | scalar key type format =>
          rw [looseEq, Value.innerEq_self literal.1, Value.innerEq_self literal.2]
          rfl
      | enumeration id values type =>
          rw [looseEq, Value.innerEq_self literal.2,
            Value.looseEqItems_self fun v hv => Value.innerEq_self (literal.1 v hv)]
          rfl
      | array id items =>
          rw [looseEq]
          exact looseEqOption_self ih
      | composite id kind branches =>
          have items : looseEqItems branches branches = true := looseEqItems_self ih
          rw [looseEq, items]
          simp
      | object key properties required additional other =>
          have props : ∀ p ∈ properties, p.2.Reflexive := fun p hp =>
            ih p.2 (List.mem_append_left _ (List.mem_map_of_mem hp))
          have extra : ∀ y ∈ additional.toList, y.Reflexive := fun y hy =>
            ih y (List.mem_append_right _ hy)
          rw [looseEq, looseEqMembers_self nodup (fun _ hp => hp) props, looseEqOption_self extra,
            Value.innerEq_self literal]
          simp
      | ref serial target => simp [looseEq]

end Node

/-! ## Shapes -/

namespace Node

mutual

/-- A node without the places where it and what is inside it come from. -/
def shape : Node n → Node 1
  | .scalar _ type format => .scalar (.serial 0) type format
  | .enumeration _ values type => .enumeration 0 values type
  | .array _ items => .array 0 (optionShape items)
  | .composite _ kind branches => .composite 0 kind (shapes branches)
  | .object _ properties required additional other =>
    .object (.parsed 0) (memberShapes properties) required (optionShape additional) other
  | .ref _ _ => .ref 0 0

def optionShape : Option (Node n) → Option (Node 1)
  | none => none
  | some x => some (shape x)

def shapes : List (Node n) → List (Node 1)
  | [] => []
  | x :: xs => shape x :: shapes xs

def memberShapes : List (String × Node n) → List (String × Node 1)
  | [] => []
  | (k, x) :: ps => (k, shape x) :: memberShapes ps

end

theorem optionShape_eq (x : Option (Node n)) : optionShape x = x.map shape := by
  cases x <;> rfl

theorem shapes_eq (xs : List (Node n)) : shapes xs = xs.map shape := by
  induction xs with
  | nil => rfl
  | cons x xs ih => rw [shapes, ih, List.map_cons]

theorem memberShapes_eq (ps : List (String × Node n)) :
    memberShapes ps = Keyed.mapEntries shape ps := by
  induction ps with
  | nil => rfl
  | cons p ps ih => rw [memberShapes, ih, Keyed.mapEntries_cons]

@[simp] theorem shape_scalar (key : ScalarKey n) (type format : Value) :
    shape (.scalar key type format) = .scalar (.serial 0) type format := by rw [shape]

@[simp] theorem shape_enumeration (id : Fin n) (values : List Value) (type : Value) :
    shape (.enumeration id values type) = .enumeration 0 values type := by rw [shape]

@[simp] theorem shape_array (id : Fin n) (items : Option (Node n)) :
    shape (.array id items) = .array 0 (items.map shape) := by rw [shape, optionShape_eq]

@[simp] theorem shape_composite (id : Fin n) (kind : CompositeKind) (branches : List (Node n)) :
    shape (.composite id kind branches) = .composite 0 kind (branches.map shape) := by
  rw [shape, shapes_eq]

@[simp] theorem shape_object (key : ObjectKey n) (properties : List (String × Node n))
    (required : List String) (additional : Option (Node n)) (other : Value) :
    shape (.object key properties required additional other)
      = .object (.parsed 0) (Keyed.mapEntries shape properties) required (additional.map shape)
          other := by
  rw [shape, memberShapes_eq, optionShape_eq]

@[simp] theorem shape_ref (serial : Nat) (target : Fin n) : shape (.ref serial target) = .ref 0 0 := by
  rw [shape]

variable {P : Node 1 → Prop}

theorem children_shape (x : Node n) : x.shape.children = x.children.map shape := by
  cases x with
  | array id items => cases items <;> simp [children]
  | object key properties required additional other => cases additional <;> simp [children]
  | _ => simp [children]

/-- What holds all through the shape holds of the shapes all through the node. -/
theorem all_of_shape {x : Node n} (h : x.shape.All P) : x.All fun y => P y.shape := by
  generalize hs : x.shape = s at h
  induction h generalizing x with
  | @intro s self _ ih =>
      subst hs
      refine .intro self fun y hy => ?_
      exact ih y.shape (children_shape x ▸ List.mem_map_of_mem hy) rfl

theorem isPlain_shape {x : Node n} : x.shape.IsPlain ↔ x.IsPlain := by
  cases x <;> simp [IsPlain, IsRef, IsLiteral]

/-! ## Shapes and equality -/

mutual

/-- Equality does not ask where nodes come from, unless they are references. -/
theorem looseEq_shape {x : Node n} (hx : x.All IsPlain) (y : Node n) :
    x.shape.looseEq y.shape = x.looseEq y := by
  cases x with
  | ref serial target => exact absurd trivial hx.self.1
  | scalar key type format => cases y <;> simp [looseEq]
  | enumeration id values type => cases y <;> simp [looseEq]
  | array id items =>
      cases y with
      | array id' items' =>
          rw [shape, shape, looseEq, looseEq, looseEqOption_shape hx.inside items']
      | _ => simp [looseEq]
  | composite id kind branches =>
      cases y with
      | composite id' kind' branches' =>
          rw [shape, shape, looseEq, looseEq, looseEqItems_shape hx.branch branches']
      | _ => simp [looseEq]
  | object key properties required additional other =>
      cases y with
      | object key' properties' required' additional' other' =>
          have extra : ∀ y ∈ additional.toList, y.All IsPlain := fun y hy =>
            hx.inside y (List.mem_append_right _ hy)
          rw [shape, shape, looseEq, looseEq, looseEqMembers_shape hx.property properties',
            looseEqOption_shape extra additional', memberShapes_eq, memberShapes_eq]
          simp
      | _ => simp [looseEq]
termination_by sizeOf x
decreasing_by all_goals decreasing_with subst_vars; simp +arith

theorem looseEqOption_shape {x : Option (Node n)} (hx : ∀ y ∈ x.toList, y.All IsPlain)
    (y : Option (Node n)) :
    looseEqOption (optionShape x) (optionShape y) = looseEqOption x y := by
  match x with
  | none => cases y <;> simp [looseEqOption, optionShape]
  | some x =>
      cases y with
      | none => simp [looseEqOption, optionShape]
      | some y =>
          simp only [optionShape, looseEqOption]
          exact looseEq_shape (hx x (List.mem_singleton_self x)) y
termination_by sizeOf x

theorem looseEqItems_shape {xs : List (Node n)} (hx : ∀ x ∈ xs, x.All IsPlain)
    (ys : List (Node n)) : looseEqItems (shapes xs) (shapes ys) = looseEqItems xs ys := by
  match xs with
  | [] => cases ys <;> simp [looseEqItems, shapes]
  | x :: xs =>
      obtain ⟨hx, hxs⟩ := List.forall_mem_cons.mp hx
      cases ys with
      | nil => simp [looseEqItems, shapes]
      | cons y ys =>
          rw [shapes, shapes, looseEqItems, looseEqItems, looseEq_shape hx y,
            looseEqItems_shape hxs ys]
termination_by sizeOf xs
decreasing_by all_goals decreasing_with omega

theorem looseEqMembers_shape {ps : List (String × Node n)} (hx : ∀ p ∈ ps, p.2.All IsPlain)
    (qs : List (String × Node n)) :
    looseEqMembers (memberShapes ps) (memberShapes qs) = looseEqMembers ps qs := by
  match ps with
  | [] => simp [looseEqMembers, memberShapes]
  | (k, x) :: ps =>
      obtain ⟨hx, hps⟩ := List.forall_mem_cons.mp hx
      rw [memberShapes, looseEqMembers, looseEqMembers, memberShapes_eq qs, Keyed.find?_mapEntries]
      cases Keyed.find? k qs with
      | none => rfl
      | some y =>
          simp only [Option.map_some]
          rw [looseEq_shape hx y, ← memberShapes_eq, looseEqMembers_shape hps qs]
termination_by sizeOf ps
decreasing_by all_goals decreasing_with omega

end

end Node

namespace NodeTable

variable {t : NodeTable n}

/-- A plain node equals itself, and so every node that is the same. -/
theorem looseEq_of_identity (ht : t.Sound []) {x y : Node n} (hx : t.Yields x) (hy : t.Yields y)
    (plain : x.All Node.IsPlain) (definable : x.Definable) (same : x.identity = y.identity) :
    x.looseEq y = true := by
  obtain rfl := hx.eq_of_identity ht hy definable.rooted same
  have settled := hx.settled ht
  have self : x.All fun y => y.Distinct ∧ y.IsLiteral := by
    cases plain with
    | intro self inside =>
        refine .intro ⟨settled.distinct, self.2⟩ fun y hy => ?_
        exact ((settled.inside y hy).and (inside y hy)).mono
          fun z hz => ⟨hz.1.distinct, hz.2.2⟩
  exact Node.looseEq_self self

/-- To be the same or equal is a matter of shape. -/
theorem sameOrEqual_shape (ht : t.Sound []) {x y : Node n} (hx : t.Yields x) (hy : t.Yields y)
    (plain : x.All Node.IsPlain) (definable : x.Definable) :
    x.sameOrEqual y = x.shape.looseEq y.shape := by
  rw [Node.looseEq_shape plain, Node.sameOrEqual]
  by_cases same : x.identity = y.identity
  · rw [looseEq_of_identity ht hx hy plain definable same, Bool.or_true]
  · rw [decide_eq_false same, Bool.false_or]

end NodeTable

end ResourceGraph
