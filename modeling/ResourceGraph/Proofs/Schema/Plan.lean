import ResourceGraph.Proofs.Raw.Unfolding
import ResourceGraph.Schema.Layout

/-!
# Layouts of trees

What a schema object is can be told from the value that it unfolds to. A plan is the layout of such
a value: the parts below are values again, and no part is as large as the whole.
-/

namespace ResourceGraph

/-- A schema object of a tree after one level of reading. -/
inductive Plan where
  | composite (kind : CompositeKind) (branches : List Value)
  | enumeration (values : List Value) (type : Value)
  | array (items : Option Value)
  | object (properties : List (String × Value)) (required : Except SchemaError (List String))
      (additional : Option Value) (otherAdditional : Value)
  | scalar (type format : Value)

/-- Whether a value is the given word. -/
def Value.isWord (w : String) : Value → Bool
  | .str s => s == w
  | _ => false

namespace Plan

variable (v : Value)

def typeOf : Value :=
  match v.get "type" with
  | .arr candidates => (candidates.find? fun c => !c.isWord "null").getD .null
  | type => type

def requiredOf : Except SchemaError (List String) :=
  let raw := v.get "required"
  if !raw.truthy then .ok []
  else
    match raw with
    | .arr items => .ok (items.map Value.plain)
    | .str s => .ok (s.toList.map fun c => String.ofList [c])
    | .obj members => .ok (Keyed.keys members)
    | _ => .error (.notIterable raw.kindWord)

def membersOf : Value → List (String × Value)
  | .obj members => members
  | _ => []

def objectOf : Plan :=
  match v.get "additionalProperties" with
  | .obj members => .object (membersOf (v.get "properties")) (requiredOf v) (some (.obj members)) .null
  | raw => .object (membersOf (v.get "properties")) (requiredOf v) none raw

def alternatives? : Option (CompositeKind × List Value) :=
  match v.get "anyOf" with
  | .arr (b :: bs) => some (.anyOf, b :: bs)
  | _ =>
    match v.get "oneOf" with
    | .arr (b :: bs) => some (.oneOf, b :: bs)
    | _ => none

/-- The plan by the type alone. -/
def typedOf : Plan :=
  if (typeOf v).isWord "array" then
    match v.get "items" with
    | .null => .array none
    | items => .array (some items)
  else if (typeOf v).isWord "object" || Keyed.hasKey "properties" (membersOf v) then objectOf v
  else .scalar (typeOf v) (v.get "format")

def plainOf : Plan :=
  match v.get "enum" with
  | .arr values => .enumeration values (typeOf v)
  | _ => typedOf v

/-- The plan of an object. -/
def ofObject : Plan :=
  match v.get "allOf" with
  | .arr branches => .composite .allOf branches
  | _ =>
    match alternatives? v with
    | some (kind, branches) => .composite kind branches
    | none => plainOf v

end Plan

/-! ## The plan of a layout -/

namespace RawGraph

variable {g : RawGraph} {i : Fin g.size}

@[simp] theorem unfold_null : g.unfold .null = .null := rfl
@[simp] theorem unfold_bool (b : Bool) : g.unfold (.bool b) = .bool b := rfl
@[simp] theorem unfold_int (k : Int) : g.unfold (.int k) = .int k := rfl
@[simp] theorem unfold_double (x : Double) : g.unfold (.double x) = .double x := rfl
@[simp] theorem unfold_str (s : String) : g.unfold (.str s) = .str s := rfl

theorem unfold_eq_null_iff {v : RawValue g.size} : g.unfold v = .null ↔ v = .null := by
  cases v with
  | arr items => simp [unfold_arr]
  | obj i =>
      rcases unfoldObject_cases none i with ⟨k, hi⟩ | ⟨members, hi⟩ <;> simp [unfold, Raw.fill, hi]
  | _ => simp

theorem get_unfold (h : g.Acyclic (.obj i)) (k : String) :
    (g.unfold (.obj i)).get k = g.unfold (g.get i k) := by
  rw [unfold_obj h]
  show (Keyed.find? k (Keyed.mapEntries g.unfold (g.members i))).getD .null = _
  rw [Keyed.find?_mapEntries, RawGraph.get]
  cases Keyed.find? k (g.members i) with
  | none => exact unfold_null.symm
  | some v => rfl

theorem isWord_unfold (w : String) (v : RawValue g.size) : (g.unfold v).isWord w = v.isWord w := by
  cases v with
  | obj i =>
      rcases unfoldObject_cases none i with ⟨k, hi⟩ | ⟨members, hi⟩ <;> 
        simp [unfold, Raw.fill, hi, Value.isWord, Raw.isWord]
  | _ => rfl

theorem kindWord_unfold (v : RawValue g.size) : (g.unfold v).kindWord = v.kindWord := by
  cases v with
  | obj i =>
      rcases unfoldObject_cases none i with ⟨k, hi⟩ | ⟨members, hi⟩ <;>
        simp [unfold, Raw.fill, hi, Value.kindWord, Raw.kindWord]
  | _ => rfl

theorem truthy_unfold {v : RawValue g.size} (h : g.Acyclic v) :
    (g.unfold v).truthy = g.truthy v := by
  cases v with
  | arr items => simp [unfold_arr, Value.truthy, truthy]
  | obj i => simp [unfold_obj h, Value.truthy, truthy]
  | _ => simp [Value.truthy, truthy]

end RawGraph

namespace Layout

variable {g : RawGraph} {i : Fin g.size}

/-- The layout with its parts unfolded. -/
def plan : Layout g.size → Plan
  | .composite kind branches => .composite kind (branches.map g.unfold)
  | .enumeration values type => .enumeration values type
  | .array items => .array (items.map g.unfold)
  | .object properties required additional other =>
    .object (Keyed.mapEntries g.unfold properties) required (additional.map g.unfold) other
  | .scalar type format => .scalar type format

theorem typeOf_unfold (h : g.Acyclic (.obj i)) :
    Plan.typeOf (g.unfold (.obj i)) = g.unfold (typeOf g i) := by
  rw [Plan.typeOf, g.get_unfold h, typeOf]
  cases g.get i "type" with
  | arr candidates =>
      rw [g.unfold_arr]
      dsimp only
      rw [List.find?_map]
      have same : ((fun c : Value => !c.isWord "null") ∘ g.unfold)
          = fun c : RawValue g.size => !c.isWord "null" := by
        funext c
        rw [Function.comp_apply, RawGraph.isWord_unfold]
      rw [same]
      cases candidates.find? fun c => !c.isWord "null" <;> simp
  | obj j =>
      rcases g.unfoldObject_cases none j with ⟨k, hj⟩ | ⟨members, hj⟩ <;>
        simp [RawGraph.unfold, Raw.fill, hj]
  | _ => simp

theorem requiredOf_unfold (h : g.Acyclic (.obj i)) :
    Plan.requiredOf (g.unfold (.obj i)) = requiredOf g i := by
  simp only [Plan.requiredOf, requiredOf, g.get_unfold h, g.truthy_unfold (h.get _),
    g.kindWord_unfold]
  split
  · rfl
  · have acyclic := h.get "required"
    cases hr : g.get i "required" with
    | arr items =>
        rw [hr] at acyclic
        simp [g.unfold_arr, g.unfoldItems_of_acyclic acyclic.item]
    | obj j =>
        rw [hr] at acyclic
        rw [g.unfold_obj acyclic]
        exact congrArg Except.ok (Keyed.keys_mapEntries g.unfold (g.members j))
    | _ => simp

theorem propertiesOf_unfold (h : g.Acyclic (.obj i)) :
    Plan.membersOf ((g.unfold (.obj i)).get "properties")
      = Keyed.mapEntries g.unfold (propertiesOf g i) := by
  rw [g.get_unfold h, propertiesOf]
  have acyclic := h.get "properties"
  cases hp : g.get i "properties" with
  | obj j =>
      rw [hp] at acyclic
      rw [g.unfold_obj acyclic]
      rfl
  | arr items => rw [g.unfold_arr]; rfl
  | _ => simp [Plan.membersOf]

theorem objectOf_unfold (h : g.Acyclic (.obj i)) :
    Plan.objectOf (g.unfold (.obj i)) = (objectOf g i).plan := by
  rw [Plan.objectOf, g.get_unfold h, propertiesOf_unfold h, requiredOf_unfold h, objectOf]
  cases extra : g.get i "additionalProperties" with
  | obj j => simp [plan, g.unfold_obj (extra ▸ h.get "additionalProperties")]
  | arr items => simp [g.unfold_arr, plan]
  | _ => simp [plan]

theorem oneOf_unfold (h : g.Acyclic (.obj i)) : (match g.unfold (g.get i "oneOf") with
    | .arr (b :: bs) => some (CompositeKind.oneOf, b :: bs)
    | _ => none) = (match g.get i "oneOf" with
    | .arr (b :: bs) => some (CompositeKind.oneOf, b :: bs)
    | _ => none).map fun a : CompositeKind × List (RawValue g.size) => (a.1, a.2.map g.unfold) := by
  cases branches : g.get i "oneOf" with
  | arr items => cases items <;> simp [g.unfold_arr]
  | obj j => simp [g.unfold_obj (branches ▸ h.get "oneOf")]
  | _ => simp

theorem alternatives?_unfold (h : g.Acyclic (.obj i)) :
    Plan.alternatives? (g.unfold (.obj i))
      = (alternatives? g i).map fun a => (a.1, a.2.map g.unfold) := by
  rw [Plan.alternatives?, alternatives?, g.get_unfold h, g.get_unfold h, oneOf_unfold h]
  cases branches : g.get i "anyOf" with
  | arr items =>
      rw [g.unfold_arr]
      cases items <;> rfl
  | obj j =>
      have tree := g.unfold_obj (branches ▸ h.get "anyOf")
      generalize g.unfold (.obj j) = v at tree ⊢
      subst tree
      rfl
  | _ => rfl

theorem typedOf_unfold (h : g.Acyclic (.obj i)) :
    Plan.typedOf (g.unfold (.obj i)) = (if (typeOf g i).isWord "array" then
        match g.get i "items" with
        | .null => Layout.array none
        | items => .array (some items)
      else if (typeOf g i).isWord "object" || Keyed.hasKey "properties" (g.members i) then
        objectOf g i
      else .scalar (g.unfold (typeOf g i)) (g.unfold (g.get i "format"))).plan := by
  have named : Keyed.hasKey "properties" (Plan.membersOf (g.unfold (.obj i)))
      = Keyed.hasKey "properties" (g.members i) := by
    rw [g.unfold_obj h, Bool.eq_iff_iff, Keyed.hasKey_iff, Keyed.hasKey_iff]
    exact iff_of_eq (congrArg _ (Keyed.keys_mapEntries g.unfold (g.members i)))
  rw [Plan.typedOf, typeOf_unfold h, named, objectOf_unfold h, g.get_unfold h, g.get_unfold h,
    g.isWord_unfold, g.isWord_unfold]
  split
  · cases items : g.get i "items" with
    | obj j => simp [plan, g.unfold_obj (items ▸ h.get "items")]
    | arr items => simp [g.unfold_arr, plan]
    | _ => simp [plan]
  · split <;> rfl

theorem plainOf_unfold (h : g.Acyclic (.obj i)) :
    Plan.plainOf (g.unfold (.obj i)) = (plainOf g i).plan := by
  rw [Plan.plainOf, plainOf, typedOf_unfold h, g.get_unfold h, typeOf_unfold h]
  cases values : g.get i "enum" with
  | arr items =>
      have acyclic := (values ▸ h.get "enum" : g.Acyclic (.arr items)).item
      simp [g.unfold_arr, plan, g.unfoldItems_of_acyclic acyclic]
  | obj j =>
      have tree := g.unfold_obj (values ▸ h.get "enum")
      generalize g.unfold (.obj j) = v at tree ⊢
      subst tree
      rfl
  | _ => rfl

theorem alternatives_or_plain_unfold (h : g.Acyclic (.obj i)) :
    (match Plan.alternatives? (g.unfold (.obj i)) with
      | some (kind, branches) => Plan.composite kind branches
      | none => Plan.plainOf (g.unfold (.obj i)))
    = (match alternatives? g i with
      | some (kind, branches) => Layout.composite kind branches
      | none => plainOf g i).plan := by
  rw [alternatives?_unfold h, plainOf_unfold h]
  cases alternatives? g i with
  | none => rfl
  | some a => rfl

/-- Without cycles the layout of an object is the plan of what it unfolds to. -/
theorem ofObject_unfold (h : g.Acyclic (.obj i)) :
    Plan.ofObject (g.unfold (.obj i)) = (ofObject g i).plan := by
  rw [Plan.ofObject, ofObject, alternatives_or_plain_unfold h, g.get_unfold h]
  cases branches : g.get i "allOf" with
  | arr items => simp [g.unfold_arr, plan]
  | obj j =>
      have tree := g.unfold_obj (branches ▸ h.get "allOf")
      generalize g.unfold (.obj j) = v at tree ⊢
      subst tree
      rfl
  | _ => rfl

end Layout

end ResourceGraph
