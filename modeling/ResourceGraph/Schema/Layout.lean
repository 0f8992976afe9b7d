import ResourceGraph.Raw.Unfolding
import ResourceGraph.Schema.Node
import ResourceGraph.Value.Display

/-!
Which node a raw schema object is, read off its keywords alone. The parts below are still raw.
-/

namespace ResourceGraph

/-- A schema object after one level of reading. -/
inductive Layout (n : Nat) where
  | composite (kind : CompositeKind) (branches : List (RawValue n))
  | enumeration (values : List Value) (type : Value)
  | array (items : Option (RawValue n))
  | object (properties : List (String × RawValue n)) (required : Except SchemaError (List String))
      (additional : Option (RawValue n)) (otherAdditional : Value)
  | scalar (type format : Value)

namespace Layout

variable (g : RawGraph)

/-- The type keyword. Of a list of types the first counts that is not `null`. -/
def typeOf (i : Fin g.size) : RawValue g.size :=
  match g.get i "type" with
  | .arr candidates => (candidates.find? fun c => !c.isWord "null").getD .null
  | type => type

/-- The names of the required properties: the texts of the items of whatever can be iterated. -/
def requiredOf (i : Fin g.size) : Except SchemaError (List String) :=
  let raw := g.get i "required"
  if !g.truthy raw then .ok []
  else
    match raw with
    | .arr items => .ok ((g.unfoldItems i "required" 0 items).map Value.plain)
    | .str s => .ok (s.toList.map fun c => String.ofList [c])
    | .obj j => .ok (Keyed.keys (g.members j))
    | _ => .error (.notIterable raw.kindWord)

def propertiesOf (i : Fin g.size) : List (String × RawValue g.size) :=
  match g.get i "properties" with
  | .obj j => g.members j
  | _ => []

def objectOf (i : Fin g.size) : Layout g.size :=
  match g.get i "additionalProperties" with
  | .obj j => .object (propertiesOf g i) (requiredOf g i) (some (.obj j)) .null
  | raw => .object (propertiesOf g i) (requiredOf g i) none (g.unfold raw)

/-- The branches of the first of two keywords that has any. -/
def alternatives? (i : Fin g.size) : Option (CompositeKind × List (RawValue g.size)) :=
  match g.get i "anyOf" with
  | .arr (b :: bs) => some (.anyOf, b :: bs)
  | _ =>
    match g.get i "oneOf" with
    | .arr (b :: bs) => some (.oneOf, b :: bs)
    | _ => none

/-- The layout of an object that is no composite. -/
def plainOf (i : Fin g.size) : Layout g.size :=
  let type := typeOf g i
  match g.get i "enum" with
  | .arr values => .enumeration (g.unfoldItems i "enum" 0 values) (g.unfold type)
  | _ =>
    if type.isWord "array" then
      match g.get i "items" with
      | .null => .array none
      | items => .array (some items)
    else if type.isWord "object" || Keyed.hasKey "properties" (g.members i) then objectOf g i
    else .scalar (g.unfold type) (g.unfold (g.get i "format"))

/-- A list under `allOf` makes a composite even when it is empty, one under `anyOf` or `oneOf` does
not; then an enumeration, an array, an object, and a scalar at last. -/
def ofObject (i : Fin g.size) : Layout g.size :=
  match g.get i "allOf" with
  | .arr branches => .composite .allOf branches
  | _ =>
    match alternatives? g i with
    | some (kind, branches) => .composite kind branches
    | none => plainOf g i

end Layout

end ResourceGraph
