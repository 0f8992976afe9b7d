import ResourceGraph.Value.Basic

/-!
Schema nodes: what a raw schema object is, once its keywords have been read. A node knows which raw
object it comes from, and that is its identity; a schema that contains itself has a reference node
in the place where it comes back. The table of nodes resolves these references.
-/

namespace ResourceGraph

inductive CompositeKind where
  | allOf
  | anyOf
  | oneOf
deriving DecidableEq, Repr

def CompositeKind.word : CompositeKind → String
  | .allOf => "allOf"
  | .anyOf => "anyOf"
  | .oneOf => "oneOf"

/-- Where an object node comes from: a raw object, or the branches of a composite. -/
inductive ObjectKey (n : Nat) where
  | parsed (id : Fin n)
  | merged (composite : Fin n)
deriving DecidableEq

/-- Where a scalar node comes from: a raw object, or a raw value that is none, each time a new one. -/
inductive ScalarKey (n : Nat) where
  | parsed (id : Fin n)
  | serial (k : Nat)
deriving DecidableEq

inductive Node (n : Nat) where
  | scalar (key : ScalarKey n) (type format : Value)
  | enumeration (id : Fin n) (values : List Value) (type : Value)
  | array (id : Fin n) (items : Option (Node n))
  | composite (id : Fin n) (kind : CompositeKind) (branches : List (Node n))
  /-- `additional` is the node of `additionalProperties` where that is an object, and
  `otherAdditional` its value where it is something else. -/
  | object (key : ObjectKey n) (properties : List (String × Node n)) (required : List String)
      (additional : Option (Node n)) (otherAdditional : Value)
  /-- A reference back to a raw object whose node was not complete. -/
  | ref (serial : Nat) (target : Fin n)

/-- The object without properties. -/
def Node.emptyObject {n : Nat} (key : ObjectKey n) : Node n := .object key [] [] none .null

/-- The nodes that are complete, by raw object, and the number of the next node without one. -/
structure NodeTable (n : Nat) where
  nodes : Vector (Option (Node n)) n
  serial : Nat

namespace NodeTable

variable {n : Nat}

def empty : NodeTable n := ⟨Vector.replicate n none, 0⟩

def find? (t : NodeTable n) (i : Fin n) : Option (Node n) := t.nodes.get i

def store (t : NodeTable n) (i : Fin n) (node : Node n) : NodeTable n :=
  { t with nodes := t.nodes.set i (some node) i.isLt }

/-- The node behind a reference. Nodes in the table are never references, so one step is enough. -/
def deref (t : NodeTable n) : Node n → Option (Node n)
  | .ref _ target => t.find? target
  | node => some node

end NodeTable

/-- Why a schema cannot be read, mapped or compared: a value is used in a way that its kind does not
allow, or it contains itself and a comparison with it never ends. -/
inductive SchemaError where
  | notIterable (kind : String)
  | unhashable (kind : String)
  | endless
deriving DecidableEq

def SchemaError.message : SchemaError → String
  | .notIterable kind => "'" ++ kind ++ "' object is not iterable"
  | .unhashable kind => "unhashable type: '" ++ kind ++ "'"
  | .endless => "maximum recursion depth exceeded in comparison"

end ResourceGraph
