import ResourceGraph.Schema.Composite
import ResourceGraph.Value.Display

/-!
The GraphQL scalar of a node, and the word that log lines use for it.
-/

namespace ResourceGraph

def defaultScalar : String := "String"

def formatScalars : List (String × String) :=
  [("uuid", "ID"), ("date", "String"), ("date-time", "String"), ("email", "String"),
    ("uri", "String")]

def typeScalars : List (String × String) :=
  [("string", "String"), ("integer", "Int"), ("number", "Float"), ("boolean", "Boolean")]

/-- Looks a keyword's value up. Lists and objects are no keys, and asking for one is an error. -/
def lookupScalar (table : List (String × String)) : Value → Except SchemaError (Option String)
  | .str s => .ok (Keyed.find? s table)
  | .arr items => .error (.unhashable (Value.arr items).kindWord)
  | .obj members => .error (.unhashable (Value.obj members).kindWord)
  | .knot k => .error (.unhashable (Value.knot k).kindWord)
  | _ => .ok none

/-- A known format decides, else the type; what is neither scalar nor enumeration is a string. -/
def Node.scalarName {n : Nat} : Option (Node n) → Except SchemaError String
  | some (.scalar _ type format) => do
    match ← lookupScalar formatScalars format with
    | some name => return name
    | none => return (← lookupScalar typeScalars type).getD defaultScalar
  | some (.enumeration _ _ type) => return (← lookupScalar typeScalars type).getD defaultScalar
  | _ => return defaultScalar

namespace NodeTable

variable {n : Nat} (t : NodeTable n)

def scalarOf (node : Option (Node n)) : Except SchemaError String :=
  Node.scalarName (node.bind t.deref)

def describe (node : Option (Node n)) : String :=
  match node.bind t.deref with
  | none => "missing"
  | some (.scalar ..) => "scalar"
  | some (.enumeration ..) => "enum"
  | some (.array ..) => "array"
  | some (.composite _ kind _) => kind.word
  | some (.object ..) => "object"
  | some (.ref ..) => "ref"

end NodeTable

end ResourceGraph
