import ResourceGraph.Raw

/-!
JSON values. Integers are unbounded and kept apart from doubles; an object keeps its members in
order. A value that was read from a text is a tree. One that comes from a graph may contain objects
that contain themselves; such an object is a knot, which keeps the graph.
-/

namespace ResourceGraph

/-- An item of a list that is a member of an object. -/
structure ListPlace (n : Nat) where
  object : Fin n
  key : String
  index : Nat
deriving DecidableEq

/-- An object of a graph that is no finite tree. `within` is the place of the list item, if any, that
it was found in. -/
structure Knot where
  graph : RawGraph
  object : Fin graph.size
  endless : graph.ends object = false
  within : Option (ListPlace graph.size)
deriving DecidableEq

inductive Value where
  | null
  | bool (b : Bool)
  | int (n : Int)
  | double (x : Double)
  | str (s : String)
  | arr (items : List Value)
  | obj (members : List (String × Value))
  | knot (k : Knot)
deriving Inhabited

namespace Value

/-- The kinds of values, in the words of error messages. -/
def kindWord : Value → String
  | .null => "NoneType"
  | .bool _ => "bool"
  | .int _ => "int"
  | .double _ => "float"
  | .str _ => "str"
  | .arr _ => "list"
  | .obj _ | .knot _ => "dict"

/-- A number, or a truth value counted as one. -/
inductive Numeric where
  | whole (n : Int)
  | binary (x : Double)

def numeric? : Value → Option Numeric
  | .bool b => some (.whole (if b then 1 else 0))
  | .int n => some (.whole n)
  | .double x => some (.binary x)
  | _ => none

def Numeric.eq : Numeric → Numeric → Bool
  | .whole m, .whole n => m == n
  | .whole m, .binary y => y.toInt? == some m
  | .binary x, .whole n => x.toInt? == some n
  | .binary x, .binary y => x.numEq y

def isNaN : Value → Bool
  | .double x => x.isNaN
  | _ => false

/-- Equality of scalars inside something else: numbers and truth values are equal if they count for
the same, and a NaN is equal to itself. -/
def leafEq : Value → Value → Bool
  | .null, w => match w with | .null => true | _ => false
  | .str s, w => match w with | .str t => s == t | _ => false
  | v, w =>
    match v.numeric?, w.numeric? with
    | some a, some b => a.eq b || (v.isNaN && w.isNaN)
    | _, _ => false

def isNull : Value → Bool
  | .null => true
  | _ => false

end Value

end ResourceGraph
