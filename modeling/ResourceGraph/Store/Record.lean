import ResourceGraph.Fault
import ResourceGraph.Text.Split
import ResourceGraph.Value.Display

/-!
Records: named values in order. A record is made from an object or from a list of pairs, and read
by dot-paths.
-/

namespace ResourceGraph

abbrev Record := Keyed.Entries Value

namespace Record

/-- The name that a value becomes as the first part of a pair. -/
def nameOf : Value → String
  | .null => "null"
  | .bool b => if b then "true" else "false"
  | v => v.plain

/-- A pair is a list of two items, or what else has two items to go through. -/
def pair (index : Nat) (v : Value) : Except Fault (String × Value) :=
  match v.items? with
  | none => .error (.notSequence index)
  | some [k, x] => .ok (nameOf k, x)
  | some items => .error (.notPair index items.length)

def pairs (index : Nat) : List Value → Except Fault (List (String × Value))
  | [] => .ok []
  | v :: vs => do return (← pair index v) :: (← pairs (index + 1) vs)

def ofValue (v : Value) : Except Fault Record :=
  match v with
  | .obj members => .ok members
  | v =>
    match v.items? with
    | none => .error (.notIterable v.kindWord)
    | some items => (pairs 0 items).map Keyed.ofPairs

def segments (path : String) : List String := Text.pieces '.' path

/-- Reads key after key; what is no object has no keys. -/
def readKeys : List String → Value → Value
  | [], v => v
  | k :: ks, v => readKeys ks (v.get k)

def readPath (record : Value) (path : String) : Value := readKeys (segments path) record

end Record

end ResourceGraph
