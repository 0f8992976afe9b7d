import ResourceGraph.Number.Shortest
import ResourceGraph.Text.Quoted
import ResourceGraph.Value

/-!
JSON text of a value, in ASCII: every other character is written as one or two `\u` escapes. A
layout gives the separators and the indentation. A knot has no JSON text, and stands there as null.
-/

namespace ResourceGraph

structure JsonLayout where
  /-- Blanks per level when every item stands on its own line. -/
  indent : Option Nat
  itemSeparator : String
  keySeparator : String

namespace JsonLayout

def compact : JsonLayout := ⟨none, ",", ":"⟩

def spaced : JsonLayout := ⟨none, ", ", ": "⟩

def indented (n : Nat) : JsonLayout := ⟨some n, ",", ": "⟩

end JsonLayout

namespace Value

def jsonNumbers : NumberLayout := ⟨-4, 16, 2, "Infinity", "NaN"⟩

def jsonUnit (n : Nat) : List Char := '\\' :: 'u' :: Text.hexDigits 4 n

def jsonChar (c : Char) : List Char :=
  let n := c.toNat
  if c = '\x22' then ['\\', '\x22']
  else if c = '\\' then ['\\', '\\']
  else if c = '\n' then ['\\', 'n']
  else if c = '\r' then ['\\', 'r']
  else if c = '\t' then ['\\', 't']
  else if n = 8 then ['\\', 'b']
  else if n = 12 then ['\\', 'f']
  else if 0x20 ≤ n ∧ n < 0x7f then [c]
  else if n < 0x10000 then jsonUnit n
  else
    let m := n - 0x10000
    jsonUnit (0xd800 + m / 0x400) ++ jsonUnit (0xdc00 + m % 0x400)

def jsonString (s : String) : String :=
  String.ofList ('\x22' :: s.toList.flatMap jsonChar ++ ['\x22'])

/-- Items between brackets, each on a line of its own if the layout indents. -/
def jsonBlock (l : JsonLayout) (depth : Nat) (opening closing : String) (items : List String) :
    String :=
  if items.isEmpty then opening ++ closing
  else
    match l.indent with
    | none => opening ++ String.intercalate l.itemSeparator items ++ closing
    | some n =>
      let margin (d : Nat) : String := "\n" ++ String.ofList (List.replicate (n * d) ' ')
      opening ++ margin (depth + 1)
        ++ String.intercalate (l.itemSeparator ++ margin (depth + 1)) items
        ++ margin depth ++ closing

mutual

def jsonAt (l : JsonLayout) (depth : Nat) : Value → String
  | .null => "null"
  | .bool b => if b then "true" else "false"
  | .int n => toString n
  | .double x => jsonNumbers.text x
  | .str s => jsonString s
  | .arr items => jsonBlock l depth "[" "]" (jsonItems l (depth + 1) items)
  | .obj members => jsonBlock l depth "\x7b" "\x7d" (jsonMembers l (depth + 1) members)
  | .knot _ => "null"

def jsonItems (l : JsonLayout) (depth : Nat) : List Value → List String
  | [] => []
  | v :: vs => jsonAt l depth v :: jsonItems l depth vs

def jsonMembers (l : JsonLayout) (depth : Nat) : List (String × Value) → List String
  | [] => []
  | (k, v) :: ms => (jsonString k ++ l.keySeparator ++ jsonAt l depth v) :: jsonMembers l depth ms

end

def toJson (l : JsonLayout) (v : Value) : String := jsonAt l 0 v

mutual

/-- The same value with the members of every object in the order of their names. -/
def sortKeys : Value → Value
  | .arr items => .arr (sortItems items)
  | .obj members => .obj ((sortMembers members).mergeSort fun a b => decide (a.1 ≤ b.1))
  | .null => .null
  | .bool b => .bool b
  | .int n => .int n
  | .double x => .double x
  | .str s => .str s
  | .knot k => .knot k

def sortItems : List Value → List Value
  | [] => []
  | v :: vs => sortKeys v :: sortItems vs

def sortMembers : List (String × Value) → List (String × Value)
  | [] => []
  | (k, v) :: ms => (k, sortKeys v) :: sortMembers ms

end

end Value

end ResourceGraph
