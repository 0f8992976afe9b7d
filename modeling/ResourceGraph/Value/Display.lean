import ResourceGraph.Number.Shortest
import ResourceGraph.Text.Quoted
import ResourceGraph.Value

/-!
Values as words in a sentence: `shown` quotes strings, `plain` leaves a string as it is, and
`brief` is the form of error messages, which cuts what is long or deep.
-/

namespace ResourceGraph

namespace Value

/-- Numbers stand positionally from 0.0001 up to below 10^16. -/
def displayLayout : NumberLayout := ⟨-4, 16, 2, "inf", "nan"⟩

def boolWord (b : Bool) : String := if b then "True" else "False"

end Value

namespace RawGraph

variable (g : RawGraph) (start : Option (ListPlace g.size))

mutual

/-- The text of a value inside the objects `within`, whose text is under way. Where one of them comes
back, there are dots. So there are for the list item `start`, in which the text starts; `skip` is its
index if the value is its list. -/
def shownIn (within : List (Fin g.size)) (skip : Option Nat) (v : RawValue g.size) : String :=
  match v with
  | .null => "None"
  | .bool b => Value.boolWord b
  | .int n => toString n
  | .double x => Value.displayLayout.text x
  | .str s => Text.quoted s
  | .arr items => "[" ++ String.intercalate ", " (shownItems within skip items) ++ "]"
  | .obj i =>
    if h : i ∈ within then "\x7b...\x7d"
    else
      have := unseenFin_cons_lt h
      "\x7b" ++ String.intercalate ", " (shownMembers (i :: within) i (g.members i)) ++ "\x7d"
termination_by (unseenFin within, sizeOf v)

def shownItems (within : List (Fin g.size)) (skip : Option Nat) (items : List (RawValue g.size)) :
    List String :=
  match items with
  | [] => []
  | v :: vs =>
    match skip with
    | some 0 => "[...]" :: shownItems within none vs
    | some (index + 1) => shownIn within none v :: shownItems within (some index) vs
    | none => shownIn within none v :: shownItems within none vs
termination_by (unseenFin within, sizeOf items)

def shownMembers (within : List (Fin g.size)) (i : Fin g.size)
    (members : List (String × RawValue g.size)) : List String :=
  match members with
  | [] => []
  | (k, v) :: rest =>
    let skip := (start.filter fun p => p.object == i && p.key == k).map (·.index)
    (Text.quoted k ++ ": " ++ shownIn within skip v) :: shownMembers within i rest
termination_by (unseenFin within, sizeOf members)

end

end RawGraph

def Knot.shown (k : Knot) : String := k.graph.shownIn k.within [] none (.obj k.object)

namespace Value

mutual

def shown : Value → String
  | .null => "None"
  | .bool b => boolWord b
  | .int n => toString n
  | .double x => displayLayout.text x
  | .str s => Text.quoted s
  | .arr items => "[" ++ String.intercalate ", " (shownItems items) ++ "]"
  | .obj members => "\x7b" ++ String.intercalate ", " (shownMembers members) ++ "\x7d"
  | .knot k => k.shown

def shownItems : List Value → List String
  | [] => []
  | v :: vs => shown v :: shownItems vs

def shownMembers : List (String × Value) → List String
  | [] => []
  | (k, v) :: ms => (Text.quoted k ++ ": " ++ shown v) :: shownMembers ms

end

def plain : Value → String
  | .str s => s
  | v => v.shown

/-- A text over 240 characters keeps its first 118 and its last 119. -/
def cutText (s : String) : String :=
  let cs := s.toList
  if cs.length ≤ 240 then s
  else String.ofList (cs.take 118) ++ "..." ++ String.ofList (cs.drop (cs.length - 119))

/-- A list of over ten texts keeps its first five and its last four. -/
def cutList (ts : List String) : List String :=
  if ts.length ≤ 10 then ts else ts.take 5 ++ "..." :: ts.drop (ts.length - 4)

mutual

/-- The short form; `room` is how many levels of lists and objects are still opened. -/
def briefAt (room : Nat) : Value → String
  | .null => "None"
  | .bool b => boolWord b
  | .int n => cutText (toString n)
  | .double x => displayLayout.text x
  | .str s => cutText (Text.quoted s)
  | .arr items =>
    if items.isEmpty then "[]"
    else
      match room with
      | 0 => "[...]"
      | room + 1 => "[" ++ String.intercalate ", " (cutList (briefItems room items)) ++ "]"
  | .obj members =>
    if members.isEmpty then "\x7b\x7d"
    else
      match room with
      | 0 => "\x7b...\x7d"
      | room + 1 =>
        "\x7b" ++ String.intercalate ", " (cutList (briefMembers room members)) ++ "\x7d"
  | .knot _ => "\x7b...\x7d"

def briefItems (room : Nat) : List Value → List String
  | [] => []
  | v :: vs => briefAt room v :: briefItems room vs

def briefMembers (room : Nat) : List (String × Value) → List String
  | [] => []
  | (k, v) :: ms =>
    (cutText (Text.quoted k) ++ ": " ++ briefAt room v) :: briefMembers room ms

end

def brief (v : Value) : String := briefAt 2 v

end Value

end ResourceGraph
