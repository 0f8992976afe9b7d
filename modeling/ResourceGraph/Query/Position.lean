/-!
Places in a document. A place is kept as an offset in characters; for a reader it is a line and a
column, both counted from one. A line ends with a line feed, a carriage return, or both.
-/

namespace ResourceGraph.Query

structure Position where
  line : Nat
  column : Nat
deriving DecidableEq

/-- Where the line of an offset starts: its number, and the offset of its first character. Only
line ends that start before the offset count. -/
def lineOf (offset : Nat) : List Char → (index line start : Nat) → Nat × Nat
  | [], _, line, start => (line, start)
  | '\r' :: '\n' :: rest, i, line, start =>
    if offset ≤ i then (line, start) else lineOf offset rest (i + 2) (line + 1) (i + 2)
  | c :: rest, i, line, start =>
    if offset ≤ i then (line, start)
    else if c = '\n' ∨ c = '\r' then lineOf offset rest (i + 1) (line + 1) (i + 1)
    else lineOf offset rest (i + 1) line start

def Position.ofOffset (text : String) (offset : Nat) : Position :=
  let (line, start) := lineOf offset text.toList 0 1 0
  ⟨line, offset + 1 - start⟩

end ResourceGraph.Query
