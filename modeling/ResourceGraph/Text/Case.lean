import ResourceGraph.Text.CaseTable

/-!
Full case mapping. An uppercase may be several characters; the only context rule is the one of the
capital sigma, whose lowercase is the final form at the end of a word.
-/

namespace ResourceGraph.Text

def shift? (table : List Shift) (c : Char) : Option Char :=
  (table.find? (·.holds c.toNat)).map fun s =>
    Char.ofNat ((c.toNat : Int) + s.offset).toNat

/-- The uppercase of one character, in full. -/
def upperChar (c : Char) : List Char :=
  if c.toNat < 0x80 then [c.toUpper]
  else
    match upperSequences.lookup c.toNat with
    | some ns => ns.map Char.ofNat
    | none => [(shift? upperShifts c).getD c]

def isUpper (c : Char) : Bool := upperRuns.any (·.holds c.toNat)

def isCased (c : Char) : Bool := casedRuns.any (·.holds c.toNat)

def isCaseIgnorable (c : Char) : Bool := caseIgnorableRuns.any (·.holds c.toNat)

/-- The lowercase of one character where no context matters. -/
def lowerChar (c : Char) : List Char :=
  if c.toNat < 0x80 then [c.toLower]
  else if c = '\u0130' then ['i', '\u0307']
  else [(shift? lowerShifts c).getD c]

/-- Whether the first character that is not case-ignorable is cased. -/
def startsCased (cs : List Char) : Bool :=
  match cs.dropWhile isCaseIgnorable with
  | [] => false
  | c :: _ => isCased c

/-- The lowercase of a text, given in reverse the characters before it. -/
def lowerAfter (before : List Char) : List Char → List Char
  | [] => []
  | c :: rest =>
    let low :=
      if c = 'Σ' then [if startsCased before && !startsCased rest then 'ς' else 'σ']
      else lowerChar c
    low ++ lowerAfter (c :: before) rest

def lower (s : String) : String := String.ofList (lowerAfter [] s.toList)

/-- The first character in uppercase, the rest as it is. -/
def capitalize (s : String) : String :=
  match s.toList with
  | [] => ""
  | c :: rest => String.ofList (upperChar c ++ rest)

end ResourceGraph.Text
