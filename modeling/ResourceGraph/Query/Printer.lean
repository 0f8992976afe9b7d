import ResourceGraph.Query.Document
import ResourceGraph.Text.Quoted

/-!
Literals as text. A list or an object over 80 characters is broken into lines.
-/

namespace ResourceGraph.Query

def escapeCharacter (c : Char) : List Char :=
  if c = '"' then ['\\', '"']
  else if c = '\\' then ['\\', '\\']
  else if c = '\x08' then ['\\', 'b']
  else if c = '\x0c' then ['\\', 'f']
  else if c = '\n' then ['\\', 'n']
  else if c = '\r' then ['\\', 'r']
  else if c = '\t' then ['\\', 't']
  else if c.toNat < 0x20 ∨ (0x7f ≤ c.toNat ∧ c.toNat ≤ 0x9f) then
    '\\' :: 'u' :: Text.upperHexDigits 4 c.toNat
  else [c]

def stringText (s : String) : String :=
  "\"" ++ String.ofList (s.toList.flatMap escapeCharacter) ++ "\""

def escapeQuotes : (skip : Nat) → List Char → List Char
  | _, [] => []
  | skip + 1, c :: cs => c :: escapeQuotes skip cs
  | 0, c :: cs =>
    match c, cs with
    | '"', '"' :: '"' :: _ => '\\' :: '"' :: escapeQuotes 2 cs
    | c, _ => c :: escapeQuotes 0 cs

def isLineStart (c : Char) : Bool := c == ' ' || c == '\t'

/-- A block string stands on lines of its own unless it is one short line. -/
def blockStringText (s : String) : String :=
  let cs := s.toList
  let escaped := escapeQuotes 0 cs
  let lines := (String.ofList escaped).splitOn "\n"
  let isSingle := lines.length ≤ 1
  let allIndented := lines.length > 1 &&
    (lines.drop 1).all fun l => l.toList.head?.all isLineStart
  let endsInQuotes := ['\\', '"', '"', '"'].isSuffixOf escaped
  let endsOpen := (cs.getLast? == some '"' && !endsInQuotes) || cs.getLast? == some '\\'
  let onLines := !isSingle || cs.length > 70 || endsOpen || allIndented || endsInQuotes
  let startsBlank := isSingle && cs.head?.any isLineStart
  let opening := if (onLines && !startsBlank) || allIndented then "\n" else ""
  let closing := if onLines || endsOpen then "\n" else ""
  "\"\"\"" ++ opening ++ String.ofList escaped ++ closing ++ "\"\"\""

def indented (s : String) : String :=
  if s = "" then "" else "  " ++ String.intercalate "\n  " (s.splitOn "\n")

/-- Items on one line, or on lines of their own. -/
def bracketed (opening separator closing : String) (pad : String) (items : List String) : String :=
  let line := opening ++ pad ++ String.intercalate separator items ++ pad ++ closing
  if line.length ≤ 80 then line
  else opening ++ "\n" ++ indented (String.intercalate "\n" items) ++ "\n" ++ closing

mutual

def Literal.text : Literal → String
  | .variable _ name => "$" ++ name
  | .int _ digits | .float _ digits => digits
  | .string _ s isBlock => if isBlock then blockStringText s else stringText s
  | .boolean _ b => if b then "true" else "false"
  | .null _ => "null"
  | .enum _ name => name
  | .list _ items => bracketed "[" ", " "]" "" (itemTexts items)
  | .object _ fields => bracketed "\x7b" ", " "\x7d" " " (fieldTexts fields)

def itemTexts : List Literal → List String
  | [] => []
  | v :: vs => v.text :: itemTexts vs

def fieldTexts : List (Name × Literal) → List String
  | [] => []
  | (n, v) :: fs => (n.text ++ ": " ++ v.text) :: fieldTexts fs

end

end ResourceGraph.Query
