import ResourceGraph.Query.Token

/-!
From characters to lexemes: a lexeme is a token with its offset, or the first thing that is wrong
with the text. Every reader here says how many characters it takes; the walk over the text then
skips them, so it goes down the list of characters.
-/

namespace ResourceGraph.Query

structure Lexeme where
  offset : Nat
  content : Except Defect Token

/-- A token and how many characters it takes, or a defect and how far from here it is. -/
abbrev Scan := Except (Nat × Defect) (Token × Nat)

def isDigit (c : Char) : Bool := '0' ≤ c && c ≤ '9'

def isNameStart (c : Char) : Bool := c.isAlpha || c == '_'

def isNameChar (c : Char) : Bool := isNameStart c || isDigit c

def isLineEnd (c : Char) : Bool := c == '\n' || c == '\r'

/-- Characters between tokens that mean nothing. -/
def isIgnored (c : Char) : Bool :=
  c == ' ' || c == '\t' || c == ',' || c == '\ufeff' || isLineEnd c

/-! Numbers -/

/-- How many digits come next, at least one. -/
def digits (taken : Nat) (cs : List Char) : Except (Nat × Defect) Nat :=
  match cs.takeWhile isDigit with
  | [] => .error (taken, .missingDigit cs.head?)
  | ds => .ok (taken + ds.length)

/-- The whole part: a zero, or digits. -/
def wholePart (cs : List Char) : Except (Nat × Defect) Nat :=
  let sign := if cs.head? = some '-' then 1 else 0
  match cs.drop sign with
  | '0' :: rest =>
    if rest.head?.any isDigit then .error (sign + 1, .digitAfterZero rest.head?)
    else .ok (sign + 1)
  | rest => digits sign rest

def fractionPart (cs : List Char) (taken : Nat) : Except (Nat × Defect) Nat :=
  match cs.drop taken with
  | '.' :: rest => digits (taken + 1) rest
  | _ => .ok taken

def exponentPart (cs : List Char) (taken : Nat) : Except (Nat × Defect) Nat :=
  match cs.drop taken with
  | [] => .ok taken
  | e :: rest =>
    if e = 'e' ∨ e = 'E' then
      let sign := if rest.head? = some '+' ∨ rest.head? = some '-' then 1 else 0
      digits (taken + 1 + sign) (rest.drop sign)
    else .ok taken

def scanNumber (cs : List Char) : Scan := do
  let whole ← wholePart cs
  let taken ← exponentPart cs (← fractionPart cs whole)
  let next := (cs.drop taken).head?
  if next.any fun c => c = '.' || isNameStart c then .error (taken, .missingDigit next)
  else
    let text := String.ofList (cs.take taken)
    .ok (if taken = whole then .int text else .float text, taken)

/-! Strings -/

/-- Four hexadecimal digits. -/
def hexUnit? : List Char → Option Nat
  | a :: b :: c :: d :: _ => Text.hexUnit? a b c d
  | _ => none

/-- A character and how many characters its escape takes. -/
abbrev Escaped := Except Defect (Char × Nat)

def scalar? (n : Nat) : Option Char := if h : n.isValidChar then some (Char.ofNatAux n h) else none

/-- The pair of a leading and a trailing unit. -/
def paired? (leading trailing : Nat) : Option Char :=
  if 0xd800 ≤ leading ∧ leading ≤ 0xdbff ∧ 0xdc00 ≤ trailing ∧ trailing ≤ 0xdfff then
    scalar? (0x10000 + (leading - 0xd800) * 0x400 + (trailing - 0xdc00))
  else none

/-- An escape with four digits, or two such for a pair, from its backslash on. -/
def fixedEscape (cs : List Char) : Escaped :=
  let refused := Except.error (.unicodeEscape (String.ofList (cs.take 6)))
  match hexUnit? (cs.drop 2) with
  | none => refused
  | some unit =>
    match scalar? unit with
    | some c => .ok (c, 6)
    | none =>
      match cs.drop 6 with
      | '\\' :: 'u' :: rest =>
        match (hexUnit? rest).bind (paired? unit) with
        | some c => .ok (c, 12)
        | none => refused
      | _ => refused

/-- The digits of an escape in braces: a number, and how many characters were looked at. -/
def bracedDigits : (room : Nat) → List Char → (value taken : Nat) → Except Nat (Nat × Nat)
  | 0, _, _, taken => .error taken
  | _ + 1, [], _, taken => .error taken
  | room + 1, c :: cs, value, taken =>
    if c = '}' then if taken < 4 then .error (taken + 1) else .ok (value, taken + 1)
    else
      match Text.hexValue? c with
      | none => .error (taken + 1)
      | some d => bracedDigits room cs (value * 16 + d) (taken + 1)

/-- An escape in braces takes at most twelve characters. -/
def bracedEscape (cs : List Char) : Escaped :=
  let refused (taken : Nat) := Except.error (.unicodeEscape (String.ofList (cs.take taken)))
  match bracedDigits 9 (cs.drop 3) 0 3 with
  | .error taken => refused taken
  | .ok (value, taken) =>
    match scalar? value with
    | some c => .ok (c, taken)
    | none => refused taken

def simpleEscape? : Char → Option Char
  | '"' => some '"'
  | '/' => some '/'
  | '\\' => some '\\'
  | 'b' => some '\x08'
  | 'f' => some '\x0c'
  | 'n' => some '\n'
  | 'r' => some '\r'
  | 't' => some '\t'
  | _ => none

/-- An escape, from its backslash on. -/
def escape (cs : List Char) : Escaped :=
  match cs.drop 1 with
  | 'u' :: '{' :: _ => bracedEscape cs
  | 'u' :: _ => fixedEscape cs
  | c :: _ =>
    match simpleEscape? c with
    | some c => .ok (c, 2)
    | none => .error (.escape (String.ofList (cs.take 2)))
  | [] => .error (.escape (String.ofList cs))

/-- The rest of a string in quotes. The characters still to be skipped belong to an escape. -/
def scanString : (skip taken : Nat) → List Char → (content : List Char) → Scan
  | _, taken, [], _ => .error (taken, .unterminatedString)
  | skip + 1, taken, _ :: cs, content => scanString skip (taken + 1) cs content
  | 0, taken, c :: cs, content =>
    if c = '"' then .ok (.string (String.ofList content.reverse), taken + 1)
    else if isLineEnd c then .error (taken, .unterminatedString)
    else if c = '\\' then
      match escape (c :: cs) with
      | .error d => .error (taken, d)
      | .ok (e, size) => scanString (size - 1) (taken + 1) cs (e :: content)
    else scanString 0 (taken + 1) cs (c :: content)

/-! Block strings -/

def isSpaceOrTab (c : Char) : Bool := c == ' ' || c == '\t'

def indentOf (line : List Char) : Nat := (line.takeWhile isSpaceOrTab).length

def isBlankLine (line : List Char) : Bool := line.all isSpaceOrTab

/-- The smallest indentation of the lines that are not blank. -/
def commonIndent (lines : List (List Char)) : Nat :=
  match (lines.filter fun l => !isBlankLine l).map indentOf with
  | [] => 0
  | n :: ns => ns.foldl min n

/-- The text of a block: without the indentation that all lines but the first share, and without
the blank lines at both ends. -/
def blockText (lines : List (List Char)) : String :=
  let indent := commonIndent (lines.drop 1)
  let blank (l : Nat × List Char) : Bool := isBlankLine l.2
  let numbered := (List.range lines.length).zip lines
  let trimmed := ((numbered.dropWhile blank).reverse.dropWhile blank).reverse
  String.intercalate "\n"
    (trimmed.map fun (i, l) => String.ofList (if i = 0 then l else l.drop indent))

/-- The rest of a block string. Lines are kept in reverse, and so are their characters. -/
def scanBlock : (skip taken : Nat) → List Char → (lines : List (List Char)) →
    (line : List Char) → Scan
  | _, taken, [], _, _ => .error (taken, .unterminatedString)
  | skip + 1, taken, _ :: cs, lines, line => scanBlock skip (taken + 1) cs lines line
  | 0, taken, c :: cs, lines, line =>
    match c, cs with
    | '"', '"' :: '"' :: _ =>
      .ok (.blockString (blockText ((line.reverse :: lines).reverse)), taken + 3)
    | '\\', '"' :: '"' :: '"' :: _ =>
      scanBlock 3 (taken + 1) cs lines ('"' :: '"' :: '"' :: line)
    | '\r', '\n' :: _ => scanBlock 1 (taken + 1) cs (line.reverse :: lines) []
    | '\r', _ => scanBlock 0 (taken + 1) cs (line.reverse :: lines) []
    | '\n', _ => scanBlock 0 (taken + 1) cs (line.reverse :: lines) []
    | c, _ => scanBlock 0 (taken + 1) cs lines (c :: line)

/-! Lexemes -/

def scanDots : List Char → Scan
  | '.' :: '.' :: '.' :: _ => .ok (.mark .spread, 3)
  | '.' :: '.' :: _ => .error (0, .dots "..")
  | cs =>
    match (cs.drop 1).takeWhile isDigit with
    | [] => .error (0, .dots ".")
    | ds => .error (0, .numberWithoutWhole (String.ofList ds))

/-- The token that starts with a character. -/
def scanToken (c : Char) (cs : List Char) : Scan :=
  match Mark.ofChar? c with
  | some m => .ok (.mark m, 1)
  | none =>
    if c = '.' then scanDots (c :: cs)
    else if c = '"' then
      match cs with
      | '"' :: '"' :: rest => scanBlock 0 3 rest [] []
      | _ => scanString 0 1 cs []
    else if isDigit c || c == '-' then scanNumber (c :: cs)
    else if isNameStart c then
      let name := c :: cs.takeWhile isNameChar
      .ok (.name (String.ofList name), name.length)
    else if c = '\x27' then .error (0, .singleQuote)
    else .error (0, .character c)

/-- The lexemes of a text, up to its end or the first defect. -/
def lexemesFrom : (skip offset : Nat) → List Char → List Lexeme
  | _, offset, [] => [⟨offset, .ok .endOfText⟩]
  | skip + 1, offset, _ :: cs => lexemesFrom skip (offset + 1) cs
  | 0, offset, c :: cs =>
    if isIgnored c then lexemesFrom 0 (offset + 1) cs
    else if c = '#' then
      lexemesFrom (cs.takeWhile fun c => !isLineEnd c).length (offset + 1) cs
    else
      match scanToken c cs with
      | .error (n, d) => [⟨offset + n, .error d⟩]
      | .ok (t, size) => ⟨offset, .ok t⟩ :: lexemesFrom (size - 1) (offset + 1) cs

def lexemes (text : String) : List Lexeme := lexemesFrom 0 0 text.toList

end ResourceGraph.Query
