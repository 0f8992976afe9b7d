import ResourceGraph.Text.Hex
import ResourceGraph.Value

/-!
Reading JSON text. Every reading function gives back the rest of the text together with the fact
that it is shorter, so the reader ends on every text. A fault keeps the text from where it was
noticed; its place is worked out from what is left.
-/

namespace ResourceGraph

namespace Json

/-- What is wrong with a text. -/
inductive Problem where
  | expectingValue
  | expectingComma
  | expectingColon
  | expectingName
  | extraData
  | invalidEscape
  | invalidUnicodeEscape
  | controlCharacter
  | unterminatedString
  | byteOrderMark

def Problem.message : Problem → String
  | .expectingValue => "Expecting value"
  | .expectingComma => "Expecting ',' delimiter"
  | .expectingColon => "Expecting ':' delimiter"
  | .expectingName => "Expecting property name enclosed in double quotes"
  | .extraData => "Extra data"
  | .invalidEscape => "Invalid \\escape"
  | .invalidUnicodeEscape => "Invalid \\uXXXX escape"
  | .controlCharacter => "Invalid control character at"
  | .unterminatedString => "Unterminated string starting at"
  | .byteOrderMark => "Unexpected UTF-8 BOM (decode using utf-8-sig)"

structure Fault where
  problem : Problem
  rest : List Char

/-- A result with the text after it. -/
structure Step (α : Type) (cs : List Char) where
  value : α
  rest : List Char
  shorter : rest.length < cs.length

abbrev Reading (α : Type) (cs : List Char) := Except Fault (Step α cs)

def isJsonBlank (c : Char) : Bool := c == ' ' || c == '\t' || c == '\n' || c == '\r'

def skipBlanks (cs : List Char) : List Char := cs.dropWhile isJsonBlank

theorem length_skipBlanks_le (cs : List Char) : (skipBlanks cs).length ≤ cs.length :=
  (List.dropWhile_sublist _).length_le

/-- Half of a pair stands for no character; it is read as the replacement character. -/
def unitChar (n : Nat) : Char :=
  if 0xd800 ≤ n ∧ n ≤ 0xdfff then '\ufffd' else Char.ofNat n

/-- The second half of a pair, if it follows with at least one more character after it. -/
def secondHalf : List Char → Except Fault (Option Nat)
  | '\\' :: 'u' :: a :: b :: c :: d :: x :: rest =>
    match Text.hexUnit? a b c d with
    | none => .error ⟨.invalidUnicodeEscape, 'u' :: a :: b :: c :: d :: x :: rest⟩
    | some low => .ok (if 0xdc00 ≤ low ∧ low < 0xe000 then some low else none)
  | _ => .ok none

/-- Reads after `\u`. Four digits have to follow and then at least one more character. The text
`start` begins with the `u`. -/
def readUnicode (start : List Char) : (cs : List Char) → Reading Char cs
  | a :: b :: c :: d :: x :: rest =>
    match Text.hexUnit? a b c d with
    | none => .error ⟨.invalidUnicodeEscape, start⟩
    | some high =>
      if 0xd800 ≤ high ∧ high < 0xdc00 then
        match secondHalf (x :: rest) with
        | .error f => .error f
        | .ok none => .ok ⟨unitChar high, x :: rest, by simp⟩
        | .ok (some low) =>
          .ok ⟨Char.ofNat (0x10000 + (high - 0xd800) * 0x400 + (low - 0xdc00)),
            (x :: rest).drop 6, by simp; omega⟩
      else .ok ⟨unitChar high, x :: rest, by simp⟩
  | _ => .error ⟨.invalidUnicodeEscape, start⟩

/-- Reads after a backslash, which the text `start` begins with. -/
def readEscape (opening start : List Char) : (cs : List Char) → Reading Char cs
  | [] => .error ⟨.unterminatedString, opening⟩
  | c :: rest =>
    match c with
    | '\x22' | '\\' | '/' => .ok ⟨c, rest, by simp⟩
    | 'b' => .ok ⟨'\x08', rest, by simp⟩
    | 'f' => .ok ⟨'\x0c', rest, by simp⟩
    | 'n' => .ok ⟨'\n', rest, by simp⟩
    | 'r' => .ok ⟨'\r', rest, by simp⟩
    | 't' => .ok ⟨'\t', rest, by simp⟩
    | 'u' =>
      match readUnicode (c :: rest) rest with
      | .error f => .error f
      | .ok s => .ok ⟨s.value, s.rest, by have := s.shorter; simp; omega⟩
    | _ => .error ⟨.invalidEscape, start⟩

/-- Reads after an opening quote, which the text `opening` begins with; `acc` is what has been read,
in reverse. -/
def readString (opening acc : List Char) (cs : List Char) : Reading String cs :=
  match cs with
  | [] => .error ⟨.unterminatedString, opening⟩
  | c :: rest =>
    if c = '\x22' then .ok ⟨String.ofList acc.reverse, rest, by simp⟩
    else if c = '\\' then
      match readEscape opening (c :: rest) rest with
      | .error f => .error f
      | .ok s =>
        have hs : s.rest.length < rest.length := s.shorter
        match readString opening (s.value :: acc) s.rest with
        | .error f => .error f
        | .ok t => .ok ⟨t.value, t.rest, by have := t.shorter; simp; omega⟩
    else if c.toNat < 0x20 then .error ⟨.controlCharacter, c :: rest⟩
    else
      match readString opening (c :: acc) rest with
      | .error f => .error f
      | .ok t => .ok ⟨t.value, t.rest, by have := t.shorter; simp; omega⟩
termination_by cs.length
decreasing_by all_goals simp; try omega

def isDigit (c : Char) : Bool := '0' ≤ c && c ≤ '9'

def natOfDigits (ds : List Char) : Nat := ds.foldl (fun n d => n * 10 + (d.toNat - 48)) 0

/-- The parts of a number: digits before the point, after it, and the exponent. -/
structure NumberText where
  neg : Bool
  whole : List Char
  fraction : Option (List Char)
  exponent : Option Int

def NumberText.value (t : NumberText) : Value :=
  match t.fraction, t.exponent with
  | none, none =>
    let n : Int := natOfDigits t.whole
    .int (if t.neg then -n else n)
  | f, e =>
    let f := f.getD []
    .double (.ofDecimal t.neg (natOfDigits (t.whole ++ f)) (e.getD 0 - f.length))

/-- Splits off a fraction, a point with a digit after it. -/
def splitFraction : List Char → Option (List Char) × List Char
  | '.' :: d :: rest =>
    if isDigit d then (some (d :: rest.takeWhile isDigit), rest.dropWhile isDigit)
    else (none, '.' :: d :: rest)
  | cs => (none, cs)

/-- Splits off an exponent, which has at least one digit. -/
def splitExponent (cs : List Char) : Option Int × List Char :=
  match cs with
  | e :: rest =>
    if e = 'e' ∨ e = 'E' then
      let (neg, rest) :=
        match rest with
        | '-' :: r => (true, r)
        | '+' :: r => (false, r)
        | r => (false, r)
      let ds := rest.takeWhile isDigit
      let n : Int := natOfDigits ds
      if ds.isEmpty then (none, cs) else (some (if neg then -n else n), rest.dropWhile isDigit)
    else (none, cs)
  | [] => (none, cs)

def splitWhole : List Char → Option (List Char × List Char)
  | c :: rest =>
    if c = '0' then some ([c], rest)
    else if isDigit c then some (c :: rest.takeWhile isDigit, rest.dropWhile isDigit)
    else none
  | [] => none

/-- The longest number at the front of a text. -/
def splitNumber (cs : List Char) : Option (Value × List Char) :=
  let (neg, body) :=
    match cs with
    | '-' :: rest => (true, rest)
    | _ => (false, cs)
  (splitWhole body).map fun (whole, rest) =>
    let (fraction, rest) := splitFraction rest
    let (exponent, rest) := splitExponent rest
    ((NumberText.mk neg whole fraction exponent).value, rest)

/-- The words that stand for values, the longer ones first. -/
def words : List (List Char × Value) := [
  ("null".toList, .null), ("true".toList, .bool true), ("false".toList, .bool false),
  ("NaN".toList, .double .nan), ("Infinity".toList, .double (.infinity false)),
  ("-Infinity".toList, .double (.infinity true))]

def splitWord (cs : List Char) : Option (Value × List Char) :=
  words.findSome? fun (w, v) => if w.isPrefixOf cs then some (v, cs.drop w.length) else none

/-- A word or a number. What is left is always shorter, for each of them has a character. -/
def readAtom (cs : List Char) : Reading Value cs :=
  match (splitWord cs).orElse fun _ => splitNumber cs with
  | none => .error ⟨.expectingValue, cs⟩
  | some (v, rest) =>
    if h : rest.length < cs.length then .ok ⟨v, rest, h⟩ else .error ⟨.expectingValue, cs⟩

mutual

def readValue (cs : List Char) : Reading Value cs :=
  match cs with
  | [] => .error ⟨.expectingValue, []⟩
  | c :: rest =>
    if c = '\x22' then
      match readString (c :: rest) [] rest with
      | .error f => .error f
      | .ok s => .ok ⟨.str s.value, s.rest, by have := s.shorter; simp; omega⟩
    else if c = '\x7b' then
      have hb := length_skipBlanks_le rest
      match h : skipBlanks rest with
      | [] => .error ⟨.expectingName, []⟩
      | d :: rest' =>
        have hl : rest'.length + 1 ≤ rest.length := by rw [h] at hb; simpa using hb
        if d = '\x7d' then .ok ⟨.obj [], rest', by simp; omega⟩
        else
          match readMembers [] (d :: rest') with
          | .error f => .error f
          | .ok s => .ok ⟨.obj s.value, s.rest, by have := s.shorter; simp at this ⊢; omega⟩
    else if c = '[' then
      have hb := length_skipBlanks_le rest
      match h : skipBlanks rest with
      | [] => .error ⟨.expectingValue, []⟩
      | d :: rest' =>
        have hl : rest'.length + 1 ≤ rest.length := by rw [h] at hb; simpa using hb
        if d = ']' then .ok ⟨.arr [], rest', by simp; omega⟩
        else
          match readItems [] (d :: rest') with
          | .error f => .error f
          | .ok s => .ok ⟨.arr s.value, s.rest, by have := s.shorter; simp at this ⊢; omega⟩
    else readAtom (c :: rest)
termination_by (cs.length, 0)
decreasing_by all_goals simp_wf; omega

/-- Reads items up to the closing bracket; `acc` holds the ones before, in reverse. -/
def readItems (acc : List Value) (cs : List Char) : Reading (List Value) cs :=
  match readValue cs with
  | .error f => .error f
  | .ok s =>
    have hs := s.shorter
    have hb := length_skipBlanks_le s.rest
    match h : skipBlanks s.rest with
    | [] => .error ⟨.expectingComma, []⟩
    | d :: rest =>
      have hl : rest.length + 1 ≤ s.rest.length := by rw [h] at hb; simpa using hb
      if d = ']' then .ok ⟨(s.value :: acc).reverse, rest, by omega⟩
      else if d = ',' then
        have hc := length_skipBlanks_le rest
        match readItems (s.value :: acc) (skipBlanks rest) with
        | .error f => .error f
        | .ok t => .ok ⟨t.value, t.rest, by have := t.shorter; omega⟩
      else .error ⟨.expectingComma, d :: rest⟩
termination_by (cs.length, 1)
decreasing_by all_goals omega

/-- Reads members up to the closing brace. Of two members of one name the last counts. -/
def readMembers (acc : List (String × Value)) (cs : List Char) :
    Reading (List (String × Value)) cs :=
  match cs with
  | [] => .error ⟨.expectingName, []⟩
  | c :: rest =>
    if c = '\x22' then
      match readString (c :: rest) [] rest with
      | .error f => .error f
      | .ok name =>
        have hn := name.shorter
        have hb := length_skipBlanks_le name.rest
        match h : skipBlanks name.rest with
        | [] => .error ⟨.expectingColon, []⟩
        | d :: rest₁ =>
          have h₁ : rest₁.length + 1 ≤ name.rest.length := by rw [h] at hb; simpa using hb
          if d = ':' then
            have hc := length_skipBlanks_le rest₁
            match readValue (skipBlanks rest₁) with
            | .error f => .error f
            | .ok s =>
              have hs := s.shorter
              have hd := length_skipBlanks_le s.rest
              match h' : skipBlanks s.rest with
              | [] => .error ⟨.expectingComma, []⟩
              | e :: rest₂ =>
                have h₂ : rest₂.length + 1 ≤ s.rest.length := by rw [h'] at hd; simpa using hd
                let members := Keyed.insert name.value s.value acc
                if e = '\x7d' then .ok ⟨members, rest₂, by simp; omega⟩
                else if e = ',' then
                  have he := length_skipBlanks_le rest₂
                  match readMembers members (skipBlanks rest₂) with
                  | .error f => .error f
                  | .ok t => .ok ⟨t.value, t.rest, by have := t.shorter; simp; omega⟩
                else .error ⟨.expectingComma, e :: rest₂⟩
          else .error ⟨.expectingColon, d :: rest₁⟩
    else .error ⟨.expectingName, c :: rest⟩
termination_by (cs.length, 1)
decreasing_by all_goals simp_wf; omega

end

/-- A problem and its place: characters before it, its line and its column. -/
structure ReadError where
  problem : Problem
  offset : Nat
  line : Nat
  column : Nat

def ReadError.message (e : ReadError) : String :=
  e.problem.message ++ ": line " ++ toString e.line ++ " column " ++ toString e.column
    ++ " (char " ++ toString e.offset ++ ")"

def Fault.locate (text : List Char) (f : Fault) : ReadError :=
  let offset := text.length - f.rest.length
  let before := text.take offset
  { problem := f.problem
    offset
    line := before.count '\n' + 1
    column := (before.reverse.takeWhile (· != '\n')).length + 1 }

/-- Reads a whole text. -/
def read (s : String) : Except ReadError Value :=
  let cs := s.toList
  if cs.head? = some '\ufeff' then .error (Fault.locate cs ⟨.byteOrderMark, cs⟩)
  else
    match readValue (skipBlanks cs) with
    | .error f => .error (f.locate cs)
    | .ok s =>
      let rest := skipBlanks s.rest
      if rest.isEmpty then .ok s.value else .error (Fault.locate cs ⟨.extraData, rest⟩)

/-- Line ends as a text file is read: each of the three forms becomes a line feed. -/
def unifyLineEnds : List Char → List Char
  | '\r' :: '\n' :: rest => '\n' :: unifyLineEnds rest
  | '\r' :: rest => '\n' :: unifyLineEnds rest
  | c :: rest => c :: unifyLineEnds rest
  | [] => []

def readFileText (s : String) : Except ReadError Value :=
  read (String.ofList (unifyLineEnds s.toList))

end Json

end ResourceGraph
