import ResourceGraph.Text.Quoted

/-!
The tokens of a document, and what may be wrong with its text.
-/

namespace ResourceGraph.Query

/-- Punctuation. -/
inductive Mark where
  | bang | dollar | ampersand | openParen | closeParen | spread | colon | equals | at
  | openBracket | closeBracket | openBrace | bar | closeBrace
deriving DecidableEq

def Mark.text : Mark → String
  | .bang => "!"
  | .dollar => "$"
  | .ampersand => "&"
  | .openParen => "("
  | .closeParen => ")"
  | .spread => "..."
  | .colon => ":"
  | .equals => "="
  | .at => "@"
  | .openBracket => "["
  | .closeBracket => "]"
  | .openBrace => "\x7b"
  | .bar => "|"
  | .closeBrace => "\x7d"

/-- The mark of a single character. -/
def Mark.ofChar? : Char → Option Mark
  | '!' => some .bang
  | '$' => some .dollar
  | '&' => some .ampersand
  | '(' => some .openParen
  | ')' => some .closeParen
  | ':' => some .colon
  | '=' => some .equals
  | '@' => some .at
  | '[' => some .openBracket
  | ']' => some .closeBracket
  | '{' => some .openBrace
  | '|' => some .bar
  | '}' => some .closeBrace
  | _ => none

inductive Token where
  | endOfText
  | mark (m : Mark)
  | name (s : String)
  | int (digits : String)
  | float (digits : String)
  | string (s : String)
  | blockString (s : String)
deriving DecidableEq

/-- What the grammar asks for at a place. -/
inductive Expected where
  | endOfText
  | mark (m : Mark)
  | name
  | keyword (word : String)

def singleQuoted (s : String) : String := "'" ++ s ++ "'"

namespace Token

/-- A token in a message: its kind, and its text if there is one. -/
def described : Token → String
  | .endOfText => "<EOF>"
  | .mark m => singleQuoted m.text
  | .name s => withText "Name" s
  | .int s => withText "Int" s
  | .float s => withText "Float" s
  | .string s => withText "String" s
  | .blockString s => withText "BlockString" s
where
  withText (kind s : String) : String := if s = "" then kind else kind ++ " " ++ singleQuoted s

/-- The text that a token stands for. -/
def text : Token → String
  | .endOfText => ""
  | .mark m => m.text
  | .name s | .int s | .float s | .string s | .blockString s => s

end Token

def Expected.described : Expected → String
  | .endOfText => "<EOF>"
  | .mark m => singleQuoted m.text
  | .name => "Name"
  | .keyword word => singleQuoted word

/-- Why a text is no document. -/
inductive Defect where
  | expected (what : Expected) (found : Token)
  | unexpected (found : Token)
  | character (c : Char)
  | singleQuote
  /-- One dot or two, where only three have a meaning. -/
  | dots (found : String)
  | numberWithoutWhole (digits : String)
  | digitAfterZero (found : Option Char)
  | missingDigit (found : Option Char)
  | escape (found : String)
  | unicodeEscape (found : String)
  | unterminatedString
  | reservedValue (found : Token)
  | variableInConstant (name : String)
  | describedOperation
  /-- The nesting is deeper than the text is long. -/
  | tooDeep

structure SyntaxError where
  offset : Nat
  defect : Defect

/-- A character in a message; without one the text has ended. -/
def shownChar : Option Char → String
  | none => "<EOF>"
  | some c =>
    if 0x20 ≤ c.toNat ∧ c.toNat ≤ 0x7e then singleQuoted (String.ofList [c])
    else
      "U+" ++ String.ofList (Text.upperHexDigits 4 c.toNat)

def Defect.text : Defect → String
  | .expected what found =>
    "Expected " ++ what.described ++ ", found " ++ found.described ++ "."
  | .unexpected found => "Unexpected " ++ found.described ++ "."
  | .character c => "Unexpected character: " ++ shownChar (some c) ++ "."
  | .singleQuote =>
    "Unexpected single quote character ('), did you mean to use a double quote (\")?"
  | .dots found => "Unexpected " ++ singleQuoted found ++ ", did you mean '...'?"
  | .numberWithoutWhole digits =>
    "Invalid number, expected digit before '.', did you mean " ++ singleQuoted ("0." ++ digits)
      ++ "?"
  | .digitAfterZero c => "Invalid number, unexpected digit after 0: " ++ shownChar c ++ "."
  | .missingDigit c => "Invalid number, expected digit but got: " ++ shownChar c ++ "."
  | .escape found => "Invalid character escape sequence: " ++ singleQuoted found ++ "."
  | .unicodeEscape found => "Invalid Unicode escape sequence: " ++ singleQuoted found ++ "."
  | .unterminatedString => "Unterminated string."
  | .reservedValue found =>
    found.described ++ " is reserved and cannot be used for an enum value."
  | .variableInConstant name =>
    "Unexpected variable " ++ singleQuoted ("$" ++ name) ++ " in constant value."
  | .describedOperation =>
    "Unexpected description, descriptions are supported only on type definitions."
  | .tooDeep => "Nested too deeply."

def SyntaxError.message (e : SyntaxError) : String := "Syntax Error: " ++ e.defect.text

end ResourceGraph.Query
