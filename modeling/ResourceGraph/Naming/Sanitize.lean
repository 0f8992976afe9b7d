import ResourceGraph.Text.Blank
import ResourceGraph.Text.Case
import ResourceGraph.Value.Display

/-!
Names that GraphQL takes. A name is a letter or an underscore followed by letters, digits and
underscores, all of ASCII; names that start with two underscores are reserved.
-/

namespace ResourceGraph.Naming

def isNameChar (c : Char) : Bool := c.isAlphanum || c == '_'

/-- A separator becomes an underscore in the name of an enum value. -/
def isSeparator (c : Char) : Bool := c == '-' || c == '.' || Text.isBlank c

/-- Two or more underscores at the front become one. -/
def foldReserved : List Char → List Char
  | '_' :: '_' :: rest => '_' :: rest.dropWhile (· == '_')
  | cs => cs

/-- A digit at the front gets an underscore before it. -/
def guardDigit : List Char → List Char
  | [] => []
  | c :: rest => if c.isDigit then '_' :: c :: rest else c :: rest

/-- The text from which the name of an enum value is made. -/
def enumText : Value → String
  | .bool b => if b then "true" else "false"
  | .null => "null"
  | v => v.plain

def sanitizeEnumText (text : String) : String :=
  let kept := (text.toList.map fun c => if isSeparator c then '_' else c).filter isNameChar
  match foldReserved (guardDigit kept) with
  | [] => "unknown"
  | cs => String.ofList cs

def sanitizeEnumValue (v : Value) : String := sanitizeEnumText (enumText v)

def sanitizeFieldName (name : String) : String :=
  match name.toList with
  | [] => "unknown"
  | cs => String.ofList
      (foldReserved (guardDigit (cs.map fun c => if isNameChar c then c else '_')))

/-- The name of a type: the prefix, then the capitalized base, without all other characters. -/
def typeName (base : String) (parent : String) : String :=
  let name := if parent = "" then base else parent ++ Text.capitalize base
  let kept := name.toList.filter isNameChar
  Text.capitalize (String.ofList (foldReserved (guardDigit kept)))

end ResourceGraph.Naming
