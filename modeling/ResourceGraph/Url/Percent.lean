import ResourceGraph.Text.Hex

/-!
Percent-encoding: a character that may not stand for itself is written as the octets of its UTF-8
form, each a percent sign and two digits. Decoding gives the octets back.
-/

namespace ResourceGraph.Percent

/-- Characters that stand for themselves everywhere. -/
def isUnreserved (c : Char) : Bool :=
  c.isAlphanum || c == '-' || c == '.' || c == '_' || c == '~'

def octet (b : UInt8) : List Char := '%' :: Text.upperHexDigits 2 b.toNat

def encodeChar (kept : Char → Bool) (c : Char) : List Char :=
  if kept c then [c] else (String.utf8EncodeChar c).flatMap octet

def encode (kept : Char → Bool) (s : String) : String :=
  String.ofList (s.toList.flatMap (encodeChar kept))

/-- One character of a form: a blank is written as a plus sign. -/
def encodeFormChar (c : Char) : List Char := if c = ' ' then ['+'] else encodeChar isUnreserved c

def encodeForm (s : String) : String := String.ofList (s.toList.flatMap encodeFormChar)

/-- Names and values of a form. -/
def form (fields : List (String × String)) : String :=
  String.intercalate "&" (fields.map fun (k, v) => encodeForm k ++ "=" ++ encodeForm v)

/-- The octets that a text stands for. A percent sign without two digits stands for itself. -/
def octets : List Char → List UInt8
  | [] => []
  | '%' :: a :: b :: rest =>
    match Text.hexValue? a, Text.hexValue? b with
    | some x, some y => UInt8.ofNat (x * 16 + y) :: octets rest
    | _, _ => String.utf8EncodeChar '%' ++ octets (a :: b :: rest)
  | c :: rest => String.utf8EncodeChar c ++ octets rest

def decode? (s : String) : Option String := String.fromUTF8? ⟨(octets s.toList).toArray⟩

end ResourceGraph.Percent
