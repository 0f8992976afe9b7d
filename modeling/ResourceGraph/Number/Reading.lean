import ResourceGraph.Number.Double
import ResourceGraph.Text.Blank
import ResourceGraph.Text.Digit

/-!
Numbers written by people: blanks around, a sign, digits of any script, and single underscores
between digits.
-/

namespace ResourceGraph.Reading

def natOf (ds : List Nat) : Nat := ds.foldl (fun n d => n * 10 + d) 0

/-- The digits of a text of digits in which single underscores may stand between two digits. -/
def digits? : List Char → Option (List Nat)
  | [] => none
  | [c] => (Text.digitValue? c).map ([·])
  | c :: '_' :: rest => do return (← Text.digitValue? c) :: (← digits? rest)
  | c :: rest => do return (← Text.digitValue? c) :: (← digits? rest)

def splitSign : List Char → Bool × List Char
  | '-' :: rest => (true, rest)
  | '+' :: rest => (false, rest)
  | cs => (false, cs)

def integer? (s : String) : Option Int :=
  let (neg, body) := splitSign (Text.trimBoth Text.isWhiteSpace s.toList)
  (digits? body).map fun ds => if neg then -(natOf ds : Int) else natOf ds

/-- The digits of a part that may be empty. -/
def optionalDigits? (cs : List Char) : Option (List Nat) :=
  if cs.isEmpty then some [] else digits? cs

def isMark (c : Char) : Bool := c == 'e' || c == 'E'

/-- An unsigned decimal with an optional fraction and an optional exponent. -/
def decimal? (neg : Bool) (cs : List Char) : Option Double := do
  let mantissa := cs.takeWhile (!isMark ·)
  let whole ← optionalDigits? (mantissa.takeWhile (· != '.'))
  let fraction ← optionalDigits? ((mantissa.dropWhile (· != '.')).drop 1)
  if whole.isEmpty && fraction.isEmpty then none
  else
    let exponent ←
      match cs.dropWhile (!isMark ·) with
      | [] => some 0
      | _ :: rest =>
        let (negative, body) := splitSign rest
        (digits? body).map fun ds => if negative then -(natOf ds : Int) else (natOf ds : Int)
    return .ofDecimal neg (natOf (whole ++ fraction)) (exponent - fraction.length)

def double? (s : String) : Option Double :=
  let (neg, body) := splitSign (Text.trimBoth Text.isWhiteSpace s.toList)
  let word := String.ofList (body.map Char.toLower)
  if word = "inf" ∨ word = "infinity" then some (.infinity neg)
  else if word = "nan" then some .nan
  else decimal? neg body

end ResourceGraph.Reading
