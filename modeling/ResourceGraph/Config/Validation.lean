import ResourceGraph.Number.Reading
import ResourceGraph.Raw

/-!
Checking configuration values. A value of a neighbouring kind is taken where nothing is lost: an
integral double or a text of digits for an integer, a word such as `yes` for a truth value. All
faults of a document are reported, in the order of its fields.
-/

namespace ResourceGraph

/-- What is wrong with a value. -/
inductive Problem where
  | notModel (model : String)
  | missing
  | notInt
  | unreadableInt
  | oversizedInt
  | fractionalInt
  | notFinite
  | below (least : Int)
  | notBool
  | unreadableBool
  | notString
  | emptyString
  | notObject
deriving DecidableEq

namespace Problem

def code : Problem → String
  | .notModel _ => "model_type"
  | .missing => "missing"
  | .notInt => "int_type"
  | .unreadableInt => "int_parsing"
  | .oversizedInt => "int_parsing_size"
  | .fractionalInt => "int_from_float"
  | .notFinite => "finite_number"
  | .below _ => "greater_than_equal"
  | .notBool => "bool_type"
  | .unreadableBool => "bool_parsing"
  | .notString => "string_type"
  | .emptyString => "string_too_short"
  | .notObject => "dict_type"

def message : Problem → String
  | .notModel model => "Input should be a valid dictionary or instance of " ++ model
  | .missing => "Field required"
  | .notInt => "Input should be a valid integer"
  | .unreadableInt => "Input should be a valid integer, unable to parse string as an integer"
  | .oversizedInt => "Unable to parse input string as an integer, exceeded maximum size"
  | .fractionalInt => "Input should be a valid integer, got a number with a fractional part"
  | .notFinite => "Input should be a finite number"
  | .below least => "Input should be greater than or equal to " ++ toString least
  | .notBool => "Input should be a valid boolean"
  | .unreadableBool => "Input should be a valid boolean, unable to interpret input"
  | .notString => "Input should be a valid string"
  | .emptyString => "String should have at least 1 character"
  | .notObject => "Input should be a valid dictionary"

end Problem

/-- A problem and where it is: the names of the fields on the way to the value. -/
structure LocatedProblem where
  location : List String
  problem : Problem
deriving DecidableEq

/-- A document that is not valid as the model of that name. -/
structure Invalid where
  model : String
  complaints : List LocatedProblem

/-- A line for the model, and one for each complaint. -/
def Invalid.message (e : Invalid) : String :=
  String.intercalate "\n" (("not valid: " ++ e.model)
    :: e.complaints.map fun c =>
      String.intercalate "." c.location ++ ": " ++ c.problem.message)

namespace Validation

variable {ι α : Type}

def isAsciiDigit (c : Char) : Bool := '0' ≤ c && c ≤ '9'

/-- Digits between which single underscores may stand. -/
def plainDigits (cs : List Char) : Bool :=
  match cs with
  | [] => false
  | [c] => isAsciiDigit c
  | c :: '_' :: rest => isAsciiDigit c && plainDigits rest
  | c :: rest => isAsciiDigit c && plainDigits rest

/-- An integer text: a sign, digits, and a fraction that has zeros only. -/
def readInt (s : String) : Except Problem Int :=
  let (neg, body) := Reading.splitSign (Text.trimBoth Text.isWhiteSpace s.toList)
  let whole := body.takeWhile (· != '.')
  let fraction := (body.dropWhile (· != '.')).drop 1
  if plainDigits whole && fraction.all (· == '0') then
    let ds := whole.filter isAsciiDigit
    if 4300 < ds.length then .error .oversizedInt
    else
      let n : Int := Reading.natOf (ds.map fun d => d.toNat - '0'.toNat)
      .ok (if neg then -n else n)
  else .error .unreadableInt

def toInt : Raw ι → Except Problem Int
  | .int n => .ok n
  | .bool b => .ok (if b then 1 else 0)
  | .double x =>
    if !x.isFinite then .error .notFinite
    else
      match x.toInt? with
      | none => .error .fractionalInt
      | some n => if n.natAbs < pow2 63 then .ok n else .error .oversizedInt
  | .str s => readInt s
  | _ => .error .notInt

def trueWords : List String := ["1", "on", "t", "true", "y", "yes"]

def falseWords : List String := ["0", "off", "f", "false", "n", "no"]

def readBool (s : String) : Except Problem Bool :=
  let word := String.ofList (s.toList.map Char.toLower)
  if word ∈ trueWords then .ok true
  else if word ∈ falseWords then .ok false
  else .error .unreadableBool

def toBool : Raw ι → Except Problem Bool
  | .bool b => .ok b
  | .int n => if n = 0 then .ok false else if n = 1 then .ok true else .error .unreadableBool
  | .double x =>
    if x.toInt? = some 0 then .ok false
    else if x.toInt? = some 1 then .ok true
    else .error .unreadableBool
  | .str s => readBool s
  | _ => .error .notBool

/-- An integer that is not less than a bound. -/
def atLeast (least : Int) (v : Raw ι) : Except Problem { n : Int // least ≤ n } :=
  match toInt v with
  | .error p => .error p
  | .ok n => if h : least ≤ n then .ok ⟨n, h⟩ else .error (.below least)

/-- The first of several names under which a member is given. -/
def given (names : List String) (members : List (String × Raw ι)) : Option (String × Raw ι) :=
  names.findSome? fun k => (Keyed.find? k members).map fun v => (k, v)

abbrev Checked (α : Type) := Except (List LocatedProblem) α

def field (names : List String) (members : List (String × Raw ι))
    (check : Raw ι → Except Problem α) (default : Except Problem α) : Checked α :=
  match given names members with
  | some (k, v) =>
    match check v with
    | .ok a => .ok a
    | .error p => .error [⟨[k], p⟩]
  | none =>
    match default with
    | .ok a => .ok a
    | .error p => .error [⟨names.take 1, p⟩]

def complaintsOf : Checked α → List LocatedProblem
  | .ok _ => []
  | .error cs => cs

end Validation

end ResourceGraph
