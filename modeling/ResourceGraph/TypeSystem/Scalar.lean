import ResourceGraph.Number.Reading
import ResourceGraph.Query.Printer
import ResourceGraph.TypeSystem.Basic
import ResourceGraph.Value.Display

/-!
What the scalars accept and how they answer. Literals and variables are accepted strictly; values
that a resolver gives are converted where they mean the same.
-/

namespace ResourceGraph.Scalar

def cannotRepresent (what : String) (what' : String) (found : String) : String :=
  what ++ " cannot represent " ++ what' ++ ": " ++ found

def inRange (n : Int) : Bool := -2147483648 ≤ n && n ≤ 2147483647

/-- An integer of 32 bits. -/
def intInRange (n : Int) (found : String) : Except String Value :=
  if inRange n then .ok (.int n)
  else .error (cannotRepresent "Int" "non 32-bit signed integer value" found)

def digitsValue (s : String) : Int :=
  let (neg, ds) := Reading.splitSign s.toList
  let n := Reading.natOf (ds.map fun c => c.toNat - '0'.toNat)
  if neg then -(n : Int) else n

/-- The value of a scalar from a literal. -/
def ofLiteral (s : Scalar) (l : Query.Literal) : Except String Value :=
  match s, l with
  | .int, .int _ ds => intInRange (digitsValue ds) l.text
  | .int, _ => .error (cannotRepresent "Int" "non-integer value" l.text)
  | .float, .int _ ds | .float, .float _ ds =>
    .ok (((Reading.double? ds).map Value.double).getD .null)
  | .float, _ => .error (cannotRepresent "Float" "non numeric value" l.text)
  | .string, .string _ t _ => .ok (.str t)
  | .string, _ => .error (cannotRepresent "String" "a non string value" l.text)
  | .boolean, .boolean _ b => .ok (.bool b)
  | .boolean, _ => .error (cannotRepresent "Boolean" "a non boolean value" l.text)
  | .id, .string _ t _ => .ok (.str t)
  | .id, .int _ ds => .ok (.str ds)
  | .id, _ => .error (cannotRepresent "ID" "a non-string and non-integer value" l.text)

def losesPrecision (v : Value) : String :=
  cannotRepresent "Float" "non numeric value" v.brief ++ " (value would lose precision)"

def doubleOfInt (v : Value) (n : Int) : Except String Value :=
  let x := Double.ofInt n
  if x.toInt? = some n then .ok (.double x) else .error (losesPrecision v)

def finite (v : Value) (x : Double) : Except String Value :=
  if x.isFinite then .ok (.double x)
  else .error (cannotRepresent "Float" "non numeric value" v.brief)

/-- The value of a scalar from the value of a variable. -/
def ofValue (s : Scalar) (v : Value) : Except String Value :=
  match s, v with
  | .int, .int n => intInRange n v.brief
  | .int, .double x =>
    match x.toInt? with
    | some n => intInRange n v.brief
    | none => .error (cannotRepresent "Int" "non-integer value" v.brief)
  | .int, _ => .error (cannotRepresent "Int" "non-integer value" v.brief)
  | .float, .int n => doubleOfInt v n
  | .float, .double x => finite v x
  | .float, _ => .error (cannotRepresent "Float" "non numeric value" v.brief)
  | .string, .str t => .ok (.str t)
  | .string, _ => .error (cannotRepresent "String" "a non string value" v.brief)
  | .boolean, .bool b => .ok (.bool b)
  | .boolean, _ => .error (cannotRepresent "Boolean" "a non boolean value" v.brief)
  | .id, .str t => .ok (.str t)
  | .id, .int n => .ok (.str (toString n))
  | .id, .double x =>
    match x.toInt? with
    | some n => .ok (.str (toString n))
    | none => .error (cannotRepresent "ID" "value" v.brief)
  | .id, _ => .error (cannotRepresent "ID" "value" v.brief)

def answerInt (v : Value) : Except String Value :=
  let refused := Except.error (cannotRepresent "Int" "non-integer value" v.brief)
  match v with
  | .bool b => .ok (.int (if b then 1 else 0))
  | .int n => intInRange n v.brief
  | .double x =>
    match x.toInt? with
    | some n => intInRange n v.brief
    | none => refused
  | .str t =>
    match Reading.integer? t with
    | some n => intInRange n v.brief
    | none => refused
  | _ => refused

def answerFloat (v : Value) : Except String Value :=
  let refused := Except.error (cannotRepresent "Float" "non numeric value" v.brief)
  match v with
  | .bool b => .ok (.int (if b then 1 else 0))
  | .int n => doubleOfInt v n
  | .double x => finite v x
  | .str t =>
    match Reading.double? t with
    | some x => finite v x
    | none => refused
  | _ => refused

def answerString (v : Value) : Except String Value :=
  let refused := Except.error (cannotRepresent "String" "value" v.brief)
  match v with
  | .str t => .ok (.str t)
  | .bool b => .ok (.str (if b then "true" else "false"))
  | .int _ => .ok (.str v.plain)
  | .double x => if x.isFinite then .ok (.str v.plain) else refused
  | _ => refused

def answerBoolean (v : Value) : Except String Value :=
  let refused := Except.error (cannotRepresent "Boolean" "a non boolean value" v.brief)
  match v with
  | .bool b => .ok (.bool b)
  | .int n => .ok (.bool (n != 0))
  | .double x => if x.isFinite then .ok (.bool !x.isZero) else refused
  | _ => refused

def answerId (v : Value) : Except String Value :=
  let refused := Except.error (cannotRepresent "ID" "value" v.brief)
  match v with
  | .str t => .ok (.str t)
  | .int n => .ok (.str (toString n))
  | .double x =>
    match x.toInt? with
    | some n => .ok (.str (toString n))
    | none => refused
  | _ => refused

/-- The answer of a scalar for the value of a resolver. -/
def answer (s : Scalar) (v : Value) : Except String Value :=
  match s with
  | .int => answerInt v
  | .float => answerFloat v
  | .string => answerString v
  | .boolean => answerBoolean v
  | .id => answerId v

end ResourceGraph.Scalar
