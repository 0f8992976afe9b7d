import ResourceGraph.Raw.Comparison

/-!
Equality of values. `looseEq` compares numbers and truth values by what they count for, whatever
their kind, and objects without order; `sameKind` keeps the kinds apart. A document has one NaN,
which as a number equals nothing but which is found where it is kept, as `innerEq` has it. On values
with knots the comparison may never end, and then they are not equal; `compare` tells these cases
apart.
-/

namespace ResourceGraph.Value

mutual

/-- Equality of what values mean: `1`, `1.0` and `true` are equal, members are unordered. -/
def looseEq : Value → Value → Bool
  | .null, w => match w with | .null => true | _ => false
  | .str s, w => match w with | .str t => s == t | _ => false
  | .arr xs, w => match w with | .arr ys => looseEqItems xs ys | _ => false
  | .obj xs, w =>
    match w with
    | .obj ys => xs.length == ys.length && looseEqMembers xs ys
    | _ => false
  | .knot k, w => match w with | .knot l => k.compare l == .same | _ => false
  | .bool b, w =>
    match w.numeric? with
    | some n => Numeric.eq (.whole (if b then 1 else 0)) n
    | none => false
  | .int m, w => match w.numeric? with | some n => Numeric.eq (.whole m) n | none => false
  | .double x, w => match w.numeric? with | some n => Numeric.eq (.binary x) n | none => false

def looseEqItems : List Value → List Value → Bool
  | [], ys => ys.isEmpty
  | x :: xs, ys =>
    match ys with
    | [] => false
    | y :: ys => (looseEq x y || (x.isNaN && y.isNaN)) && looseEqItems xs ys

/-- Every member of the first list has an equal one of its name in the second. -/
def looseEqMembers : List (String × Value) → List (String × Value) → Bool
  | [], _ => true
  | (k, x) :: xs, ys =>
    match Keyed.find? k ys with
    | some y => (looseEq x y || (x.isNaN && y.isNaN)) && looseEqMembers xs ys
    | none => false

end

/-- Equality of values inside something else, where a NaN is equal to itself. -/
def innerEq (v w : Value) : Bool := v.looseEq w || (v.isNaN && w.isNaN)

@[simp] theorem looseEqItems_cons (x y : Value) (xs ys : List Value) :
    looseEqItems (x :: xs) (y :: ys) = (x.innerEq y && looseEqItems xs ys) := rfl

mutual

/-- Compares values inside something else. -/
def compare : Value → Value → Verdict
  | .arr vs, w =>
    match w with
    | .arr ws => if vs.length = ws.length then compareItems vs ws else .different
    | _ => .different
  | .knot k, w => match w with | .knot l => k.compare l | _ => .different
  | v, w => .ofBool (v.innerEq w)

/-- Compares items one by one, and then their numbers. -/
def compareItems : List Value → List Value → Verdict
  | [], ws => .ofBool ws.isEmpty
  | v :: vs, ws =>
    match ws with
    | [] => .different
    | w :: ws => (compare v w).and (compareItems vs ws)

end

def sameKind (v w : Value) : Bool := v.kindWord == w.kindWord

/-- Whether a value counts as given: not null, false, zero or empty. -/
def truthy : Value → Bool
  | .null => false
  | .bool b => b
  | .int n => n != 0
  | .double x => !x.isZero
  | .str s => s != ""
  | .arr items => !items.isEmpty
  | .obj members => !members.isEmpty
  | .knot _ => true

/-- The member of an object; anything else has no members. -/
def get (k : String) : Value → Value
  | .obj members => (Keyed.find? k members).getD .null
  | _ => .null

end ResourceGraph.Value
