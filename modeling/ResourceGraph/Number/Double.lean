/-!
Binary floating-point numbers of 64 bits, held as their bits: equality is decidable, and reading,
comparing, adding and truncating are exact integer arithmetic with one rounding rule,
`ofRatio` (nearest, a tie to the even neighbour).
-/

namespace ResourceGraph

def pow2 (n : Nat) : Nat := Nat.pow 2 n

def pow10 (n : Nat) : Nat := Nat.pow 10 n

structure Double where
  bits : UInt64
deriving DecidableEq, Inhabited, Repr

namespace Double

/-- What a bit pattern stands for; the finite ones are `(-1)^neg * m * 2^q`. -/
inductive Parts where
  | finite (neg : Bool) (m : Nat) (q : Int)
  | infinite (neg : Bool)
  | nan
deriving DecidableEq, Repr

def parts (x : Double) : Parts :=
  let b := x.bits.toNat
  let neg := decide (pow2 63 ≤ b)
  let e : Nat := b / pow2 52 % pow2 11
  let f : Nat := b % pow2 52
  if e = 2047 then (if f = 0 then .infinite neg else .nan)
  else if e = 0 then .finite neg f (-1074)
  else .finite neg (pow2 52 + f) ((e : Int) - 1075)

def ofMagnitude (neg : Bool) (b : Nat) : Double :=
  ⟨UInt64.ofNat (if neg then pow2 63 + b else b)⟩

def infinity (neg : Bool) : Double := ofMagnitude neg (2047 * pow2 52)

def nan : Double := ofMagnitude false (2047 * pow2 52 + pow2 51)

def zero (neg : Bool) : Double := ofMagnitude neg 0

/-- The quotient rounded to the nearest natural number, a tie to the even one. -/
def roundHalfEven (num den : Nat) : Nat :=
  let d := num / den
  let r := num % den
  if 2 * r < den then d
  else if 2 * r > den then d + 1
  else if d % 2 = 0 then d else d + 1

/-- `num / den` measured in units of `2^q`, as a fraction. -/
def inUnits (num den : Nat) (q : Int) : Nat × Nat :=
  if 0 ≤ q then (num, den * pow2 q.toNat) else (num * pow2 (-q).toNat, den)

/-- The double nearest to `num / den`. The exponent field and the fraction are one number, so a
carry out of the fraction is a carry into the exponent. -/
def ofRatio (neg : Bool) (num den : Nat) : Double :=
  if num = 0 then zero neg
  else
    let k : Int := (num.log2 : Int) - den.log2
    let q0 : Int := max (k - 53) (-1074)
    let (a, b) := inUnits num den q0
    let q : Int := if pow2 53 * b ≤ a then q0 + 1 else q0
    let (a, b) := inUnits num den q
    let m := roundHalfEven a b
    let e := (q + 1074).toNat * pow2 52 + m
    if 2047 * pow2 52 ≤ e then infinity neg else ofMagnitude neg e

/-- The double nearest to `(-1)^neg * m * 2^q`. -/
def ofDyadic (neg : Bool) (m : Nat) (q : Int) : Double :=
  if 0 ≤ q then ofRatio neg (m * pow2 q.toNat) 1 else ofRatio neg m (pow2 (-q).toNat)

/-- The double nearest to `(-1)^neg * m * 10^e`. Exponents far outside the range are cut short. -/
def ofDecimal (neg : Bool) (m : Nat) (e : Int) : Double :=
  if m = 0 then zero neg
  else
    let size : Int := (Nat.toDigits 10 m).length + e
    if 400 < size then infinity neg
    else if size < -400 then zero neg
    else if 0 ≤ e then ofRatio neg (m * pow10 e.toNat) 1
    else ofRatio neg m (pow10 (-e).toNat)

def ofInt (n : Int) : Double := ofRatio (decide (n < 0)) n.natAbs 1

def isFinite (x : Double) : Bool :=
  match x.parts with
  | .finite .. => true
  | _ => false

def isNaN (x : Double) : Bool :=
  match x.parts with
  | .nan => true
  | _ => false

/-- The integer a finite double is cut to, toward zero. -/
def truncate? (x : Double) : Option Int :=
  match x.parts with
  | .finite neg m q =>
    let a : Nat := if 0 ≤ q then m * pow2 q.toNat else m / pow2 (-q).toNat
    some (if neg then -(a : Int) else a)
  | _ => none

/-- The integer that a double is equal to, if there is one. -/
def toInt? (x : Double) : Option Int :=
  match x.parts with
  | .finite neg m q =>
    if 0 ≤ q then
      let a : Nat := m * pow2 q.toNat
      some (if neg then -(a : Int) else a)
    else if m % pow2 (-q).toNat = 0 then
      let a : Nat := m / pow2 (-q).toNat
      some (if neg then -(a : Int) else a)
    else none
  | _ => none

def isZero (x : Double) : Bool :=
  match x.parts with
  | .finite _ m _ => m = 0
  | _ => false

/-- Equality of numbers: both zeros are one number, and a NaN equals nothing. -/
def numEq (x y : Double) : Bool :=
  !x.isNaN && !y.isNaN && (x == y || (x.isZero && y.isZero))

private def signed (neg : Bool) (m : Nat) : Int := if neg then -(m : Int) else m

/-- The sum of two doubles, rounded once. -/
def add (x y : Double) : Double :=
  match x.parts, y.parts with
  | .nan, _ => nan
  | _, .nan => nan
  | .infinite s, .infinite t => if s = t then infinity s else nan
  | .infinite s, _ => infinity s
  | _, .infinite t => infinity t
  | .finite s m q, .finite t n r =>
    if m = 0 ∧ n = 0 then zero (s && t)
    else
      let u := min q r
      let sum := signed s (m * pow2 (q - u).toNat) + signed t (n * pow2 (r - u).toNat)
      if sum = 0 then zero false else ofDyadic (decide (sum < 0)) sum.natAbs u

end Double

end ResourceGraph
