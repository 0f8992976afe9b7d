import ResourceGraph.Number.Double

/-!
The shortest decimal that reads back as a given double, and the layout in which it is written:
positional when the decimal exponent lies in a range, scientific otherwise.
-/

namespace ResourceGraph

/-- A positive decimal: the digits form `digits`, and the value is `digits * 10^exponent`. -/
structure Decimal where
  digits : Nat
  exponent : Int
deriving DecidableEq, Repr

namespace Shortest

/-- A positive real interval of decimals, as numerators over one denominator. -/
structure Interval where
  low : Nat
  value : Nat
  high : Nat
  den : Nat
  closed : Bool

/-- The reals that round to `m * 2^q`; the ends belong to it when `m` is even. -/
def interval (m : Nat) (q : Int) : Interval :=
  let gapBelow := if m = pow2 52 ∧ -1074 < q then 1 else 2
  let up := pow2 (q - 2).toNat
  { low := (4 * m - gapBelow) * up
    value := 4 * m * up
    high := (4 * m + 2) * up
    den := pow2 (2 - q).toNat
    closed := m % 2 = 0 }

/-- Whether `d * 10^e` lies in the interval. -/
def Interval.holds (i : Interval) (d : Nat) (e : Int) : Bool :=
  let p := d * pow10 e.toNat * i.den
  let s := pow10 (-e).toNat
  if i.closed then i.low * s ≤ p && p ≤ i.high * s else i.low * s < p && p < i.high * s

/-- The least `k` with `value < 10^k`, found by correcting an estimate. -/
def magnitude (i : Interval) : Int :=
  let bits : Int := (i.value.log2 : Int) - i.den.log2
  let guess : Int := bits * 30103 / 100000 - 1
  let below (k : Int) : Bool :=
    if 0 ≤ k then i.value < pow10 k.toNat * i.den else i.value * pow10 (-k).toNat < i.den
  ((List.range 5).map fun (j : Nat) => guess + (j : Int)).find? below |>.getD (guess + 5)

/-- The point of the grid of `n` digits that is in the interval and nearest to the value; of two
equally near ones the even. -/
def onGrid? (i : Interval) (k : Int) (n : Nat) : Option Decimal :=
  let e := k - n
  let num := i.value * pow10 (-e).toNat
  let den := i.den * pow10 e.toNat
  let d := num / den
  let r := num % den
  let lower := i.holds d e
  let upper := i.holds (d + 1) e
  if lower && upper then
    if 2 * r < den then some ⟨d, e⟩
    else if 2 * r > den then some ⟨d + 1, e⟩
    else if d % 2 = 0 then some ⟨d, e⟩ else some ⟨d + 1, e⟩
  else if lower then some ⟨d, e⟩
  else if upper then some ⟨d + 1, e⟩
  else none

/-- The decimal with the fewest digits that rounds to `m * 2^q`. Seventeen digits always do. -/
def decimal (m : Nat) (q : Int) : Decimal :=
  let i := interval m q
  let k := magnitude i
  ((List.range 18).findSome? (onGrid? i k)).getD ⟨m, q⟩

end Shortest

/-- How a double is written: the decimal exponents that are written positionally, the least number
of digits of a written exponent, and the words for the special values. -/
structure NumberLayout where
  positionalFrom : Int
  positionalTo : Int
  exponentDigits : Nat
  infinityText : String
  nanText : String

namespace NumberLayout

private def stripZeros (fuel : Nat) (d : Nat) (e : Int) : Nat × Int :=
  match fuel with
  | 0 => (d, e)
  | fuel + 1 => if d % 10 = 0 ∧ d ≠ 0 then stripZeros fuel (d / 10) (e + 1) else (d, e)

private def zeros (n : Nat) : List Char := List.replicate n '0'

private def exponentText (l : NumberLayout) (e : Int) : List Char :=
  let digits := Nat.toDigits 10 e.natAbs
  'e' :: (if e < 0 then '-' else '+') :: zeros (l.exponentDigits - digits.length) ++ digits

/-- The text of a positive decimal. A positional text always shows a fraction. -/
def decimalText (l : NumberLayout) (x : Decimal) : List Char :=
  let (d, e) := stripZeros 400 x.digits x.exponent
  let digits := Nat.toDigits 10 d
  let n := digits.length
  let point : Int := n + e
  let exponent := point - 1
  if l.positionalFrom ≤ exponent ∧ exponent < l.positionalTo then
    if point ≤ 0 then "0.".toList ++ zeros (-point).toNat ++ digits
    else if (n : Int) ≤ point then digits ++ zeros (point - n).toNat ++ ".0".toList
    else digits.take point.toNat ++ '.' :: digits.drop point.toNat
  else
    match digits with
    | [c] => c :: l.exponentText exponent
    | c :: rest => c :: '.' :: rest ++ l.exponentText exponent
    | [] => []

/-- The text of a double. -/
def text (l : NumberLayout) (x : Double) : String :=
  let sign (neg : Bool) : String := if neg then "-" else ""
  match x.parts with
  | .nan => l.nanText
  | .infinite neg => sign neg ++ l.infinityText
  | .finite neg m q =>
    if m = 0 then sign neg ++ "0.0"
    else sign neg ++ String.ofList (l.decimalText (Shortest.decimal m q))

end NumberLayout

end ResourceGraph
