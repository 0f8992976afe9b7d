/-!
Hexadecimal digits. They are written in lower or in upper case and read in both.
-/

namespace ResourceGraph.Text

/-- The number in at least `n` digits. -/
def hexDigits (n : Nat) (k : Nat) : List Char :=
  let ds := Nat.toDigits 16 k
  List.replicate (n - ds.length) '0' ++ ds

def upperHexDigits (n : Nat) (k : Nat) : List Char := (hexDigits n k).map Char.toUpper

def hexValue? (c : Char) : Option Nat :=
  if '0' ≤ c ∧ c ≤ '9' then some (c.toNat - '0'.toNat)
  else if 'a' ≤ c ∧ c ≤ 'f' then some (c.toNat - 'a'.toNat + 10)
  else if 'A' ≤ c ∧ c ≤ 'F' then some (c.toNat - 'A'.toNat + 10)
  else none

/-- The number of four digits. -/
def hexUnit? (a b c d : Char) : Option Nat := do
  let a ← hexValue? a
  let b ← hexValue? b
  let c ← hexValue? c
  let d ← hexValue? d
  return ((a * 16 + b) * 16 + c) * 16 + d

end ResourceGraph.Text
