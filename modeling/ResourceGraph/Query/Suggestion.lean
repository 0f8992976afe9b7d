import ResourceGraph.Text.Case

/-!
Names that may have been meant. Two names are as far apart as the insertions, deletions, exchanges
and swaps of neighbours that lead from one to the other, all but one of them in lower case; a name
is suggested if it is near for the length of what was written.
-/

namespace ResourceGraph.Query

/-- One row of distances: of the prefixes of `b` to the prefix of `a` that ends with `c`. `up` is
the row before; a swap also looks at the row `upper` two before, whose character was `c'`. -/
def distanceRow (c : Char) (swap : Option (Char × List Nat)) (b : List Char) (up : List Nat) :
    List Nat :=
  let first := up.headD 0 + 1
  go b none up (swap.map (·.2)) first [first]
where
  go : List Char → Option Char → List Nat → Option (List Nat) → Nat → List Nat → List Nat
    | [], _, _, _, _, row => row.reverse
    | x :: xs, before, up, upper, left, row =>
      let diagonal := up.headD 0
      let above := (up.drop 1).headD 0
      let plain := min (min (above + 1) (left + 1)) (diagonal + if c = x then 0 else 1)
      let cell :=
        match swap, before, upper with
        | some (c', _), some y, some values =>
          if c = y ∧ c' = x then min plain (values.headD 0 + 1) else plain
        | _, _, _ => plain
      let upper := if before.isSome then upper.map (List.drop 1) else upper
      go xs (some x) (up.drop 1) upper cell (cell :: row)

def distanceFrom (b : List Char) : List Char → Option (Char × List Nat) → List Nat → Nat
  | [], _, row => row.getLast?.getD 0
  | c :: a, swap, row => distanceFrom b a (some (c, row)) (distanceRow c swap b row)

/-- The number of edits between two texts. -/
def editDistance (a b : List Char) : Nat := distanceFrom b a none (List.range (b.length + 1))

/-- How far a name is from what was written. A change of case alone counts as one edit. -/
def nameDistance (written option : String) : Nat :=
  if written = option then 0
  else
    let w := Text.lower written
    let o := Text.lower option
    if w = o then 1 else editDistance o.toList w.toList

/-- A name cut into texts and numbers, by turns. -/
def naturalKey (cs : List Char) : List (List Char × Nat) :=
  go [] [] cs
where
  go (text digits : List Char) : List Char → List (List Char × Nat)
    | [] => [(text.reverse, numberOf digits)]
    | c :: cs =>
      if c.isDigit then go text (c :: digits) cs
      else if digits.isEmpty then go (c :: text) [] cs
      else (text.reverse, numberOf digits) :: go [c] [] cs
  numberOf (digits : List Char) : Nat :=
    digits.reverse.foldl (fun n d => n * 10 + (d.toNat - '0'.toNat)) 0

def naturalLe : List (List Char × Nat) → List (List Char × Nat) → Bool
  | [], _ => true
  | _ :: _, [] => false
  | (s, m) :: xs, (t, n) :: ys =>
    if s = t then if m = n then naturalLe xs ys else m < n else s < t

/-- The names near to what was written, the nearest first. -/
def suggestions (written : String) (options : List String) : List String :=
  let threshold := written.length * 2 / 5 + 1
  let measured := options.eraseDups.map fun o => (nameDistance written o, o)
  let near := measured.filter fun p => p.1 ≤ threshold
  let le (p q : Nat × String) : Bool :=
    if p.1 = q.1 then naturalLe (naturalKey p.2.toList) (naturalKey q.2.toList) else p.1 < q.1
  (near.mergeSort le).map (·.2)

/-- The question that lists at most five names; nothing if there are none. -/
def didYouMean (kind : String) (names : List String) : String :=
  let quoted := (names.take 5).map fun n => "'" ++ n ++ "'"
  let opening := " Did you mean " ++ if kind = "" then "" else kind ++ " "
  match quoted with
  | [] => ""
  | [a] => opening ++ a ++ "?"
  | [a, b] => opening ++ a ++ " or " ++ b ++ "?"
  | _ =>
    opening ++ String.intercalate ", " quoted.dropLast ++ ", or " ++ quoted.getLast?.getD "" ++ "?"

end ResourceGraph.Query
