import ResourceGraph.Keyed
import ResourceGraph.Text.Case

/-!
Singular names. A resource has a plural name; its type and its single-item field have the singular
one. The suffix rules are those of English; a table of irregular nouns may stand in front of them.
-/

namespace ResourceGraph

namespace Naming

/-- A text in reverse, without one line feed at its end. Suffix rules look through that line feed. -/
def beforeLineEnd (rev : List Char) : List Char :=
  match rev with
  | '\n' :: rest => rest
  | _ => rev

def endsInSibilant : List Char → Bool
  | 's' :: 's' :: _ | 'x' :: _ | 'z' :: _ | 'h' :: 'c' :: _ | 'h' :: 's' :: _ => true
  | _ => false

/-- `ies` becomes `y`, `es` goes after a sibilant, `s` goes unless another `s` is before it. The
suffix may stand before a final line feed; what goes is counted from the very end all the same,
except that `ies` is replaced where it stands. -/
def englishSingular (name : String) : String :=
  let rev := name.toList.reverse
  match beforeLineEnd rev with
  | 's' :: 'e' :: 'i' :: stem =>
    let tail := rev.take (rev.length - (beforeLineEnd rev).length)
    String.ofList (stem.reverse ++ 'y' :: tail.reverse)
  | 's' :: 'e' :: stem =>
    if endsInSibilant stem then String.ofList (rev.drop 2).reverse
    else String.ofList (rev.drop 1).reverse
  | 's' :: 's' :: _ => name
  | 's' :: _ => String.ofList (rev.drop 1).reverse
  | _ => name

end Naming

/-- How singular names are found. -/
inductive Naming where
  /-- The English suffix rules. -/
  | english
  /-- Every name is its own singular. -/
  | same
  /-- A table from plurals in lower case to singulars, before another rule. -/
  | irregular (table : List (String × String)) (fallback : Naming)
  /-- A rule of one's own. -/
  | custom (rule : String → String)
deriving Inhabited

namespace Naming

/-- A table of irregular nouns, which are looked up whatever their case. -/
def ofIrregulars (nouns : List (String × String)) (fallback : Naming) : Naming :=
  .irregular (Keyed.ofPairs (nouns.map fun (plural, singular) => (Text.lower plural, singular)))
    fallback

def startsUpper (name : String) : Bool :=
  match name.toList with
  | [] => false
  | c :: _ => Text.isUpper c

/-- A name that starts in upper case has an irregular singular that does. -/
def singular : Naming → String → String
  | .english, name => englishSingular name
  | .same, name => name
  | .custom rule, name => rule name
  | .irregular table fallback, name =>
    match Keyed.find? (Text.lower name) table with
    | none => fallback.singular name
    | some noun => if startsUpper name then Text.capitalize noun else noun

end Naming

end ResourceGraph
