import ResourceGraph.Keyed
import ResourceGraph.Measure
import ResourceGraph.Number.Double

/-!
Raw schema documents as a graph. Every JSON object has a number, and a value refers to an object by
its number: the same object may be used in several places, also inside itself.
-/

namespace ResourceGraph

/-- A JSON value whose objects are references. -/
inductive Raw (ι : Type) where
  | null
  | bool (b : Bool)
  | int (n : Int)
  | double (x : Double)
  | str (s : String)
  | arr (items : List (Raw ι))
  | obj (ref : ι)
deriving Inhabited

namespace Raw

variable {ι κ : Type}

section

variable [DecidableEq ι]

mutual

/-- Whether two values are the same in every part. -/
def identical : Raw ι → Raw ι → Bool
  | .null, .null => true
  | .bool b, .bool c => b == c
  | .int m, .int n => m == n
  | .double x, .double y => x == y
  | .str s, .str t => s == t
  | .arr vs, .arr ws => identicalItems vs ws
  | .obj i, .obj j => i == j
  | _, _ => false

def identicalItems : List (Raw ι) → List (Raw ι) → Bool
  | [], [] => true
  | v :: vs, w :: ws => identical v w && identicalItems vs ws
  | _, _ => false

end

mutual

theorem identical_iff : (v w : Raw ι) → (identical v w = true ↔ v = w)
  | .null, w | .bool _, w | .int _, w | .double _, w | .str _, w | .obj _, w => by
      cases w <;> simp [identical]
  | .arr vs, w => by cases w <;> simp [identical, identicalItems_iff vs]

theorem identicalItems_iff : (vs ws : List (Raw ι)) → (identicalItems vs ws = true ↔ vs = ws)
  | [], ws => by cases ws <;> simp [identicalItems]
  | v :: vs, ws => by cases ws <;> simp [identicalItems, identical_iff v, identicalItems_iff vs]

end

instance : DecidableEq (Raw ι) := fun v w => decidable_of_iff _ (identical_iff v w)

end

mutual

def map (f : ι → κ) : Raw ι → Raw κ
  | .null => .null
  | .bool b => .bool b
  | .int n => .int n
  | .double x => .double x
  | .str s => .str s
  | .arr items => .arr (mapItems f items)
  | .obj i => .obj (f i)

def mapItems (f : ι → κ) : List (Raw ι) → List (Raw κ)
  | [] => []
  | v :: vs => map f v :: mapItems f vs

end

mutual

/-- The objects of a value that are not inside another object. -/
def refs : Raw ι → List ι
  | .obj i => [i]
  | .arr items => refsOf items
  | _ => []

def refsOf : List (Raw ι) → List ι
  | [] => []
  | v :: vs => refs v ++ refsOf vs

end

def kindWord : Raw ι → String
  | .null => "NoneType"
  | .bool _ => "bool"
  | .int _ => "int"
  | .double _ => "float"
  | .str _ => "str"
  | .arr _ => "list"
  | .obj _ => "dict"

/-- Whether a value is the given word. -/
def isWord (w : String) : Raw ι → Bool
  | .str s => s == w
  | _ => false

end Raw

/-- A reference to one of `n` objects. -/
abbrev RawValue (n : Nat) := Raw (Fin n)

-- The objects of a small graph are written as numerals.
instance (priority := 2000) neZero_one : @NeZero Nat Zero.ofOfNat0 1 := ⟨Nat.succ_ne_zero 0⟩
instance (priority := 2000) neZero_two : @NeZero Nat Zero.ofOfNat0 2 := ⟨Nat.succ_ne_zero 1⟩
instance (priority := 2000) neZero_three : @NeZero Nat Zero.ofOfNat0 3 := ⟨Nat.succ_ne_zero 2⟩
instance (priority := 2000) neZero_four : @NeZero Nat Zero.ofOfNat0 4 := ⟨Nat.succ_ne_zero 3⟩
instance (priority := 2000) neZero_five : @NeZero Nat Zero.ofOfNat0 5 := ⟨Nat.succ_ne_zero 4⟩
instance (priority := 2000) neZero_six : @NeZero Nat Zero.ofOfNat0 6 := ⟨Nat.succ_ne_zero 5⟩
instance (priority := 2000) neZero_seven : @NeZero Nat Zero.ofOfNat0 7 := ⟨Nat.succ_ne_zero 6⟩
instance (priority := 2000) neZero_eight : @NeZero Nat Zero.ofOfNat0 8 := ⟨Nat.succ_ne_zero 7⟩

/-- A graph of objects, each of which has distinct names for its members. -/
structure RawGraph where
  size : Nat
  objects : Vector (List (String × RawValue size)) size
  nodup : ∀ i : Fin size, (Keyed.keys (objects.get i)).Nodup
deriving DecidableEq

namespace RawGraph

variable (g : RawGraph)

def members (i : Fin g.size) : List (String × RawValue g.size) := g.objects.get i

/-- The member of an object; null if there is none. -/
def get (i : Fin g.size) (k : String) : RawValue g.size :=
  (Keyed.find? k (g.members i)).getD .null

/-- Whether no path from an object has this many objects or more. -/
def endsWithin : Nat → Fin g.size → Bool
  | 0, _ => false
  | limit + 1, i => (g.members i).all fun p => p.2.refs.all (endsWithin limit)

/-- Whether an object is a finite tree: nothing in it contains itself. -/
def ends (i : Fin g.size) : Bool := g.endsWithin g.size i

/-- Whether a value counts as given: not null, false, zero or empty. -/
def truthy : RawValue g.size → Bool
  | .null => false
  | .bool b => b
  | .int n => n != 0
  | .double x => !x.isZero
  | .str s => s != ""
  | .arr items => !items.isEmpty
  | .obj i => !(g.members i).isEmpty

end RawGraph

end ResourceGraph
