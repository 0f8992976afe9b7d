import ResourceGraph.Schema.Node

namespace ResourceGraph

namespace Value

mutual

/-- Whether two values are the same in every part. -/
def identical : Value → Value → Bool
  | .null, .null => true
  | .bool b, .bool c => b == c
  | .int m, .int n => m == n
  | .double x, .double y => x == y
  | .str s, .str t => s == t
  | .arr vs, .arr ws => identicalItems vs ws
  | .obj ms, .obj ns => identicalMembers ms ns
  | .knot k, .knot l => k == l
  | _, _ => false

def identicalItems : List Value → List Value → Bool
  | [], [] => true
  | v :: vs, w :: ws => identical v w && identicalItems vs ws
  | _, _ => false

def identicalMembers : List (String × Value) → List (String × Value) → Bool
  | [], [] => true
  | (k, v) :: ms, (l, w) :: ns => k == l && identical v w && identicalMembers ms ns
  | _, _ => false

end

mutual

theorem identical_iff : (v w : Value) → (identical v w = true ↔ v = w)
  | .null, w | .bool _, w | .int _, w | .double _, w | .str _, w | .knot _, w => by
      cases w <;> simp [identical]
  | .arr vs, w => by cases w <;> simp [identical, identicalItems_iff vs]
  | .obj ms, w => by cases w <;> simp [identical, identicalMembers_iff ms]

theorem identicalItems_iff : (vs ws : List Value) → (identicalItems vs ws = true ↔ vs = ws)
  | [], ws => by cases ws <;> simp [identicalItems]
  | v :: vs, ws => by cases ws <;> simp [identicalItems, identical_iff v, identicalItems_iff vs]

theorem identicalMembers_iff : (ms ns : List (String × Value)) →
    (identicalMembers ms ns = true ↔ ms = ns)
  | [], ns => by cases ns <;> simp [identicalMembers]
  | (k, v) :: ms, [] => by simp [identicalMembers]
  | (k, v) :: ms, (l, w) :: ns => by
      simp [identicalMembers, identical_iff v, identicalMembers_iff ms]

end

instance : DecidableEq Value := fun v w => decidable_of_iff _ (identical_iff v w)

end Value

namespace Node

variable {n : Nat}

mutual

/-- Whether two nodes are the same in every part. -/
def identical : Node n → Node n → Bool
  | .scalar key type format, .scalar key' type' format' =>
    key == key' && type == type' && format == format'
  | .enumeration id values type, .enumeration id' values' type' =>
    id == id' && values == values' && type == type'
  | .array id items, .array id' items' => id == id' && identical? items items'
  | .composite id kind branches, .composite id' kind' branches' =>
    id == id' && kind == kind' && identicalItems branches branches'
  | .object key properties required additional other,
    .object key' properties' required' additional' other' =>
    key == key' && identicalMembers properties properties' && required == required'
      && identical? additional additional' && other == other'
  | .ref serial target, .ref serial' target' => serial == serial' && target == target'
  | _, _ => false

def identical? : Option (Node n) → Option (Node n) → Bool
  | none, none => true
  | some x, some y => identical x y
  | _, _ => false

def identicalItems : List (Node n) → List (Node n) → Bool
  | [], [] => true
  | x :: xs, y :: ys => identical x y && identicalItems xs ys
  | _, _ => false

def identicalMembers : List (String × Node n) → List (String × Node n) → Bool
  | [], [] => true
  | (k, x) :: ms, (l, y) :: ns => k == l && identical x y && identicalMembers ms ns
  | _, _ => false

end

mutual

theorem identical_iff : (x y : Node n) → (identical x y = true ↔ x = y)
  | .scalar _ _ _, y | .enumeration _ _ _, y | .ref _ _, y => by
      cases y <;> simp [identical, and_assoc]
  | .array _ items, y => by cases y <;> simp [identical, identical?_iff items]
  | .composite _ _ branches, y => by
      cases y <;> simp [identical, identicalItems_iff branches, and_assoc]
  | .object _ properties _ additional _, y => by
      cases y <;> simp [identical, identicalMembers_iff properties, identical?_iff additional,
        and_assoc]

theorem identical?_iff : (x y : Option (Node n)) → (identical? x y = true ↔ x = y)
  | none, y => by cases y <;> simp [identical?]
  | some x, y => by cases y <;> simp [identical?, identical_iff x]

theorem identicalItems_iff : (xs ys : List (Node n)) → (identicalItems xs ys = true ↔ xs = ys)
  | [], ys => by cases ys <;> simp [identicalItems]
  | x :: xs, ys => by cases ys <;> simp [identicalItems, identical_iff x, identicalItems_iff xs]

theorem identicalMembers_iff : (ms ns : List (String × Node n)) →
    (identicalMembers ms ns = true ↔ ms = ns)
  | [], ns => by cases ns <;> simp [identicalMembers]
  | (k, x) :: ms, [] => by simp [identicalMembers]
  | (k, x) :: ms, (l, y) :: ns => by
      simp [identicalMembers, identical_iff x, identicalMembers_iff ms]

end

instance : DecidableEq (Node n) := fun x y => decidable_of_iff _ (identical_iff x y)

end Node

deriving instance DecidableEq for NodeTable

end ResourceGraph
