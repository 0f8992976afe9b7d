import ResourceGraph.Schema.Node
import ResourceGraph.Value

/-!
Structural equality of schema nodes. Where they come from does not count, except for references:
a reference equals only itself. Properties are compared without order, required names with it. Where
nodes keep knots, the comparison may never end; `compare` goes through two nodes part by part, in
order, and tells whether it does.
-/

namespace ResourceGraph.Node

variable {n : Nat}

mutual

def looseEq : Node n → Node n → Bool
  | .scalar _ type format, other =>
    match other with
    | .scalar _ type' format' => type.innerEq type' && format.innerEq format'
    | _ => false
  | .enumeration _ values type, other =>
    match other with
    | .enumeration _ values' type' => Value.looseEqItems values values' && type.innerEq type'
    | _ => false
  | .array _ items, other =>
    match other with
    | .array _ items' => looseEqOption items items'
    | _ => false
  | .composite _ kind branches, other =>
    match other with
    | .composite _ kind' branches' => kind = kind' && looseEqItems branches branches'
    | _ => false
  | .object _ properties required additional otherAdditional, other =>
    match other with
    | .object _ properties' required' additional' otherAdditional' =>
      properties.length == properties'.length && looseEqMembers properties properties'
        && required == required' && looseEqOption additional additional'
        && otherAdditional.innerEq otherAdditional'
    | _ => false
  | .ref serial target, other =>
    match other with
    | .ref serial' target' => serial == serial' && target == target'
    | _ => false

def looseEqOption : Option (Node n) → Option (Node n) → Bool
  | none, other => other.isNone
  | some a, other => match other with | some b => looseEq a b | none => false

def looseEqItems : List (Node n) → List (Node n) → Bool
  | [], bs => bs.isEmpty
  | a :: as, bs =>
    match bs with
    | [] => false
    | b :: bs => looseEq a b && looseEqItems as bs

def looseEqMembers : List (String × Node n) → List (String × Node n) → Bool
  | [], _ => true
  | (k, a) :: as, bs =>
    match Keyed.find? k bs with
    | some b => looseEq a b && looseEqMembers as bs
    | none => false

end

/-- Compares two values, the second with the first if `flipped`. -/
def compareKept (flipped : Bool) (v w : Value) : Verdict :=
  if flipped then w.compare v else v.compare w

def compareKeptItems (flipped : Bool) (vs ws : List Value) : Verdict :=
  if flipped then Value.compareItems ws vs else Value.compareItems vs ws

/-- Compares the properties of the given names, in order, each by the comparison of its name. -/
def compareNamed (comparisons : Keyed.Entries (Node n → Verdict))
    (others : Keyed.Entries (Node n)) : List String → Verdict
  | [] => .same
  | name :: names =>
    match Keyed.find? name comparisons, Keyed.find? name others with
    | some f, some y => (f y).and (compareNamed comparisons others names)
    | _, _ => .different

mutual

/-- Compares two nodes, the second with the first if `flipped`. Of two objects with as many properties
the one on the left is gone through, and the other's are on the left when properties are compared. -/
def compare (flipped : Bool) : Node n → Node n → Verdict
  | .scalar _ type format, other =>
    match other with
    | .scalar _ type' format' =>
      (compareKept flipped type type').and (compareKept flipped format format')
    | _ => .different
  | .enumeration _ values type, other =>
    match other with
    | .enumeration _ values' type' =>
      (compareKeptItems flipped values values').and (compareKept flipped type type')
    | _ => .different
  | .array _ items, other =>
    match other with
    | .array _ items' => compareOption flipped items items'
    | _ => .different
  | .composite _ kind branches, other =>
    match other with
    | .composite _ kind' branches' =>
      (Verdict.ofBool (kind = kind')).and (compareItems flipped branches branches')
    | _ => .different
  | .object _ properties required additional otherAdditional, other =>
    match other with
    | .object _ properties' required' additional' otherAdditional' =>
      let names := Keyed.keys (if flipped then properties' else properties)
      (Verdict.ofBool (properties.length == properties'.length)).and <|
      (compareNamed (comparers (!flipped) properties) properties' names).and <|
      (Verdict.ofBool (required == required')).and <|
      (compareOption flipped additional additional').and <|
      compareKept flipped otherAdditional otherAdditional'
    | _ => .different
  | .ref serial target, other =>
    match other with
    | .ref serial' target' => .ofBool (serial == serial' && target == target')
    | _ => .different

def compareOption (flipped : Bool) : Option (Node n) → Option (Node n) → Verdict
  | none, other => .ofBool other.isNone
  | some x, other => match other with | some y => compare flipped x y | none => .different

/-- Compares items one by one, and then their numbers. -/
def compareItems (flipped : Bool) : List (Node n) → List (Node n) → Verdict
  | [], ys => .ofBool ys.isEmpty
  | x :: xs, ys =>
    match ys with
    | [] => .different
    | y :: ys => (compare flipped x y).and (compareItems flipped xs ys)

/-- The comparisons with the nodes of properties, by name. -/
def comparers (flipped : Bool) : List (String × Node n) → Keyed.Entries (Node n → Verdict)
  | [] => []
  | (name, x) :: rest => (name, compare flipped x) :: comparers flipped rest

end

/-- The raw object that a node is read from; a node of the same object is the same node. -/
inductive Identity (n : Nat) where
  | source (id : Fin n)
  | merged (composite : Fin n)
  | serial (k : Nat)
deriving DecidableEq

def identity : Node n → Identity n
  | .scalar (.parsed i) _ _ => .source i
  | .scalar (.serial k) _ _ => .serial k
  | .enumeration i _ _ => .source i
  | .array i _ => .source i
  | .composite i _ _ => .source i
  | .object (.parsed i) _ _ _ _ => .source i
  | .object (.merged i) _ _ _ _ => .merged i
  | .ref k _ => .serial k

/-- Equality that takes one node to be equal to itself without looking inside. -/
def sameOrEqual (a b : Node n) : Bool := a.identity = b.identity || looseEq a b

/-- The comparison that takes one node to be equal to itself without looking inside. -/
def compareOnce (a b : Node n) : Verdict :=
  if a.identity = b.identity then .same else compare false a b

end ResourceGraph.Node
