import ResourceGraph.Query.Error
import ResourceGraph.Query.Printer
import ResourceGraph.Query.Suggestion
import ResourceGraph.TypeSystem.Standard
import ResourceGraph.Validation.Visit

/-!
Fields with one key in an answer have to be one field. All fields that a selection set brings
together are compared in pairs, with those of fragments that it mentions and with what the fields
themselves select. What has been compared once is not compared again.
-/

namespace ResourceGraph.Validation

open Query

/-- A field and the object type in which it stands. -/
structure FieldUse where
  parent : Option String
  offset : Nat
  name : String
  arguments : List ArgumentNode
  type : Option TypeRef
  bodyOffset : Option Nat
  body : List Selection

/-- The fields of a selection set by their keys, the fragments that it mentions, and where it
stands. -/
structure FieldMap where
  offset : Nat
  fields : Keyed.Entries (List FieldUse)
  fragments : List String

/-- Why two fields cannot be merged. -/
inductive Reason where
  | differentFields (a b : String)
  | differentArguments
  | differentTypes (a b : TypeRef)
  | subfields (reasons : List (String × Reason))

mutual

def Reason.text : Reason → String
  | .differentFields a b => "'" ++ a ++ "' and '" ++ b ++ "' are different fields"
  | .differentArguments => "they have differing arguments"
  | .differentTypes a b => "they return conflicting types '" ++ a.text ++ "' and '" ++ b.text ++ "'"
  | .subfields rs => String.intercalate " and " (reasonTexts rs)

def reasonTexts : List (String × Reason) → List String
  | [] => []
  | (key, r) :: rs => ("subfields '" ++ key ++ "' conflict because " ++ r.text) :: reasonTexts rs

end

/-- Fields that cannot be merged, those on the one side and those on the other. -/
structure Conflict where
  key : String
  reason : Reason
  left : List Nat
  right : List Nat

def Conflict.error (c : Conflict) : QueryError :=
  { message :=
      "Fields '" ++ c.key ++ "' conflict because " ++ c.reason.text
        ++ ". Use different aliases on the fields to fetch both if this was intentional."
    offsets := c.left ++ c.right }

/-! Arguments -/

mutual

/-- A literal with the fields of every object in the order of their names. -/
def sortedLiteral : Literal → Literal
  | .list o ls => .list o (sortedItems ls)
  | .object o fs =>
    .object o ((sortedFields fs).mergeSort fun f g =>
      naturalLe (naturalKey f.1.text.toList) (naturalKey g.1.text.toList))
  | .variable o n => .variable o n
  | .int o ds => .int o ds
  | .float o ds => .float o ds
  | .string o s b => .string o s b
  | .boolean o b => .boolean o b
  | .null o => .null o
  | .enum o n => .enum o n

def sortedItems : List Literal → List Literal
  | [] => []
  | l :: ls => sortedLiteral l :: sortedItems ls

def sortedFields : List (Name × Literal) → List (Name × Literal)
  | [] => []
  | (n, l) :: fs => (n, sortedLiteral l) :: sortedFields fs

end

def sameArguments (xs ys : List ArgumentNode) : Bool :=
  xs.length == ys.length && xs.all fun x =>
    match ys.reverse.find? (·.name.text == x.name.text) with
    | some y => (sortedLiteral x.value).text == (sortedLiteral y.value).text
    | none => false

variable (t : TypeSystem)

/-! Fields of a selection set -/

def FieldMap.add (m : FieldMap) (key : String) (f : FieldUse) : FieldMap :=
  { m with fields := Keyed.insert key ((Keyed.find? key m.fields).getD [] ++ [f]) m.fields }

def FieldMap.mention (m : FieldMap) (name : String) : FieldMap :=
  if name ∈ m.fragments then m else { m with fragments := m.fragments ++ [name] }

mutual

def addSelection (parent : Option String) (m : FieldMap) : Selection → FieldMap
  | .field label name args _ bodyOffset body =>
    let type :=
      (parent.bind t.objectFields?).bind fun fs =>
        (fs.find? (·.name == name.text)).map OutputField.type
    m.add (Selection.responseKey label name)
      ⟨objectName? t parent, Selection.fieldOffset label name, name.text, args, type, bodyOffset,
        body⟩
  | .spread _ name _ => m.mention name.text
  | .inline _ condition _ _ body =>
    addSelections (match condition with | some n => some n.text | none => parent) m body

def addSelections (parent : Option String) (m : FieldMap) : List Selection → FieldMap
  | [] => m
  | s :: rest => addSelections parent (addSelection parent m s) rest

end

def fieldMap (parent : Option String) (offset : Nat) (body : List Selection) : FieldMap :=
  addSelections t parent ⟨offset, [], []⟩ body

def isLeafType (type : TypeRef) : Bool := (t.type? type.name).any NamedType.isLeaf

/-- Whether values of two types could not stand in one place. -/
def typesConflict : TypeRef → TypeRef → Bool
  | .list a, .list b => typesConflict a b
  | .list _, _ | _, .list _ => true
  | .nonNull a, .nonNull b => typesConflict a b
  | .nonNull _, _ | _, .nonNull _ => true
  | .named a, .named b => (isLeafType t (.named a) || isLeafType t (.named b)) && a != b

/-! Comparison -/

/-- Pairs that have been compared, and whether they were compared as exclusive. -/
structure Compared where
  fieldsAndFragments : List (Nat × String × Bool) := []
  fragments : List (String × String × Bool) := []

/-- Whether a comparison for two parts was made that is at least as strict. -/
def wasCompared {α : Type} [BEq α] (a : α) (b : String) (exclusive : Bool)
    (pairs : List (α × String × Bool)) : Bool :=
  match pairs.find? fun p => p.1 == a && p.2.1 == b with
  | some p => exclusive || !p.2.2
  | none => false

/-- What is compared with what. Of exclusive fields only one is ever asked for. -/
inductive Comparison where
  | fields (exclusive : Bool) (key : String) (f g : FieldUse)
  | maps (exclusive : Bool) (m n : FieldMap)
  | mapAndFragment (exclusive : Bool) (m : FieldMap) (fragment : String)
  | fragments (exclusive : Bool) (a b : String)

/-- Two fields of one key, apart from what they select. -/
def ownConflict? (exclusive : Bool) (f g : FieldUse) : Option Reason :=
  if !exclusive && f.name != g.name then some (.differentFields f.name g.name)
  else if !exclusive && !sameArguments f.arguments g.arguments then some .differentArguments
  else
    match f.type, g.type with
    | some a, some b => if typesConflict t a b then some (.differentTypes a b) else none
    | _, _ => none

/-- What has to be compared for the selections of two fields. -/
def subComparisons (exclusive : Bool) (f g : FieldUse) : List Comparison :=
  match f.bodyOffset, g.bodyOffset with
  | some o, some o' =>
    let m := fieldMap t (f.type.map (·.name)) o f.body
    let n := fieldMap t (g.type.map (·.name)) o' g.body
    .maps exclusive m n
      :: n.fragments.map (.mapAndFragment exclusive m)
      ++ m.fragments.map (.mapAndFragment exclusive n)
      ++ m.fragments.flatMap fun a => n.fragments.map fun b => .fragments exclusive a b
  | _, _ => []

def pairsBetween (exclusive : Bool) (m n : FieldMap) : List Comparison :=
  m.fields.flatMap fun (key, fs) =>
    match Keyed.find? key n.fields with
    | none => []
    | some gs => fs.flatMap fun f => gs.map fun g => .fields exclusive key f g

def fragmentMap (f : Fragment) : FieldMap :=
  fieldMap t ((t.type? f.condition.text).map (·.name)) f.bodyOffset f.body

variable (d : Document)

/-- The next comparisons for a map and a fragment, once for each pair. -/
def againstFragment (exclusive : Bool) (m : FieldMap) (name : String) :
    StateM Compared (List Comparison) := do
  let s ← get
  if wasCompared m.offset name exclusive s.fieldsAndFragments then return []
  set { s with fieldsAndFragments := (m.offset, name, exclusive) :: s.fieldsAndFragments }
  match d.lastFragment? name with
  | none => return []
  | some f =>
    let n := fragmentMap t f
    if m.offset = n.offset then return []
    else return .maps exclusive m n :: n.fragments.map (.mapAndFragment exclusive m)

/-- The next comparisons for two fragments, once for each pair. -/
def betweenFragments (exclusive : Bool) (a b : String) :
    StateM Compared (List Comparison) := do
  if a = b then return []
  let s ← get
  let (x, y) := if a < b then (a, b) else (b, a)
  if wasCompared x y exclusive s.fragments then return []
  set { s with fragments := (x, y, exclusive) :: s.fragments }
  match d.lastFragment? a, d.lastFragment? b with
  | some f, some g =>
    let m := fragmentMap t f
    let n := fragmentMap t g
    return .maps exclusive m n :: n.fragments.map (.fragments exclusive a)
      ++ m.fragments.map fun c => .fragments exclusive c b
  | _, _ => return []

/-- Compares, `room` levels deep. -/
def compare : (room : Nat) → Comparison → StateM Compared (List Conflict)
  | 0, _ => return []
  | room + 1, .fields exclusive key f g => do
    let exclusive := exclusive || (f.parent != g.parent && f.parent.isSome && g.parent.isSome)
    match ownConflict? t exclusive f g with
    | some r => return [⟨key, r, [f.offset], [g.offset]⟩]
    | none =>
      let cs := (← (subComparisons t exclusive f g).mapM (compare room)).flatten
      if cs.isEmpty then return []
      return [⟨key, .subfields (cs.map fun c => (c.key, c.reason)),
        f.offset :: cs.flatMap (·.left), g.offset :: cs.flatMap (·.right)⟩]
  | room + 1, .maps exclusive m n => do
    return (← (pairsBetween exclusive m n).mapM (compare room)).flatten
  | room + 1, .mapAndFragment exclusive m name => do
    return (← (← againstFragment t d exclusive m name).mapM (compare room)).flatten
  | room + 1, .fragments exclusive a b => do
    return (← (← betweenFragments t d exclusive a b).mapM (compare room)).flatten

/-- The pairs of a list, in order of their first and then of their second part. -/
def pairsOf {α : Type} : List α → List (α × α)
  | [] => []
  | a :: as => as.map (a, ·) ++ pairsOf as

/-- All that has to be compared for a selection set. -/
def setComparisons (m : FieldMap) : List Comparison :=
  m.fields.flatMap (fun (key, fs) => (pairsOf fs).map fun (f, g) => .fields false key f g)
    ++ againstRest m.fragments
where
  againstRest : List String → List Comparison
    | [] => []
    | a :: rest =>
      .mapAndFragment false m a :: rest.map (.fragments false a) ++ againstRest rest

/-- Every level enters a field, a map or a fragment; there are no more levels than pairs of
those. -/
def levels : Nat :=
  let n := d.selectionCount + d.parts.length + 2
  n * n * n

/-- The conflicts within a selection set. -/
def setConflicts (parent : Option String) (offset : Nat) (body : List Selection) :
    StateM Compared (List Conflict) := do
  let m := fieldMap t parent offset body
  return (← (setComparisons m).mapM (compare t d (levels d))).flatten

end ResourceGraph.Validation
