import ResourceGraph.Execution.Variables
import ResourceGraph.TypeSystem.Standard

/-!
The fields that a selection set brings into an answer, grouped by their keys. Fragments are entered
once, and directives may leave selections out.
-/

namespace ResourceGraph.Execution

open Query TypeSystem

/-- A field as selected in one place. -/
structure Selected where
  name : String
  offset : Nat
  arguments : List ArgumentNode
  body : List Selection

/-- Fields by key, in order of their first mention. -/
abbrev Groups := Keyed.Entries (List Selected)

structure Collected where
  groups : Groups := []
  /-- The fragments that have been entered. -/
  entered : List String := []

def Collected.add (c : Collected) (key : String) (f : Selected) : Collected :=
  { c with groups := Keyed.insert key ((Keyed.find? key c.groups).getD [] ++ [f]) c.groups }

/-- What a selection is collected with. -/
structure Scope where
  types : TypeSystem
  document : Document
  values : Variables

variable (s : Scope)

/-- The condition of a directive, if it stands in the list. -/
def conditionOf (name : String) (ds : List DirectiveNode) : Except Complaint (Option Bool) :=
  match ds.find? (·.name.text == name) with
  | none => .ok none
  | some d => do
    match ← argumentValues s.types s.values ("@" ++ name) d.arguments condition with
    | [(_, .bool b)] => return some b
    | _ => return none

/-- Whether a selection takes part: it is not skipped, and not excluded. -/
def isIncluded (ds : List DirectiveNode) : Except Complaint Bool := do
  if (← conditionOf s "skip" ds) = some true then return false
  else return (← conditionOf s "include" ds) ≠ some false

/-- Collects from a selection set in an object of a type; `room` counts the fragments that can
still be entered. -/
def collect (type : String) : (room : Nat) → List Selection → Collected →
    Except Complaint Collected
  | _, [], c => .ok c
  | room, .field label name args ds _ body :: rest, c => do
    if ← isIncluded s ds then
      let f : Selected := ⟨name.text, Selection.fieldOffset label name, args, body⟩
      collect type room rest (c.add (Selection.responseKey label name) f)
    else collect type room rest c
  | room, .inline _ condition ds _ body :: rest, c => do
    if (← isIncluded s ds) && condition.all (·.text == type) then
      collect type room rest (← collect type room body c)
    else collect type room rest c
  | 0, .spread .. :: rest, c => collect type 0 rest c
  | room + 1, .spread _ name ds :: rest, c => do
    if name.text ∈ c.entered || !(← isIncluded s ds) then collect type (room + 1) rest c
    else
      let c := { c with entered := name.text :: c.entered }
      match s.document.lastFragment? name.text with
      | some f =>
        if f.condition.text = type then
          collect type (room + 1) rest (← collect type room f.body c)
        else collect type (room + 1) rest c
      | none => collect type (room + 1) rest c
termination_by room body => (room, sizeOf body)

/-- The groups of several selection sets together. -/
def collectAll (type : String) : List (List Selection) → Collected → Except Complaint Collected
  | [], c => .ok c
  | body :: rest, c => do
    collectAll type rest (← collect s type (s.document.parts.length + 1) body c)

/-- The fields of an answer from the selection sets of all fields that share a place in it. -/
def groupsOf (type : String) (bodies : List (List Selection)) : Except Complaint Groups :=
  (collectAll s type bodies {}).map (·.groups)

end ResourceGraph.Execution
