import ResourceGraph.Api.Definition
import ResourceGraph.Schema.Equality

/-!
Generated names and what they were generated from. A name may be asked for again by an equal
source; by another source or for another kind of definition it is a collision. If the comparison of
the sources never ends, neither is found out.
-/

namespace ResourceGraph

/-- What a name is generated from. -/
inductive Source (n : Nat) where
  | absent
  | literal (items : List Value)
  | node (x : Node n)

def Source.same {n : Nat} : Source n → Source n → Bool
  | .absent, .absent => true
  | .literal xs, .literal ys => Value.looseEqItems xs ys
  | .node x, .node y => x.sameOrEqual y
  | _, _ => false

/-- The same question, where a comparison may never end. -/
def Source.compare {n : Nat} : Source n → Source n → Verdict
  | .absent, .absent => .same
  | .literal xs, .literal ys => Value.compareItems xs ys
  | .node x, .node y => x.compareOnce y
  | _, _ => .different

inductive VisitState where
  | visiting
  | done
deriving DecidableEq

def VisitState.word : VisitState → String
  | .visiting => "visiting"
  | .done => "done"

/-- Two sources ask for one name. -/
structure Collision where
  name : String
  existingKind : String
  requestedKind : String

def Collision.message (c : Collision) : String :=
  if c.existingKind = c.requestedKind then
    "Generated " ++ c.requestedKind ++ " name '" ++ c.name
      ++ "' is produced by two different schemas"
  else
    "Generated name '" ++ c.name ++ "' is already used by a " ++ c.existingKind
      ++ ", cannot reuse it for a " ++ c.requestedKind

inductive CompileError where
  | schema (e : SchemaError)
  | collision (c : Collision)

def CompileError.message : CompileError → String
  | .schema e => e.message
  | .collision c => c.message

/-- The API under construction with the source and the state of every name. -/
structure Registry (n : Nat) where
  api : Api := {}
  sources : Keyed.Entries (String × Source n) := []
  states : Keyed.Entries VisitState := []

namespace Registry

variable {n : Nat} (r : Registry n)

/-- Whether a name was claimed before, by an equal source. -/
def isClaimed (name kind : String) (source : Source n) : Except Collision Bool :=
  match Keyed.find? name r.sources with
  | none => .ok false
  | some (existingKind, existing) =>
    if existingKind = kind ∧ existing.same source then .ok true
    else .error ⟨name, existingKind, kind⟩

/-- Whether the name was claimed before, for a definition of the kind, by a source that the comparison
with this one never ends for. -/
def comparesEndlessly (name kind : String) (source : Source n) : Bool :=
  match Keyed.find? name r.sources with
  | none => false
  | some (existingKind, existing) => existingKind = kind ∧ existing.compare source = .endless

/-- The answer to a request for a name. -/
def answer (name kind : String) (source : Source n) : Except CompileError Bool :=
  if r.comparesEndlessly name kind source then .error (.schema .endless)
  else (r.isClaimed name kind source).mapError .collision

/-- Reserves a name before its definition is built. -/
def claim (name kind : String) (source : Source n) : Registry n :=
  { r with
    sources := Keyed.insert name (kind, source) r.sources
    states := Keyed.insert name .visiting r.states }

def state? (name : String) : Option VisitState := Keyed.find? name r.states

def addEnum (e : EnumDef) : Registry n :=
  { r with
    api := { r.api with enums := Keyed.insert e.name e r.api.enums }
    states := Keyed.insert e.name .done r.states }

def addType (t : TypeDef) : Registry n :=
  { r with
    api :=
      if t.isInput then { r.api with inputs := Keyed.insert t.name t r.api.inputs }
      else { r.api with types := Keyed.insert t.name t r.api.types }
    states := Keyed.insert t.name .done r.states }

end Registry

end ResourceGraph
