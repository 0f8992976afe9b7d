import ResourceGraph.Execution.Basic
import ResourceGraph.TypeSystem.Construction
import ResourceGraph.Validation.Rules

/-!
The engine behind a service: it builds type systems from schema texts, reads and validates documents,
and executes them with the resolvers of a service. A service asks nothing else of it.
-/

namespace ResourceGraph

open Query

structure Request where
  query : String
  values : Keyed.Entries Value := []
  operationName : Option String := none
  headers : Keyed.Entries Value := []

/-- What becomes of a field: its part of the answer, none if the type has no such field, or an error
that has to end further up; and the errors that ended inside. -/
structure FieldResult where
  value : Except QueryError (Option Value)
  errors : List QueryError

class GraphQL where
  Document : Type
  /-- A field where it is selected in a document. -/
  Selection : Type
  fieldName : Selection → String
  /-- The key of the field in the answer. -/
  key : Selection → String
  /-- The selection of a field by nothing but its name. -/
  select : (name : String) → Selection
  fieldName_select : ∀ name, fieldName (select name) = name
  build : (text : String) → Except TypeSystem.BuildError TypeSystem
  parse : (query : String) → Except QueryError Document
  validate : TypeSystem → (introspection : Bool) → Document → List QueryError
  /-- The data and the errors of an answer. -/
  execute {σ : Type} : TypeSystem → Execution.FieldResolvers σ → Document → Request →
    StateM σ (Value × List QueryError)
  /-- One field of the answer, for a record of an object type at a path. -/
  executeField {σ : Type} : TypeSystem → Execution.FieldResolvers σ → Selection →
    (type : String) → (record : Value) → (path : List PathStep) → StateM σ FieldResult

namespace Execution

variable {σ : Type}

/-- A field where it is selected, and what it is executed with. -/
structure FieldSelection where
  document : Document := ⟨[]⟩
  values : TypeSystem.Variables := []
  headers : Keyed.Entries Value := []
  /-- How many levels of objects may follow. -/
  depth : Nat := 0
  key : String
  first : Selected
  others : List Selected := []

/-- The selection of a field by its name. -/
def FieldSelection.ofName (name : String) : FieldSelection :=
  { key := name, first := ⟨name, 0, [], []⟩ }

/-- Chooses the operation and the values of its variables. -/
def start (t : TypeSystem) (r : Request) (d : Document) :
    Except (List QueryError) (Operation × TypeSystem.Variables) :=
  match chosen d r.operationName with
  | .error message => .error [{ message := message }]
  | .ok o => (variableValues t o.declared r.values).map fun vs => (o, vs)

def run (t : TypeSystem) (resolver? : FieldResolvers σ) (d : Document) (r : Request) :
    StateM σ (Value × List QueryError) := fun store =>
  match start t r d with
  | .error es => ((.null, es), store)
  | .ok (o, vs) =>
    let engine : Engine σ := ⟨⟨t, d, vs⟩, resolver?, r.headers⟩
    let (data, progress) := operation engine o ((t.rootType? o.kind).getD "") ⟨store, []⟩
    ((data, progress.errors), progress.store)

def runField (t : TypeSystem) (resolver? : FieldResolvers σ) (s : FieldSelection) (type : String)
    (record : Value) (path : List PathStep) : StateM σ FieldResult := fun store =>
  let engine : Engine σ := ⟨⟨t, s.document, s.values⟩, resolver?, s.headers⟩
  let (answer, progress) := field engine (below engine (object engine s.depth)) type
    (.value record) path.reverse s.key (s.first :: s.others) ⟨store, []⟩
  (⟨answer.map fun member => member.map (·.2), progress.errors⟩, progress.store)

end Execution

instance : GraphQL where
  Document := Document
  Selection := Execution.FieldSelection
  fieldName s := s.first.name
  key := Execution.FieldSelection.key
  select := .ofName
  fieldName_select _ := rfl
  build := TypeSystem.read
  parse query := (Document.read query).mapError fun e =>
    { message := e.message, offsets := [e.offset] }
  validate t introspection d := Validation.errors ⟨t, d, introspection⟩
  execute := Execution.run
  executeField := Execution.runField

end ResourceGraph
