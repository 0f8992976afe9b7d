import ResourceGraph.Iteration
import ResourceGraph.Text.Quoted
import ResourceGraph.Value.JsonReader

/-!
What can go wrong while a record is stored or a request is answered. Stores and clients that are not
part of the program raise exceptions of their own; the faults of the program are among them.
-/

namespace ResourceGraph

inductive Fault where
  | notIterable (kind : String)
  /-- An entry of a list that should be pairs has another length. -/
  | notPair (index length : Nat)
  /-- An entry of a list that should be pairs is no list at all. -/
  | notSequence (index : Nat)
  | noAttribute (kind name : String)
  | unreadableInteger (text : String)
  | notNumeric (kind : String)
  | infiniteInteger
  | nanInteger
  | notPage (kind : String)
  | notAddable (left right : String)
  /-- A store could not be asked. -/
  | unreachable (message : String) (resource : Option String)
  | unreadable (e : Json.ReadError)
  | closedClient

def Fault.message : Fault → String
  | .notIterable kind => Value.notIterableMessage kind
  | .notPair i n =>
    "dictionary update sequence element #" ++ toString i ++ " has length " ++ toString n
      ++ "; 2 is required"
  | .notSequence i =>
    "cannot convert dictionary update sequence element #" ++ toString i ++ " to a sequence"
  | .noAttribute kind name => "'" ++ kind ++ "' object has no attribute '" ++ name ++ "'"
  | .unreadableInteger text =>
    "invalid literal for int() with base 10: "
      ++ String.ofList ((Text.quoted text).toList.take 200)
  | .notNumeric kind =>
    "int() argument must be a string, a bytes-like object or a real number, not '" ++ kind ++ "'"
  | .infiniteInteger => "cannot convert float infinity to integer"
  | .nanInteger => "cannot convert float NaN to integer"
  | .notPage kind => "Store returned " ++ kind ++ ", expected a page mapping"
  | .notAddable left right =>
    "unsupported operand type(s) for +=: '" ++ left ++ "' and '" ++ right ++ "'"
  | .unreachable message _ => message
  | .unreadable e => e.message
  | .closedClient => "Cannot send a request, as the client has been closed."

/-- The class of the exception that a fault is. -/
def Fault.kind : Fault → String
  | .notIterable _ | .notSequence _ | .notNumeric _ | .notPage _ | .notAddable .. => "TypeError"
  | .notPair .. | .unreadableInteger _ | .nanInteger => "ValueError"
  | .noAttribute .. => "AttributeError"
  | .infiniteInteger => "OverflowError"
  | .unreachable .. => "StoreError"
  | .unreadable _ => "JSONDecodeError"
  | .closedClient => "RuntimeError"

/-- An exception as it is seen where it is caught. -/
structure Raised where
  kind : String := "Exception"
  message : String
  /-- The code that it carries, null if it carries none. -/
  code : Value := .null

/-- It is no error of the engine's own, and it brings no code. -/
def Raised.IsPlain (r : Raised) : Prop := r.kind ≠ "GraphQLError" ∧ r.code = .null

def Fault.raised (f : Fault) : Raised := { kind := f.kind, message := f.message }

/-- A type of exceptions, in which the faults of the program have a place. -/
class Exceptions (ε : Type) where
  ofFault : Fault → ε
  raised : ε → Raised
  raised_ofFault : ∀ f, raised (ofFault f) = f.raised

instance : Exceptions Fault where
  ofFault := id
  raised := Fault.raised
  raised_ofFault _ := rfl

instance : Exceptions Raised where
  ofFault := Fault.raised
  raised := id
  raised_ofFault _ := rfl

end ResourceGraph
