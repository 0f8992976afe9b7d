import ResourceGraph.Keyed
import ResourceGraph.Query.Document
import ResourceGraph.Value

/-!
Type systems: scalars, objects, enumerations and inputs by name, and the root types of operations.
There are no interfaces and no unions, so an object of one type is never of another.
-/

namespace ResourceGraph

inductive TypeRef where
  | named (name : String)
  | list (item : TypeRef)
  | nonNull (inner : TypeRef)
deriving DecidableEq

namespace TypeRef

def text : TypeRef → String
  | .named name => name
  | .list t => "[" ++ t.text ++ "]"
  | .nonNull t => t.text ++ "!"

/-- The name inside all lists. -/
def name : TypeRef → String
  | .named name => name
  | .list t => t.name
  | .nonNull t => t.name

def isNonNull : TypeRef → Bool
  | .nonNull _ => true
  | _ => false

/-- The type without the demand that there is a value. -/
def nullable : TypeRef → TypeRef
  | .nonNull t => t
  | t => t

/-- The type of the items, if it is a list, else the type itself. -/
def item : TypeRef → TypeRef
  | .list t => t
  | .nonNull (.list t) => t
  | .nonNull t => t
  | .named name => .named name

def ofNode : Query.TypeNode → TypeRef
  | .named n => .named n.text
  | .list _ t => .list (ofNode t)
  | .nonNull t => .nonNull (ofNode t)

end TypeRef

inductive Scalar where
  | string
  | int
  | float
  | boolean
  | id
deriving DecidableEq

def Scalar.name : Scalar → String
  | .string => "String"
  | .int => "Int"
  | .float => "Float"
  | .boolean => "Boolean"
  | .id => "ID"

def Scalar.all : List Scalar := [.string, .int, .float, .boolean, .id]

def Scalar.ofName? (name : String) : Option Scalar := Scalar.all.find? (·.name == name)

/-- An argument, or a field of an input type. -/
structure InputSlot where
  name : String
  type : TypeRef
  defaultValue : Option Query.Literal := none

/-- Whether a value has to be given. -/
def InputSlot.isRequired (s : InputSlot) : Bool := s.type.isNonNull && s.defaultValue.isNone

structure OutputField where
  name : String
  type : TypeRef
  arguments : List InputSlot := []

def OutputField.argument? (f : OutputField) (name : String) : Option InputSlot :=
  f.arguments.find? (·.name == name)

/-- A name of an enumeration and the value that it stands for; null stands for the name itself. -/
structure EnumMember where
  name : String
  value : Value := .null

def EnumMember.internal (m : EnumMember) : Value := if m.value.isNull then .str m.name else m.value

inductive NamedType where
  | scalar (s : Scalar)
  | object (name : String) (fields : List OutputField)
  | enum (name : String) (members : List EnumMember)
  | input (name : String) (fields : List InputSlot)

namespace NamedType

def name : NamedType → String
  | .scalar s => s.name
  | .object n _ | .enum n _ | .input n _ => n

def isComposite : NamedType → Bool
  | .object .. => true
  | _ => false

def isInput : NamedType → Bool
  | .object .. => false
  | _ => true

def isOutput : NamedType → Bool
  | .input .. => false
  | _ => true

def isLeaf : NamedType → Bool
  | .scalar _ | .enum .. => true
  | _ => false

end NamedType

/-- A directive and where it may stand. -/
structure DirectiveDef where
  name : String
  locations : List String
  arguments : List InputSlot

structure TypeSystem where
  types : Keyed.Entries NamedType
  queryType : Option String
  mutationType : Option String := none
  subscriptionType : Option String := none

namespace TypeSystem

variable (t : TypeSystem)

def type? (name : String) : Option NamedType := Keyed.find? name t.types

/-- The object type at which operations of a kind start. -/
def rootType? : Query.OperationKind → Option String
  | .query => t.queryType
  | .mutation => t.mutationType
  | .subscription => t.subscriptionType

def objectFields? (name : String) : Option (List OutputField) :=
  match t.type? name with
  | some (.object _ fields) => some fields
  | _ => none

end TypeSystem

end ResourceGraph
