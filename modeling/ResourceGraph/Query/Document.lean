/-!
Documents: operations and fragments over selections of fields, and definitions of types. Every part
keeps the offset at which it starts, for messages and, where parts are told apart, as its identity.
-/

namespace ResourceGraph.Query

structure Name where
  text : String
  offset : Nat
deriving DecidableEq

/-- A value as written. -/
inductive Literal where
  | variable (offset : Nat) (name : String)
  | int (offset : Nat) (digits : String)
  | float (offset : Nat) (digits : String)
  | string (offset : Nat) (text : String) (isBlock : Bool)
  | boolean (offset : Nat) (b : Bool)
  | null (offset : Nat)
  | enum (offset : Nat) (name : String)
  | list (offset : Nat) (items : List Literal)
  | object (offset : Nat) (fields : List (Name × Literal))

def Literal.offset : Literal → Nat
  | .variable o _ | .int o _ | .float o _ | .string o .. | .boolean o _ | .null o | .enum o _
  | .list o _ | .object o _ => o

/-- A type as written. -/
inductive TypeNode where
  | named (name : Name)
  | list (offset : Nat) (item : TypeNode)
  | nonNull (inner : TypeNode)

namespace TypeNode

def offset : TypeNode → Nat
  | .named n => n.offset
  | .list o _ => o
  | .nonNull t => t.offset

/-- The name inside all lists. -/
def name : TypeNode → Name
  | .named n => n
  | .list _ t => t.name
  | .nonNull t => t.name

def text : TypeNode → String
  | .named n => n.text
  | .list _ t => "[" ++ t.text ++ "]"
  | .nonNull t => t.text ++ "!"

end TypeNode

/-- An argument with its value. -/
structure ArgumentNode where
  name : Name
  value : Literal

structure DirectiveNode where
  offset : Nat
  name : Name
  arguments : List ArgumentNode

/-- What a field, a fragment or an operation selects. A selection set may be empty; a field without
one has no offset for it. -/
inductive Selection where
  | field (label : Option Name) (name : Name) (arguments : List ArgumentNode)
      (directives : List DirectiveNode) (bodyOffset : Option Nat) (body : List Selection)
  | spread (offset : Nat) (name : Name) (directives : List DirectiveNode)
  | inline (offset : Nat) (condition : Option Name) (directives : List DirectiveNode)
      (bodyOffset : Nat) (body : List Selection)

inductive OperationKind where
  | query
  | mutation
  | subscription
deriving DecidableEq

def OperationKind.word : OperationKind → String
  | .query => "query"
  | .mutation => "mutation"
  | .subscription => "subscription"

structure VariableNode where
  offset : Nat
  name : Name
  type : TypeNode
  defaultValue : Option Literal
  directives : List DirectiveNode

structure Operation where
  offset : Nat
  kind : OperationKind
  name : Option Name
  declared : List VariableNode
  directives : List DirectiveNode
  bodyOffset : Nat
  body : List Selection

structure Fragment where
  offset : Nat
  name : Name
  condition : Name
  directives : List DirectiveNode
  bodyOffset : Nat
  body : List Selection

/-- An argument of a field definition, or a field of an input type. -/
structure InputNode where
  name : Name
  type : TypeNode
  defaultValue : Option Literal

structure FieldNode where
  name : Name
  arguments : List InputNode
  type : TypeNode

/-- A definition of the type system. Of those that describe no data only what they name is kept. -/
inductive TypeDefinition where
  | object (name : Name) (fields : List FieldNode)
  | input (name : Name) (fields : List InputNode)
  | enum (name : Name) (values : List Name)
  /-- Another type, an extension, a directive, or, without a name, the schema itself. -/
  | other (name : Option Name) (definesType : Bool) (references : List Name)

inductive DocumentPart where
  | operation (o : Operation)
  | fragment (f : Fragment)
  | type (offset : Nat) (d : TypeDefinition)

structure Document where
  parts : List DocumentPart

namespace Document

variable (d : Document)

def operations : List Operation :=
  d.parts.filterMap fun
    | .operation o => some o
    | _ => none

def fragments : List Fragment :=
  d.parts.filterMap fun
    | .fragment f => some f
    | _ => none

def types : List TypeDefinition :=
  d.parts.filterMap fun
    | .type _ t => some t
    | _ => none

/-- The fragment of a name; of several the first one. -/
def fragment? (name : String) : Option Fragment := d.fragments.find? (·.name.text == name)

/-- The fragment of a name; of several the last one. -/
def lastFragment? (name : String) : Option Fragment :=
  d.fragments.reverse.find? (·.name.text == name)

end Document

namespace Selection

/-- The key of a field in the answer. -/
def responseKey (label : Option Name) (name : Name) : String := (label.getD name).text

/-- Where a field starts. -/
def fieldOffset (label : Option Name) (name : Name) : Nat := (label.getD name).offset

mutual

/-- How many selections there are, nested ones included. -/
def size : Selection → Nat
  | .field _ _ _ _ _ body => 1 + sizes body
  | .spread .. => 1
  | .inline _ _ _ _ body => 1 + sizes body

def sizes : List Selection → Nat
  | [] => 0
  | s :: rest => s.size + sizes rest

end

end Selection

/-- How many selections a document has. It bounds how deep selections are nested, also through
fragments that do not contain themselves. -/
def Document.selectionCount (d : Document) : Nat :=
  let bodies := d.operations.map (·.body) ++ d.fragments.map (·.body)
  bodies.foldl (fun n body => n + Selection.sizes body) 0

end ResourceGraph.Query
