import ResourceGraph.Query.Printer
import ResourceGraph.TypeSystem.Description

/-!
Answers of a type system about itself.
-/

namespace ResourceGraph.Execution

/-- A part of a type system that can be asked about. -/
inductive Described where
  | schema
  | type (r : TypeRef)
  | field (f : OutputField)
  | input (s : InputSlot)
  | member (m : EnumMember)
  | directive (d : DirectiveDef)

/-- What a field is answered from: a value of a record, or parts of the type system. -/
inductive Datum where
  | value (v : Value)
  | described (d : Described)
  | describedList (ds : List Described)

namespace Datum

def null : Datum := .value .null

def text (s : String) : Datum := .value (.str s)

def optionalText : Option String → Datum
  | some s => .text s
  | none => .null

def flag (b : Bool) : Datum := .value (.bool b)

def optional : Option Described → Datum
  | some d => .described d
  | none => .null

def optionalList : Option (List Described) → Datum
  | some ds => .describedList ds
  | none => .null

def isNull : Datum → Bool
  | .value v => v.isNull
  | _ => false

/-- The items of a list. -/
def items? : Datum → Option (List Datum)
  | .value (.arr vs) => some (vs.map .value)
  | .describedList ds => some (ds.map .described)
  | _ => none

def toValue : Datum → Value
  | .value v => v
  | _ => .null

end Datum

variable (t : TypeSystem)

def kindOf : TypeRef → String
  | .list _ => "LIST"
  | .nonNull _ => "NON_NULL"
  | .named n =>
    match t.type? n with
    | some (.object ..) => "OBJECT"
    | some (.enum ..) => "ENUM"
    | some (.input ..) => "INPUT_OBJECT"
    | _ => "SCALAR"

/-- The definition of a type without lists around it. -/
def definition? : TypeRef → Option NamedType
  | .named n => t.type? n
  | _ => none

def typeFacts (r : TypeRef) (field : String) : Datum :=
  let def? := definition? t r
  match field with
  | "kind" => .text (kindOf t r)
  | "name" => .optionalText (def?.map NamedType.name)
  | "description" =>
    .optionalText (def?.bind fun type => TypeSystem.typeDescription? type.name)
  | "fields" =>
    match def? with
    | some (.object _ fs) => .describedList (fs.map .field)
    | _ => .null
  | "interfaces" =>
    match def? with
    | some (.object ..) => .describedList []
    | _ => .null
  | "enumValues" =>
    match def? with
    | some (.enum _ ms) => .describedList (ms.map .member)
    | _ => .null
  | "inputFields" =>
    match def? with
    | some (.input _ ss) => .describedList (ss.map .input)
    | _ => .null
  | "ofType" =>
    match r with
    | .list r | .nonNull r => .described (.type r)
    | .named _ => .null
  | "isOneOf" =>
    match def? with
    | some (.input ..) => .flag false
    | _ => .null
  | _ => .null

def schemaFacts (field : String) : Datum :=
  let root (name : Option String) : Datum := .optional (name.map fun n => .type (.named n))
  match field with
  | "types" => .describedList (t.types.map fun e => .type (.named e.1))
  | "queryType" => root t.queryType
  | "mutationType" => root t.mutationType
  | "subscriptionType" => root t.subscriptionType
  | "directives" => .describedList (TypeSystem.standardDirectives.map .directive)
  | _ => .null

/-- What a part of a type system answers for a field. Nothing is deprecated. -/
def Described.answer (d : Described) (field : String) : Datum :=
  match field, d with
  | "isDeprecated", _ => .flag false
  | _, .schema => schemaFacts t field
  | _, .type r => typeFacts t r field
  | "name", .field f => .text f.name
  | "args", .field f => .describedList (f.arguments.map .input)
  | "type", .field f => .described (.type f.type)
  | "name", .input s => .text s.name
  | "type", .input s => .described (.type s.type)
  | "defaultValue", .input s => .optionalText (s.defaultValue.map Query.Literal.text)
  | "name", .member m => .text m.name
  | "name", .directive d => .text d.name
  | "description", .directive d => .optionalText (TypeSystem.directiveDescription? d.name)
  | "isRepeatable", .directive _ => .flag false
  | "locations", .directive d => .value (.arr (d.locations.map .str))
  | "args", .directive d => .describedList (d.arguments.map .input)
  | _, _ => .null

end ResourceGraph.Execution
