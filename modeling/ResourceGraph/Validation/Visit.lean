import ResourceGraph.Query.Fragments
import ResourceGraph.Query.Grammar
import ResourceGraph.TypeSystem.Standard

/-!
A walk over a document with what the type system says about each place. The walk is a list of
visits; rules look at one visit at a time.
-/

namespace ResourceGraph.Validation

open Query

/-- A field and what is known of it. -/
structure FieldVisit where
  /-- The object type in which the field is looked up. -/
  parent : Option String
  definition : Option OutputField
  label : Option Name
  name : Name
  arguments : List ArgumentNode
  bodyOffset : Option Nat
  body : List Selection

def FieldVisit.offset (v : FieldVisit) : Nat := Selection.fieldOffset v.label v.name

inductive Visit where
  | operation (o : Operation)
  | endOperation (o : Operation)
  | fragment (f : Fragment)
  | variableDefinition (v : VariableNode)
  | typeName (n : Name)
  | selections (parent : Option String) (offset : Nat) (body : List Selection)
  | field (v : FieldVisit)
  /-- The arguments of a field as a whole, and what it selects. -/
  | fieldContent (v : FieldVisit)
  | endField (v : FieldVisit)
  | argument (v : FieldVisit) (name : Name)
  /-- A whole literal and the slot it is for. -/
  | literal (slot : Option InputSlot) (l : Literal)
  /-- All directives of one place. -/
  | directives (ds : List DirectiveNode)
  | directive (place : String) (d : DirectiveNode)
  | endDirective (d : DirectiveNode)
  | spread (parent : Option String) (offset : Nat) (name : Name)
  | inline (parent : Option String) (type : Option String) (offset : Nat)
      (condition : Option Name)

variable (t : TypeSystem)

/-- The object type of a place, if it is one. -/
def objectName? (type : Option String) : Option String :=
  type.filter fun n => (t.objectFields? n).isSome

def literalVisits (slot? : String → Option InputSlot) (args : List ArgumentNode) : List Visit :=
  args.map fun a => .literal (slot? a.name.text) a.value

def directiveVisits (place : String) (ds : List DirectiveNode) : List Visit :=
  ds.flatMap fun d =>
    let slot? (name : String) : Option InputSlot :=
      (TypeSystem.directive? d.name.text).bind fun def' => def'.arguments.find? (·.name == name)
    .directive place d :: literalVisits slot? d.arguments ++ [.endDirective d]

mutual

/-- The visits of a selection in a place of a type. -/
def selectionVisits (type : Option String) : Selection → List Visit
  | .field label name args ds bodyOffset body =>
    let parent := objectName? t type
    let definition := parent.bind fun p => t.field? p name.text
    let v : FieldVisit := ⟨parent, definition, label, name, args, bodyOffset, body⟩
    let slot? (n : String) : Option InputSlot := definition.bind fun f => f.argument? n
    let fieldType := definition.map fun f => f.type.name
    [.field v, .directives ds, .fieldContent v]
      ++ args.flatMap (fun a => [.argument v a.name, .literal (slot? a.name.text) a.value])
      ++ directiveVisits "field" ds
      ++ (match bodyOffset with
        | none => []
        | some o => .selections (objectName? t fieldType) o body :: bodyVisits fieldType body)
      ++ [.endField v]
  | .spread offset name ds =>
    [.spread (objectName? t type) offset name, .directives ds]
      ++ directiveVisits "fragment spread" ds
  | .inline offset condition ds bodyOffset body =>
    let inner :=
      match condition with
      | some n => (t.type? n.text).map (·.name)
      | none => type
    [.inline (objectName? t type) inner offset condition, .directives ds]
      ++ (condition.map Visit.typeName).toList
      ++ directiveVisits "inline fragment" ds
      ++ .selections (objectName? t inner) bodyOffset body :: bodyVisits inner body

def bodyVisits (type : Option String) : List Selection → List Visit
  | [] => []
  | s :: rest => selectionVisits type s ++ bodyVisits type rest

end

def setVisits (type : Option String) (offset : Nat) (body : List Selection) : List Visit :=
  .selections (objectName? t type) offset body :: bodyVisits t type body

def variableVisits (v : VariableNode) : List Visit :=
  let type := TypeRef.ofNode v.type
  let slot : Option InputSlot :=
    if (t.type? type.name).any NamedType.isInput then some { name := v.name.text, type := type }
    else none
  [.variableDefinition v, .directives v.directives, .typeName v.type.name]
    ++ (v.defaultValue.map (Visit.literal slot)).toList
    ++ directiveVisits "variable definition" v.directives

def operationVisits (o : Operation) : List Visit :=
  [.operation o, .directives o.directives]
    ++ o.declared.flatMap (variableVisits t)
    ++ directiveVisits o.kind.word o.directives
    ++ setVisits t (t.rootType? o.kind) o.bodyOffset o.body
    ++ [.endOperation o]

def fragmentVisits (f : Fragment) : List Visit :=
  [.fragment f, .directives f.directives, .typeName f.condition]
    ++ directiveVisits "fragment definition" f.directives
    ++ setVisits t ((t.type? f.condition.text).map (·.name)) f.bodyOffset f.body

def partVisits : DocumentPart → List Visit
  | .operation o => operationVisits t o
  | .fragment f => fragmentVisits t f
  | .type _ d =>
    match d with
    | .object _ fs => (Reader.fieldReferences fs).map .typeName
    | .input _ fs => fs.map fun f => .typeName f.type.name
    | .enum .. => []
    | .other _ _ rs => rs.map .typeName

def visits (d : Document) : List Visit := d.parts.flatMap (partVisits t)

end ResourceGraph.Validation
