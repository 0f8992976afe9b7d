import ResourceGraph.Api.Definition

/-!
The API as schema text: enumerations, object types, inputs, and at the end the two types that every
API has, `SearchResults` and `Query`. Definitions are separated by an empty line.
-/

namespace ResourceGraph

def bang (isOptional : Bool) : String := if isOptional then "" else "!"

def Argument.text (a : Argument) : String := a.name ++ ": " ++ a.typeName ++ bang a.isOptional

/-- The type reference, such as `[Person!]!`. -/
def Field.typeText (f : Field) : String :=
  let item := if f.isList then "[" ++ f.typeName ++ bang f.isItemOptional ++ "]" else f.typeName
  item ++ bang f.isOptional

/-- A field with its arguments and its type, such as `person(id: ID!): Person`. -/
def Field.text (f : Field) : String :=
  let arguments :=
    if f.arguments.isEmpty then ""
    else "(" ++ String.intercalate ", " (f.arguments.map Argument.text) ++ ")"
  f.name ++ arguments ++ ": " ++ f.typeText

/-- One definition of a schema text. -/
inductive Definition where
  | enum (e : EnumDef)
  | type (t : TypeDef)

def block (keyword name : String) (lines : List String) : String :=
  keyword ++ " " ++ name ++ " \x7b\n" ++ String.join (lines.map fun l => "  " ++ l ++ "\n")
    ++ "\x7d"

def TypeDef.keyword (t : TypeDef) : String := if t.isInput then "input" else "type"

def Definition.text : Definition → String
  | .enum e => block "enum" e.name (e.values.map EnumValue.name)
  | .type t => block t.keyword t.name (t.fields.map Field.text)

namespace Api

variable (a : Api)

/-- One list of records per resource, and a total. -/
def searchResultsType : TypeDef :=
  { name := "SearchResults"
    fields :=
      a.resources.map (fun r =>
        { name := r.listField, typeName := r.typeName, isList := true, isOptional := false,
          isItemOptional := false })
      ++ [{ name := "totalCount", typeName := "Int", isOptional := false }] }

def searchField : Field :=
  { name := "search"
    typeName := "SearchResults"
    isOptional := false
    arguments :=
      [{ name := "query", typeName := "String", isOptional := false },
        { name := "limit", typeName := "Int" }, { name := "offset", typeName := "Int" }] }

def queryType : TypeDef := { name := "Query", fields := a.queryFields ++ [searchField] }

def definitions : List Definition :=
  a.enums.map (fun e => .enum e.2) ++ a.types.map (fun t => .type t.2)
    ++ a.inputs.map (fun t => .type t.2) ++ [.type a.searchResultsType, .type a.queryType]

def text : String := String.intercalate "\n\n" (a.definitions.map Definition.text)

end Api

end ResourceGraph
