import ResourceGraph.TypeSystem.Basic

/-!
What every type system has: the types that describe it, the fields at its root that ask for them,
and the directives.
-/

namespace ResourceGraph.TypeSystem

def required (name : String) : TypeRef := .nonNull (.named name)

def requiredList (name : String) : TypeRef := .nonNull (.list (required name))

def optionalList (name : String) : TypeRef := .list (required name)

def describedFields : List OutputField :=
  [{ name := "name", type := required "String" }, { name := "description", type := .named "String" }]

def deprecationFields : List OutputField :=
  [{ name := "isDeprecated", type := required "Boolean" },
    { name := "deprecationReason", type := .named "String" }]

/-- The argument that asks for deprecated parts as well. -/
def includeDeprecated : List InputSlot :=
  [{ name := "includeDeprecated"
     type := required "Boolean"
     defaultValue := some (.boolean 0 false) }]

def schemaType : NamedType :=
  .object "__Schema"
    [{ name := "description", type := .named "String" },
      { name := "types", type := requiredList "__Type" },
      { name := "queryType", type := required "__Type" },
      { name := "mutationType", type := .named "__Type" },
      { name := "subscriptionType", type := .named "__Type" },
      { name := "directives", type := requiredList "__Directive" }]

def typeType : NamedType :=
  .object "__Type"
    [{ name := "kind", type := required "__TypeKind" },
      { name := "name", type := .named "String" },
      { name := "description", type := .named "String" },
      { name := "specifiedByURL", type := .named "String" },
      { name := "fields", type := optionalList "__Field", arguments := includeDeprecated },
      { name := "interfaces", type := optionalList "__Type" },
      { name := "possibleTypes", type := optionalList "__Type" },
      { name := "enumValues", type := optionalList "__EnumValue",
        arguments := includeDeprecated },
      { name := "inputFields", type := optionalList "__InputValue",
        arguments := includeDeprecated },
      { name := "ofType", type := .named "__Type" },
      { name := "isOneOf", type := .named "Boolean" }]

def typeKindType : NamedType :=
  .enum "__TypeKind"
    (["SCALAR", "OBJECT", "INTERFACE", "UNION", "ENUM", "INPUT_OBJECT", "LIST", "NON_NULL"].map
      ({ name := · }))

def fieldType : NamedType :=
  .object "__Field"
    (describedFields
      ++ [{ name := "args", type := requiredList "__InputValue", arguments := includeDeprecated },
        { name := "type", type := required "__Type" }]
      ++ deprecationFields)

def inputValueType : NamedType :=
  .object "__InputValue"
    (describedFields
      ++ [{ name := "type", type := required "__Type" },
        { name := "defaultValue", type := .named "String" }]
      ++ deprecationFields)

def enumValueType : NamedType := .object "__EnumValue" (describedFields ++ deprecationFields)

def directiveType : NamedType :=
  .object "__Directive"
    (describedFields
      ++ [{ name := "isRepeatable", type := required "Boolean" },
        { name := "locations", type := requiredList "__DirectiveLocation" },
        { name := "args", type := requiredList "__InputValue", arguments := includeDeprecated }])

def directiveLocationType : NamedType :=
  .enum "__DirectiveLocation"
    (["QUERY", "MUTATION", "SUBSCRIPTION", "FIELD", "FRAGMENT_DEFINITION", "FRAGMENT_SPREAD",
      "INLINE_FRAGMENT", "VARIABLE_DEFINITION", "SCHEMA", "SCALAR", "OBJECT", "FIELD_DEFINITION",
      "ARGUMENT_DEFINITION", "INTERFACE", "UNION", "ENUM", "ENUM_VALUE", "INPUT_OBJECT",
      "INPUT_FIELD_DEFINITION"].map ({ name := · }))

/-- The types that describe a type system, in the order in which they mention each other. -/
def introspectionTypes : List NamedType :=
  [schemaType, typeType, typeKindType, fieldType, inputValueType, enumValueType, directiveType,
    directiveLocationType]

def isIntrospectionType (name : String) : Bool := introspectionTypes.any (·.name == name)

/-! Fields that can be asked for without being defined -/

def typenameField : OutputField := { name := "__typename", type := required "String" }

def schemaField : OutputField := { name := "__schema", type := required "__Schema" }

def typeField : OutputField :=
  { name := "__type", type := .named "__Type"
    arguments := [{ name := "name", type := required "String" }] }

/-! Directives -/

def condition : List InputSlot := [{ name := "if", type := required "Boolean" }]

def selectionLocations : List String := ["FIELD", "FRAGMENT_SPREAD", "INLINE_FRAGMENT"]

def standardDirectives : List DirectiveDef :=
  [{ name := "include", locations := selectionLocations, arguments := condition },
    { name := "skip", locations := selectionLocations, arguments := condition },
    { name := "deprecated"
      locations :=
        ["FIELD_DEFINITION", "ARGUMENT_DEFINITION", "INPUT_FIELD_DEFINITION", "ENUM_VALUE"]
      arguments :=
        [{ name := "reason", type := required "String"
           defaultValue := some (.string 0 "No longer supported" false) }] },
    { name := "specifiedBy", locations := ["SCALAR"]
      arguments := [{ name := "url", type := required "String" }] },
    { name := "oneOf", locations := ["INPUT_OBJECT"], arguments := [] }]

def directive? (name : String) : Option DirectiveDef :=
  standardDirectives.find? (·.name == name)

variable (t : TypeSystem)

/-- A field of an object type; the root of queries also has those that describe the types. -/
def field? (typeName name : String) : Option OutputField :=
  if name = schemaField.name ∧ t.queryType = some typeName then some schemaField
  else if name = typeField.name ∧ t.queryType = some typeName then some typeField
  else
    match t.objectFields? typeName with
    | none => none
    | some fields =>
      if name = typenameField.name then some typenameField else fields.find? (·.name == name)

end ResourceGraph.TypeSystem
