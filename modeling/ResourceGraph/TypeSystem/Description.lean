import ResourceGraph.TypeSystem.Standard

/-!
What the standard types and directives say of themselves.
-/

namespace ResourceGraph.TypeSystem

def scalarDescription : Scalar → String
  | .string =>
    "The `String` scalar type represents textual data, represented as UTF-8 character sequences. The String type is most often used by GraphQL to represent free-form human-readable text."
  | .int =>
    "The `Int` scalar type represents non-fractional signed whole numeric values. Int can represent values between -(2^31) and 2^31 - 1."
  | .float =>
    "The `Float` scalar type represents signed double-precision fractional values as specified by [IEEE 754](https:"
      ++ "//en.wikipedia.org/wiki/IEEE_floating_point)."
  | .boolean => "The `Boolean` scalar type represents `true` or `false`."
  | .id =>
    "The `ID` scalar type represents a unique identifier, often used to refetch an object or as key for a cache. The ID type appears in a JSON response as a String; however, it is not intended to be human-readable. When expected as an input type, any string (such as `\"4\"`) or integer (such as `4`) input value will be accepted as an ID."

def introspectionDescriptions : List (String × String) :=
  [("__Schema",
      "A GraphQL Schema defines the capabilities of a GraphQL server. It exposes all available types and directives on the server, as well as the entry points for query, mutation, and subscription operations."),
    ("__Type",
      "The fundamental unit of any GraphQL Schema is the type. There are many kinds of types in GraphQL as represented by the `__TypeKind` enum.\n\nDepending on the kind of a type, certain fields describe information about that type. Scalar types provide no information beyond a name, description and optional `specifiedByURL`, while Enum types provide their values. Object and Interface types provide the fields they describe. Abstract types, Union and Interface, provide the Object types possible at runtime. List and NonNull types compose other types."),
    ("__TypeKind", "An enum describing what kind of type a given `__Type` is."),
    ("__Field",
      "Object and Interface types are described by a list of Fields, each of which has a name, potentially a list of arguments, and a return type."),
    ("__InputValue",
      "Arguments provided to Fields or Directives and the input fields of an InputObject are represented as Input Values which describe their type and optionally a default value."),
    ("__EnumValue",
      "One possible value for a given Enum. Enum values are unique values, not a placeholder for a string or numeric value. However an Enum value is returned in a JSON response as a string."),
    ("__Directive",
      "A Directive provides a way to describe alternate runtime execution and type validation behavior in a GraphQL document.\n\nIn some cases, you need to provide options to alter GraphQL's execution behavior in ways field arguments will not suffice, such as conditionally including or skipping a field. Directives provide this by describing additional information to the executor."),
    ("__DirectiveLocation",
      "A Directive can be adjacent to many parts of the GraphQL language, a __DirectiveLocation describes one such possible adjacencies.")]

def directiveDescriptions : List (String × String) :=
  [("include",
      "Directs the executor to include this field or fragment only when the `if` argument is true."),
    ("skip", "Directs the executor to skip this field or fragment when the `if` argument is true."),
    ("deprecated", "Marks an element of a GraphQL schema as no longer supported."),
    ("specifiedBy", "Exposes a URL that specifies the behavior of this scalar."),
    ("oneOf",
      "Indicates an Input Object is a OneOf Input Object, of which exactly one field must be supplied.")]

/-- The description of a standard type; a type of the API itself has none. -/
def typeDescription? (name : String) : Option String :=
  match Scalar.ofName? name with
  | some s => some (scalarDescription s)
  | none => introspectionDescriptions.lookup name

def directiveDescription? (name : String) : Option String := directiveDescriptions.lookup name

end ResourceGraph.TypeSystem
