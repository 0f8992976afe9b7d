import ResourceGraph.Value

/-!
A generated API: its enumerations, object types and input types under their names, the query
fields, and the resources that were compiled, all in order of generation.
-/

namespace ResourceGraph

structure Argument where
  name : String
  typeName : String
  isOptional : Bool := true

structure Field where
  name : String
  typeName : String
  isList : Bool := false
  /-- May the field be null? -/
  isOptional : Bool := true
  /-- May an item of the list be null? -/
  isItemOptional : Bool := true
  arguments : List Argument := []
  /-- The name of the property in the source schema. -/
  sourceName : Option String := none

/-- Whether the field has another name than its property. -/
def Field.isRenamed (f : Field) : Bool :=
  match f.sourceName with
  | some s => s != f.name
  | none => false

/-- The key of a record under which the field's value is found. -/
def Field.recordKey (f : Field) : String := f.sourceName.getD f.name

/-- The key for a field whose enumeration has aliases. A property without a name counts as none. -/
def Field.aliasedKey (f : Field) : String := if f.recordKey = "" then f.name else f.recordKey

/-- A name in an enumeration and the raw value that it stands for. -/
structure EnumValue where
  name : String
  value : Value

/-- An enumeration. Aliases are raw values whose name repeats the name of an earlier value. -/
structure EnumDef where
  name : String
  values : List EnumValue
  aliases : List EnumValue := []

structure TypeDef where
  name : String
  fields : List Field
  isInput : Bool := false

/-- A compiled resource and the names of its two query fields. -/
structure Resource where
  name : String
  typeName : String
  listField : String
  singleField : String
  searchable : List String := []

def Resource.connectionType (r : Resource) : String := r.typeName ++ "Connection"

def Resource.filterType (r : Resource) : String := r.typeName ++ "Filter"

structure Api where
  enums : Keyed.Entries EnumDef := []
  types : Keyed.Entries TypeDef := []
  inputs : Keyed.Entries TypeDef := []
  queryFields : List Field := []
  resources : List Resource := []

def Api.hasQueryField (a : Api) (name : String) : Bool := a.queryFields.any (·.name == name)

/-- The searchable paths of each resource; of two resources of one name the last counts. -/
def Api.searchable (a : Api) : Keyed.Entries (List String) :=
  Keyed.ofPairs (a.resources.map fun r => (r.name, r.searchable))

end ResourceGraph
