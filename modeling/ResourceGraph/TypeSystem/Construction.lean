import ResourceGraph.Query.Grammar
import ResourceGraph.Query.Suggestion
import ResourceGraph.TypeSystem.Standard

/-!
Type systems from their text. First every name has to be defined, and only once; then every field
and argument has to have a type that fits its place, and there has to be a root for queries.
-/

namespace ResourceGraph.TypeSystem

open Query

/-- What is wrong with a type system. -/
inductive Flaw where
  | repeatedType (name : String)
  | repeatedField (type field : String)
  | repeatedValue (type value : String)
  | repeatedArgument (field argument : String)
  | unknownType (name : String) (known : List String)
  | noQueryRoot
  | rootNotObject (kind : OperationKind) (name : String)
  | reservedName (name : String)
  | noFields (type : String)
  | noValues (type : String)
  | noInputFields (type : String)
  | notOutput (place : String) (type : TypeRef)
  | notInput (place : String) (type : TypeRef)
  /-- An input type that no finite value has. -/
  | endless (type : String) (path : List String)

def Flaw.message : Flaw → String
  | .repeatedType n => "There can be only one type named '" ++ n ++ "'."
  | .repeatedField t f => "Field '" ++ t ++ "." ++ f ++ "' can only be defined once."
  | .repeatedValue t v => "Enum value '" ++ t ++ "." ++ v ++ "' can only be defined once."
  | .repeatedArgument f a => "Argument '" ++ f ++ "(" ++ a ++ ":)' can only be defined once."
  | .unknownType n known => "Unknown type '" ++ n ++ "'." ++ didYouMean "" (suggestions n known)
  | .noQueryRoot => "Query root type must be provided."
  | .rootNotObject kind name =>
    let (word, condition) :=
      match kind with
      | .query => ("Query", "")
      | .mutation => ("Mutation", " if provided")
      | .subscription => ("Subscription", " if provided")
    word ++ " root type must be Object type" ++ condition ++ ", it cannot be " ++ name ++ "."
  | .reservedName n =>
    "Name '" ++ n ++ "' must not begin with '__', which is reserved by GraphQL introspection."
  | .noFields t => "Type " ++ t ++ " must define one or more fields."
  | .noValues t => "Enum type " ++ t ++ " must define one or more values."
  | .noInputFields t => "Input Object type " ++ t ++ " must define one or more fields."
  | .notOutput place t => "The type of " ++ place ++ " must be Output Type but got: " ++ t.text ++ "."
  | .notInput place t => "The type of " ++ place ++ " must be Input Type but got: " ++ t.text ++ "."
  | .endless t path =>
    "Cannot reference Input Object '" ++ t ++ "' within itself through a series of non-null fields: '"
      ++ String.intercalate "." path ++ "'."

/-- Why a text gives no type system. -/
inductive BuildError where
  | unreadable (e : SyntaxError)
  | flawed (flaws : List Flaw)

def flawsMessage (fs : List Flaw) : String := String.intercalate "\n\n" (fs.map Flaw.message)

/-! Names -/

def definedName? : TypeDefinition → Option String
  | .object n _ | .input n _ | .enum n _ => some n.text
  | .other n definesType _ => if definesType then n.map (·.text) else none

/-- The names that occur a second time, in order of these occurrences. -/
def repeats : (seen : List String) → List String → List String
  | _, [] => []
  | seen, n :: ns => if n ∈ seen then n :: repeats seen ns else repeats (n :: seen) ns

/-- The names of a list that occur more than once, each once, in order. -/
def repeatedOnce (ns : List String) : List String :=
  ns.eraseDups.filter fun n => 1 < ns.count n

def fieldNames : TypeDefinition → List String
  | .object _ fs => fs.map (·.name.text)
  | .input _ fs => fs.map (·.name.text)
  | _ => []

def references : TypeDefinition → List String
  | .object _ fs => (Reader.fieldReferences fs).map (·.text)
  | .input _ fs => fs.map (·.type.name.text)
  | .enum .. => []
  | .other _ _ rs => rs.map (·.text)

/-- The names that every type system knows. -/
def standardNames : List String :=
  Scalar.all.map Scalar.name ++ introspectionTypes.map NamedType.name

/-- Flaws in the names of a definition; `earlier` are the definitions before it. -/
def nameFlaws (known : List String) (earlier : List TypeDefinition) (d : TypeDefinition) :
    List Flaw :=
  match definedName? d with
  | none => []
  | some n =>
    let same := earlier.filter fun e => definedName? e = some n
    let fields := same.flatMap fieldNames
    let values : TypeDefinition → List String
      | .enum _ vs => vs.map (·.text)
      | _ => []
    let argumentFlaws :=
      match d with
      | .object _ fs => fs.flatMap fun f =>
        (repeatedOnce (f.arguments.map (·.name.text))).map
          (.repeatedArgument (n ++ "." ++ f.name.text))
      | _ => []
    (if same.isEmpty then [] else [.repeatedType n])
      ++ (repeats (same.flatMap values) (values d)).map (.repeatedValue n)
      ++ (repeats fields (fieldNames d)).map (.repeatedField n)
      ++ argumentFlaws
      ++ ((references d).filter (· ∉ known)).map fun r => .unknownType r known

def allNameFlaws (known : List String) : (earlier rest : List TypeDefinition) → List Flaw
  | _, [] => []
  | earlier, d :: rest => nameFlaws known earlier d ++ allNameFlaws known (earlier ++ [d]) rest

/-! Types -/

def inputSlot (n : InputNode) : InputSlot := ⟨n.name.text, .ofNode n.type, n.defaultValue⟩

def outputField (n : FieldNode) : OutputField :=
  ⟨n.name.text, .ofNode n.type, n.arguments.map inputSlot⟩

/-- The type of a definition. A standard name keeps its standard meaning. -/
def namedType? : TypeDefinition → Option NamedType
  | .object n fs => some (standard n.text (.object n.text (fs.map outputField)))
  | .input n fs => some (standard n.text (.input n.text (fs.map inputSlot)))
  | .enum n vs => some (standard n.text (.enum n.text (vs.map fun v => { name := v.text })))
  | .other .. => none
where
  standard (name : String) (t : NamedType) : NamedType :=
    match Scalar.ofName? name with
    | some s => .scalar s
    | none => (introspectionTypes.find? (·.name == name)).getD t

def scalarsOf : NamedType → List NamedType
  | .object _ fs =>
    (fs.flatMap fun f => f.type.name :: f.arguments.map (·.type.name)).filterMap scalarType?
  | .input _ fs => (fs.map (·.type.name)).filterMap scalarType?
  | _ => []
where
  scalarType? (name : String) : Option NamedType := (Scalar.ofName? name).map .scalar

/-- Adds types that are not there yet. -/
def addMissing (es : Keyed.Entries NamedType) (ts : List NamedType) : Keyed.Entries NamedType :=
  ts.foldl (fun es t => if Keyed.hasKey t.name es then es else es ++ [(t.name, t)]) es

/-- The types of definitions, each before the scalars that it is the first to mention, and then
what every type system has. -/
def ofDefinitions (ds : List TypeDefinition) : TypeSystem :=
  let own := ds.filterMap namedType?
  let types := own.foldl (fun es t => addMissing es (t :: scalarsOf t)) []
  let types := addMissing types (.scalar .boolean :: .scalar .string :: introspectionTypes)
  let root? (name : String) : Option String := if Keyed.hasKey name types then some name else none
  ⟨types, root? "Query", root? "Mutation", root? "Subscription"⟩

/-! Fitness of types -/

def isReserved (name : String) : Bool := ['_', '_'].isPrefixOf name.toList

def reservedFlaws (name : String) : List Flaw :=
  if isReserved name then [.reservedName name] else []

variable (t : TypeSystem)

def isInputType (r : TypeRef) : Bool := (t.type? r.name).any NamedType.isInput

def isOutputType (r : TypeRef) : Bool := (t.type? r.name).any NamedType.isOutput

def inputFlaws (place : String) (s : InputSlot) : List Flaw :=
  reservedFlaws s.name ++ if isInputType t s.type then [] else [.notInput place s.type]

def outputFlaws (type : String) (f : OutputField) : List Flaw :=
  let place := type ++ "." ++ f.name
  reservedFlaws f.name
    ++ (if isOutputType t f.type then [] else [.notOutput place f.type])
    ++ f.arguments.flatMap fun a => inputFlaws t (place ++ "(" ++ a.name ++ ":)") a

/-- Inputs that a non-null field of an input holds, with the name of the field. -/
def heldInputs (name : String) : List (String × String) :=
  match t.type? name with
  | some (.input _ fs) =>
    fs.filterMap fun f =>
      match f.type with
      | .nonNull (.named n) =>
        match t.type? n with
        | some (.input ..) => some (f.name, n)
        | _ => none
      | _ => none
  | _ => []

/-- The ways on which inputs hold themselves. `trail` leads from where the search began to `name`,
as inputs with the fields taken; an input in `visited` is not entered again. -/
def cyclesFrom : (room : Nat) → (name : String) → (trail : List (String × String)) →
    (visited : List String) → List String × List Flaw
  | 0, _, _, visited => (visited, [])
  | room + 1, name, trail, visited =>
    if name ∈ visited then (visited, [])
    else
      (heldInputs t name).foldl
        (fun (visited, flaws) (field, n) =>
          let trail := trail ++ [(name, field)]
          match trail.dropWhile (·.1 != n) with
          | [] =>
            let (visited, more) := cyclesFrom room n trail visited
            (visited, flaws ++ more)
          | cycle => (visited, flaws ++ [.endless n (cycle.map (·.2))]))
        (name :: visited, [])

def typeFlaws (type : NamedType) : List Flaw :=
  if isIntrospectionType type.name then []
  else
    reservedFlaws type.name ++
      match type with
      | .scalar _ => []
      | .object n fs =>
        if fs.isEmpty then [.noFields n] else fs.flatMap (outputFlaws t n)
      | .enum n ms => if ms.isEmpty then [.noValues n] else ms.flatMap (reservedFlaws ·.name)
      | .input n fs =>
        if fs.isEmpty then [.noInputFields n]
        else fs.flatMap fun f => inputFlaws t (n ++ "." ++ f.name) f

def rootFlaws : List Flaw :=
  let notObject (kind : OperationKind) : Option String → List Flaw
    | none => []
    | some n => if (t.objectFields? n).isSome then [] else [.rootNotObject kind n]
  (if t.queryType.isNone then [.noQueryRoot] else [])
    ++ notObject .query t.queryType ++ notObject .mutation t.mutationType
    ++ notObject .subscription t.subscriptionType

/-- The flaws of types in order, with the cycles through each. -/
def allTypeFlaws (visited : List String) : List (String × NamedType) → List Flaw
  | [] => []
  | (name, type) :: rest =>
    let (visited, cycles) := cyclesFrom t (t.types.length + 1) name [] visited
    typeFlaws t type ++ cycles ++ allTypeFlaws visited rest

def flaws : List Flaw := rootFlaws t ++ allTypeFlaws t [] t.types

/-- Reads a type system, which has no flaws. -/
def read (text : String) : Except BuildError TypeSystem :=
  match Document.read text with
  | .error e => .error (.unreadable e)
  | .ok d =>
    let known := standardNames ++ d.types.filterMap definedName?
    match allNameFlaws known [] d.types with
    | f :: fs => .error (.flawed (f :: fs))
    | [] =>
      let t := ofDefinitions d.types
      match flaws t with
      | f :: fs => .error (.flawed (f :: fs))
      | [] => .ok t

end ResourceGraph.TypeSystem
