import ResourceGraph.TypeSystem.Input
import ResourceGraph.Validation.Merging

/-!
What a document has to satisfy before it is executed. Each rule looks at one visit of the walk; the
errors of a document come in the order of the visits.
-/

namespace ResourceGraph.Validation

open Query

/-- A document, its type system, and whether it may ask for the types. -/
structure Setting where
  types : TypeSystem
  document : Document
  introspection : Bool

def quote (s : String) : String := "'" ++ s ++ "'"

def errorAt (offset : Nat) (message : String) : QueryError := { message := message, offsets := [offset] }

/-! Operations and fragments -/

/-- The names of a list with all places of each that has several. -/
def repeatedNames (ns : List Name) : List (String × List Nat) :=
  (ns.map (·.text)).eraseDups.filterMap fun s =>
    let places := (ns.filter (·.text == s)).map (·.offset)
    if places.length > 1 then some (s, places) else none

def repeatedErrors (kind mark : String) (ns : List Name) : List QueryError :=
  (repeatedNames ns).map fun (s, places) =>
    { message := "There can be only one " ++ kind ++ " named " ++ quote (mark ++ s) ++ "."
      offsets := places }

/-- An error if an earlier part of the document has the name. -/
def takenName (kind : String) (names : List Name) (n : Name) : List QueryError :=
  match names.find? (·.text == n.text) with
  | some first =>
    if first.offset = n.offset then []
    else
      [{ message := "There can be only one " ++ kind ++ " named " ++ quote n.text ++ "."
         offsets := [first.offset, n.offset] }]
  | none => []

def operationErrors (s : Setting) (o : Operation) : List QueryError :=
  let unsupported :=
    if (s.types.rootType? o.kind).isSome then []
    else
      [errorAt o.offset
        ("The " ++ o.kind.word ++ " operation is not supported by the schema.")]
  let taken :=
    match o.name with
    | some n => takenName "operation" (s.document.operations.filterMap (·.name)) n
    | none => []
  let alone :=
    if o.name.isNone && s.document.operations.length > 1 then
      [errorAt o.offset "This anonymous operation must be the only defined operation."]
    else []
  unsupported ++ taken ++ alone
    ++ repeatedErrors "variable" "$" (o.declared.map (·.name))

/-- A type condition on a type that is no object. -/
def conditionErrors (s : Setting) (subject : String) (condition : Name) : List QueryError :=
  match s.types.type? condition.text with
  | some type =>
    if type.isComposite then []
    else
      [errorAt condition.offset
        (subject ++ " cannot condition on non composite type " ++ quote condition.text ++ ".")]
  | none => []

/-- A fragment of one object type in a place of another. -/
def spreadErrors (s : Setting) (offset : Nat) (subject : String) (parent type : Option String) :
    List QueryError :=
  match parent, objectName? s.types type with
  | some p, some f =>
    if p = f then []
    else
      [errorAt offset
        (subject ++ " cannot be spread here as objects of type " ++ quote p
          ++ " can never be of type " ++ quote f ++ ".")]
  | _, _ => []

/-! Cycles of fragments -/

/-- Fragments that have been entered, on the way to all cycles. -/
abbrev Entered := List String

/-- The cycles through a fragment. `trail` is the way to it: fragments with the mention taken. -/
def cycleErrors (d : Document) : (room : Nat) → Fragment → (trail : List (String × SpreadNode)) →
    StateM Entered (List QueryError)
  | 0, _, _ => return []
  | room + 1, f, trail => do
    let name := f.name.text
    if name ∈ (← get) then return []
    modify (name :: ·)
    let found ← (Selection.spreads f.body).mapM fun spread => do
      let trail := trail ++ [(name, spread)]
      match trail.dropWhile (·.1 != spread.name) with
      | [] =>
        match d.lastFragment? spread.name with
        | some g => cycleErrors d room g trail
        | none => return []
      | cycle =>
        let via := cycle.dropLast.map fun p => quote p.2.name
        let through := if via.isEmpty then "" else " via " ++ String.intercalate ", " via
        return [{ message :=
                    "Cannot spread fragment " ++ quote spread.name ++ " within itself" ++ through
                      ++ "."
                  offsets := cycle.map (·.2.offset) }]
    return found.flatten

def unusedFragments (d : Document) : List QueryError :=
  let used := (d.operations.flatMap d.fragmentsOf).map (·.name.text)
  (d.fragments.filter fun f => f.name.text ∉ used).map fun f =>
    errorAt f.offset ("Fragment " ++ quote f.name.text ++ " is never used.")

/-! Types and fields -/

def definedTypes (d : Document) : List Name :=
  d.types.filterMap fun
    | .object n _ | .input n _ | .enum n _ => some n
    | .other n definesType _ => if definesType then n else none

def typeNameErrors (s : Setting) (n : Name) : List QueryError :=
  let own := (definedTypes s.document).map (·.text)
  let known := Keyed.keys s.types.types
  if n.text ∈ known ∨ n.text ∈ own then []
  else
    [errorAt n.offset
      ("Unknown type " ++ quote n.text ++ "."
        ++ didYouMean "" (suggestions n.text (known ++ own)))]

def variableErrors (s : Setting) (v : VariableNode) : List QueryError :=
  match s.types.type? v.type.name.text with
  | some type =>
    if type.isInput then []
    else
      [errorAt v.type.offset
        ("Variable " ++ quote ("$" ++ v.name.text) ++ " cannot be non-input type "
          ++ quote v.type.text ++ ".")]
  | none => []

/-- Leaves have no selections, and objects have some. -/
def leafErrors (t : TypeSystem) (v : FieldVisit) : List QueryError :=
  match v.definition with
  | none => []
  | some f =>
    let subject := "Field " ++ quote v.name.text
    let typed := subject ++ " of type " ++ quote f.type.text
    match isLeafType t f.type, v.bodyOffset with
    | true, some o =>
      [errorAt o
        (subject ++ " must not have a selection since type " ++ quote f.type.text
          ++ " has no subfields.")]
    | true, none => []
    | false, none =>
      [errorAt v.offset
        (typed ++ " must have a selection of subfields. Did you mean "
          ++ quote (v.name.text ++ " \x7b ... \x7d") ++ "?")]
    | false, some _ =>
      if v.body.isEmpty then [errorAt v.offset (typed ++ " must have at least one field selected.")]
      else []

def unknownFieldErrors (t : TypeSystem) (v : FieldVisit) : List QueryError :=
  match v.parent, v.definition with
  | some parent, none =>
    let known := ((t.objectFields? parent).getD []).map (·.name)
    [errorAt v.offset
      ("Cannot query field " ++ quote v.name.text ++ " on type " ++ quote parent ++ "."
        ++ didYouMean "" (suggestions v.name.text known))]
  | _, _ => []

mutual

/-- Whether types are asked for through three lists of parts of types. -/
def isTooDeep (d : Document) : (room lists : Nat) → (within : List String) → Selection → Bool
  | 0, _, _, _ => false
  | room + 1, lists, within, .field _ name _ _ _ body =>
    let lists :=
      if name.text ∈ ["fields", "interfaces", "possibleTypes", "inputFields"] then lists + 1
      else lists
    lists ≥ 3 || anyTooDeep d room lists within body
  | room + 1, lists, within, .spread _ name _ =>
    if name.text ∈ within then false
    else
      match d.lastFragment? name.text with
      | some f => anyTooDeep d room lists (name.text :: within) f.body
      | none => false
  | room + 1, lists, within, .inline _ _ _ _ body => anyTooDeep d room lists within body

def anyTooDeep (d : Document) : (room lists : Nat) → (within : List String) →
    List Selection → Bool
  | 0, _, _, _ => false
  | _, _, _, [] => false
  | room + 1, lists, within, s :: rest =>
    isTooDeep d room lists within s || anyTooDeep d room lists within rest

end

/-- No walk without cycles takes more steps than there are selections along every fragment. -/
def walkRoom (d : Document) : Nat := (d.selectionCount + 2) * (d.parts.length + 2) * 2

def depthErrors (d : Document) (v : FieldVisit) : List QueryError :=
  if v.name.text ∈ ["__schema", "__type"] && anyTooDeep d (walkRoom d) 0 [] v.body then
    [errorAt v.offset "Maximum introspection depth exceeded"]
  else []

def introspectionErrors (s : Setting) (v : FieldVisit) : List QueryError :=
  match v.definition with
  | some f =>
    if !s.introspection && TypeSystem.isIntrospectionType f.type.name then
      [errorAt v.offset
        ("GraphQL introspection has been disabled, but the requested query contained the field "
          ++ quote v.name.text ++ ".")]
    else []
  | none => []

/-! Arguments and directives -/

def argumentErrors (v : FieldVisit) (n : Name) : List QueryError :=
  match v.parent, v.definition with
  | some parent, some f =>
    if (f.argument? n.text).isSome then []
    else
      [errorAt n.offset
        ("Unknown argument " ++ quote n.text ++ " on field " ++ quote (parent ++ "." ++ f.name)
          ++ "." ++ didYouMean "" (suggestions n.text (f.arguments.map (·.name))))]
  | _, _ => []

def missingArguments (offset : Nat) (place : String) (slots : List InputSlot)
    (given : List ArgumentNode) : List QueryError :=
  (slots.filter fun s => s.isRequired && !(given.any (·.name.text == s.name))).map fun s =>
    errorAt offset
      ("Argument " ++ quote (place ++ "(" ++ s.name ++ ":)") ++ " of type " ++ quote s.type.text
        ++ " is required, but it was not provided.")

def requiredErrors (v : FieldVisit) : List QueryError :=
  match v.definition with
  | some f =>
    let owner :=
      if f.name = TypeSystem.typeField.name ∧ TypeSystem.isIntrospectionType f.type.name then
        "<meta>"
      else v.parent.getD ""
    missingArguments v.offset (owner ++ "." ++ f.name) f.arguments v.arguments
  | none => []

def directiveErrors (place : String) (d : DirectiveNode) : List QueryError :=
  let name := quote ("@" ++ d.name.text)
  let known :=
    match TypeSystem.directive? d.name.text with
    | none => [errorAt d.offset ("Unknown directive " ++ name ++ ".")]
    | some def' =>
      (if place ∈ def'.locations.map placeWord then []
        else [errorAt d.offset ("Directive " ++ name ++ " may not be used on " ++ place ++ ".")])
        ++ d.arguments.filterMap fun a =>
          if def'.arguments.any (·.name == a.name.text) then none
          else
            some (errorAt a.name.offset
              ("Unknown argument " ++ quote a.name.text ++ " on directive " ++ name ++ "."
                ++ didYouMean "" (suggestions a.name.text (def'.arguments.map (·.name)))))
  known ++ repeatedErrors "argument" "" (d.arguments.map (·.name))
where
  placeWord (location : String) : String :=
    String.ofList (location.toList.map fun c => if c = '_' then ' ' else c.toLower)

/-- A directive that stands twice in one place, each time with its first occurrence. -/
def repeatedDirectives : (seen : List DirectiveNode) → List DirectiveNode → List QueryError
  | _, [] => []
  | seen, d :: rest =>
    if (TypeSystem.directive? d.name.text).isNone then repeatedDirectives seen rest
    else
      match seen.find? (·.name.text == d.name.text) with
      | none => repeatedDirectives (d :: seen) rest
      | some first =>
        { message :=
            "The directive " ++ quote ("@" ++ d.name.text)
              ++ " can only be used once at this location."
          offsets := [first.offset, d.offset] } :: repeatedDirectives seen rest

def directiveRequired (d : DirectiveNode) : List QueryError :=
  match TypeSystem.directive? d.name.text with
  | some def' => missingArguments d.offset ("@" ++ d.name.text) def'.arguments d.arguments
  | none => []

/-! Literals -/

/-- Fields that an object names again, each time with the first place of the name. -/
def repeatedObjectFields (seen : List Name) : List Name → List QueryError
  | [] => []
  | n :: ns =>
    match seen.find? (·.text == n.text) with
    | none => repeatedObjectFields (n :: seen) ns
    | some first =>
      { message := "There can be only one input field named " ++ quote n.text ++ "."
        offsets := [first.offset, n.offset] } :: repeatedObjectFields seen ns

mutual

def repeatedInLiteral : Literal → List QueryError
  | .list _ ls => repeatedInItems ls
  | .object _ fs => repeatedObjectFields [] (fs.map (·.1)) ++ repeatedInFields fs
  | _ => []

def repeatedInItems : List Literal → List QueryError
  | [] => []
  | l :: ls => repeatedInLiteral l ++ repeatedInItems ls

def repeatedInFields : List (Name × Literal) → List QueryError
  | [] => []
  | (_, l) :: fs => repeatedInLiteral l ++ repeatedInFields fs

end

def literalErrors (t : TypeSystem) (slot : Option InputSlot) (l : Literal) : List QueryError :=
  let unfit :=
    match slot with
    | some s =>
      (t.literalComplaints none s.type l).map fun c =>
        { message := c.message, offsets := c.offset.toList }
    | none => []
  unfit ++ repeatedInLiteral l

/-! Variables -/

/-- The use of a variable, and what is expected there. -/
structure Usage where
  name : String
  offset : Nat
  expected : Option TypeRef
  hasDefault : Bool

mutual

/-- The variables in a literal for a type. -/
def usagesIn (t : TypeSystem) (type : Option TypeRef) (hasDefault : Bool) :
    Literal → List Usage
  | .variable o n => [⟨n, o, type, hasDefault⟩]
  | .list _ ls => usagesInItems t (type.map TypeRef.item) ls
  | .object _ fs => usagesInFields t (type.map (·.name)) fs
  | _ => []

def usagesInItems (t : TypeSystem) (type : Option TypeRef) : List Literal → List Usage
  | [] => []
  | l :: ls => usagesIn t type false l ++ usagesInItems t type ls

def usagesInFields (t : TypeSystem) (type : Option String) :
    List (Name × Literal) → List Usage
  | [] => []
  | (n, l) :: fs =>
    let slot : Option InputSlot :=
      match type.bind t.type? with
      | some (.input _ slots) => slots.find? (·.name == n.text)
      | _ => none
    usagesIn t (slot.map (·.type)) (slot.any (·.defaultValue.isSome)) l
      ++ usagesInFields t type fs

end

/-- The uses of variables in a part of a document. -/
def usages (t : TypeSystem) (vs : List Visit) : List Usage :=
  vs.flatMap fun
    | .literal slot l =>
      usagesIn t (slot.map (·.type)) (slot.any (·.defaultValue.isSome)) l
    | _ => []

/-- The uses of variables in an operation and the fragments that it needs. -/
def operationUsages (s : Setting) (o : Operation) : List Usage :=
  usages s.types (operationVisits s.types o)
    ++ (s.document.fragmentsOf o).flatMap fun f => usages s.types (fragmentVisits s.types f)

/-- Whether every value of the first type is one of the second. -/
def isSubtype : TypeRef → TypeRef → Bool
  | .nonNull a, .nonNull b => isSubtype a b
  | _, .nonNull _ => false
  | .nonNull a, b => isSubtype a b
  | .list a, .list b => isSubtype a b
  | .named a, .named b => a == b
  | _, _ => false

/-- Whether a variable may stand where a type is expected. A default makes up for null. -/
def isAllowed (v : VariableNode) (expected : TypeRef) (hasDefault : Bool) : Bool :=
  let type := TypeRef.ofNode v.type
  let variableDefault :=
    match v.defaultValue with
    | none | some (.null _) => false
    | some _ => true
  if expected.isNonNull && !type.isNonNull then
    (variableDefault || hasDefault) && isSubtype type expected.nullable
  else isSubtype type expected

def ofOperation (word : String) (o : Operation) : String :=
  match o.name with
  | some n => word ++ " operation " ++ quote n.text
  | none => ""

/-- What is wrong with the variables of an operation. -/
def usageErrors (s : Setting) (o : Operation) : List QueryError :=
  let us := operationUsages s o
  let undefined :=
    (us.filter fun u => !(o.declared.any (·.name.text == u.name))).map fun u =>
      { message :=
          "Variable " ++ quote ("$" ++ u.name) ++ " is not defined" ++ ofOperation " by" o ++ "."
        offsets := [u.offset, o.offset] }
  let unused :=
    (o.declared.filter fun v => !(us.any (·.name == v.name.text))).map fun v =>
      errorAt v.offset
        ("Variable " ++ quote ("$" ++ v.name.text) ++ " is never used" ++ ofOperation " in" o
          ++ ".")
  let misplaced :=
    us.filterMap fun u =>
      match o.declared.reverse.find? (·.name.text == u.name), u.expected with
      | some v, some expected =>
        if (s.types.type? v.type.name.text).isNone || isAllowed v expected u.hasDefault then none
        else
          some
            { message :=
                "Variable " ++ quote ("$" ++ u.name) ++ " of type " ++ quote v.type.text
                  ++ " used in position expecting type " ++ quote expected.text ++ "."
              offsets := [v.offset, u.offset] }
      | _, _ => none
  undefined ++ unused ++ misplaced

/-! The walk -/

/-- What the rules remember between visits. -/
structure Memory where
  entered : Entered := []
  compared : Compared := {}

def visitErrors (s : Setting) : Visit → StateM Memory (List QueryError)
  | .operation o => return operationErrors s o
  | .endOperation o => return usageErrors s o
  | .fragment f => do
    let m ← get
    let (cycles, entered) :=
      (cycleErrors s.document (s.document.parts.length + 1) f []).run m.entered
    set { m with entered := entered }
    return conditionErrors s ("Fragment " ++ quote f.name.text) f.condition
      ++ takenName "fragment" (s.document.fragments.map (·.name)) f.name ++ cycles
  | .variableDefinition v => return variableErrors s v
  | .typeName n => return typeNameErrors s n
  | .selections parent offset body => do
    let m ← get
    let (conflicts, compared) :=
      (setConflicts s.types s.document parent offset body).run m.compared
    set { m with compared := compared }
    return conflicts.map Conflict.error
  | .field v => return leafErrors s.types v ++ unknownFieldErrors s.types v
  | .fieldContent v =>
    return repeatedErrors "argument" "" (v.arguments.map (·.name)) ++ depthErrors s.document v
      ++ introspectionErrors s v
  | .endField v => return requiredErrors v
  | .argument v n => return argumentErrors v n
  | .literal slot l => return literalErrors s.types slot l
  | .directives ds => return repeatedDirectives [] ds
  | .directive place d => return directiveErrors place d
  | .endDirective d => return directiveRequired d
  | .spread parent offset n => do
    let unknown :=
      if (s.document.fragment? n.text).isSome then []
      else [errorAt n.offset ("Unknown fragment " ++ quote n.text ++ ".")]
    let type := (s.document.lastFragment? n.text).map (·.condition.text)
    return unknown ++ spreadErrors s offset ("Fragment " ++ quote n.text) parent type
  | .inline parent type offset condition =>
    return (condition.map (conditionErrors s "Fragment")).getD []
      ++ spreadErrors s offset "Fragment" parent type

/-- Definitions in a document cannot be executed. -/
def definitionErrors (d : Document) : List QueryError :=
  d.parts.filterMap fun
    | .type offset def' =>
      let subject :=
        match def' with
        | .object n _ | .input n _ | .enum n _ | .other (some n) _ _ => quote n.text
        | .other none _ _ => "schema"
      some (errorAt offset ("The " ++ subject ++ " definition is not executable."))
    | _ => none

/-- All errors of a document in order. -/
def allErrors (s : Setting) : List QueryError :=
  definitionErrors s.document
    ++ (((visits s.types s.document).mapM (visitErrors s)).run {}).1.flatten
    ++ unusedFragments s.document

def errorLimit : Nat := 100

/-- The errors of a document; after the limit one more says that there were more. -/
def errors (s : Setting) : List QueryError :=
  let es := allErrors s
  if es.length ≤ errorLimit then es
  else
    es.take errorLimit
      ++ [{ message := "Too many validation errors, error limit reached. Validation aborted." }]

end ResourceGraph.Validation
