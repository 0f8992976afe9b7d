import ResourceGraph.Query.Document
import ResourceGraph.Query.Lexeme

/-!
Reading documents. The reader holds one token; taking it makes the next lexeme the current token,
and fails if that lexeme is a defect. Repetitions end because every round takes a token, nesting
because there are only as many brackets as tokens.
-/

namespace ResourceGraph.Query

/-- The current token, and what comes after it. -/
structure Cursor where
  token : Token
  offset : Nat
  rest : List Lexeme

abbrev Reader := StateT Cursor (Except SyntaxError)

namespace Reader

def failAt {α : Type} (offset : Nat) (d : Defect) : Reader α := fun _ => .error ⟨offset, d⟩

def fail {α : Type} (d : Defect) : Reader α := do failAt (← get).offset d

def peek : Reader Token := do return (← get).token

def offset : Reader Nat := do return (← get).offset

def unexpected {α : Type} : Reader α := do fail (.unexpected (← peek))

/-- Goes on to the next lexeme. The end of the text stays where it is. -/
def advance : Reader Unit := do
  let c ← get
  match c.rest with
  | [] => return
  | l :: rest =>
    match l.content with
    | .ok t => set (Cursor.mk t l.offset rest)
    | .error d => failAt l.offset d

def isMark (m : Mark) : Reader Bool := do return (← peek) = .mark m

def expect (m : Mark) : Reader Unit := do
  if ← isMark m then advance else fail (.expected (.mark m) (← peek))

/-- Takes a mark if it comes next. -/
def accept (m : Mark) : Reader Bool := do
  if ← isMark m then
    advance
    return true
  else return false

def expectKeyword (word : String) : Reader Unit := do
  if (← peek) = .name word then advance else fail (.expected (.keyword word) (← peek))

def acceptKeyword (word : String) : Reader Bool := do
  if (← peek) = .name word then
    advance
    return true
  else return false

def name : Reader Name := do
  match ← peek with
  | .name s =>
    let o ← offset
    advance
    return ⟨s, o⟩
  | t => fail (.expected .name t)

def isName : Reader Bool := do
  match ← peek with
  | .name _ => return true
  | _ => return false

/-! Repetition -/

variable {α : Type}

/-- One or more items; after each, `more` says whether another one follows. -/
def repeated (item : Reader α) (more : Reader Bool) : Reader (List α) := fun c =>
  match item c with
  | .error e => .error e
  | .ok (a, c') =>
    match more c' with
    | .error e => .error e
    | .ok (false, c'') => .ok ([a], c'')
    | .ok (true, c'') =>
      if _h : c''.rest.length < c.rest.length then
        match repeated item more c'' with
        | .error e => .error e
        | .ok (as, c''') => .ok (a :: as, c''')
      else .ok ([a], c'')
termination_by c => c.rest.length

/-- Items up to a closing mark, at least one. -/
def untilMark (close : Mark) (item : Reader α) : Reader (List α) :=
  repeated item do return !(← accept close)

/-- One or more items between marks. -/
def enclosed (openMark close : Mark) (item : Reader α) : Reader (List α) := do
  expect openMark
  untilMark close item

/-- Nothing, or one or more items between marks. -/
def optionally (openMark close : Mark) (item : Reader α) : Reader (List α) := do
  if ← accept openMark then untilMark close item else return []

/-- Any number of items between marks. -/
def anyEnclosed (openMark close : Mark) (item : Reader α) : Reader (List α) := do
  expect openMark
  if ← accept close then return [] else untilMark close item

/-- Items with a mark between them; one before the first is allowed. -/
def delimited (m : Mark) (item : Reader α) : Reader (List α) := do
  let _ ← accept m
  repeated item (accept m)

/-! Values and types -/

def namedValue (s : String) (o : Nat) : Literal :=
  if s = "true" then .boolean o true
  else if s = "false" then .boolean o false
  else if s = "null" then .null o
  else .enum o s

/-- The name of a variable, after its mark. -/
def variableName : Reader Name := do
  expect .dollar
  name

/-- A variable where only constants are allowed. -/
def refusedVariable : Reader Literal := do
  let o ← offset
  expect .dollar
  match ← peek with
  | .name s => failAt o (.variableInConstant s)
  | _ => failAt o (.unexpected (.mark .dollar))

def literal (constant : Bool) : (depth : Nat) → Reader Literal
  | 0 => fail .tooDeep
  | depth + 1 => do
    let o ← offset
    match ← peek with
    | .mark .openBracket =>
      return .list o (← anyEnclosed .openBracket .closeBracket (literal constant depth))
    | .mark .openBrace =>
      return .object o (← anyEnclosed .openBrace .closeBrace do
        let n ← name
        expect .colon
        return (n, ← literal constant depth))
    | .mark .dollar =>
      if constant then refusedVariable else return .variable o (← variableName).text
    | .int s => advance; return .int o s
    | .float s => advance; return .float o s
    | .string s => advance; return .string o s false
    | .blockString s => advance; return .string o s true
    | .name s => advance; return namedValue s o
    | _ => unexpected

def typeNode : (depth : Nat) → Reader TypeNode
  | 0 => fail .tooDeep
  | depth + 1 => do
    let o ← offset
    let t ←
      if ← accept .openBracket then do
        let item ← typeNode depth
        expect .closeBracket
        pure (TypeNode.list o item)
      else pure (TypeNode.named (← name))
    if ← accept .bang then return .nonNull t else return t

variable (depth : Nat)

def argument (constant : Bool) : Reader ArgumentNode := do
  let n ← name
  expect .colon
  return ⟨n, ← literal constant depth⟩

def arguments (constant : Bool) : Reader (List ArgumentNode) :=
  optionally .openParen .closeParen (argument depth constant)

def directive (constant : Bool) : Reader DirectiveNode := do
  let o ← offset
  expect .at
  let n ← name
  return ⟨o, n, ← arguments depth constant⟩

def directives (constant : Bool) : Reader (List DirectiveNode) := do
  if ← isMark .at then repeated (directive depth constant) (isMark .at) else return []

/-! Operations and fragments -/

/-- The name of a fragment, which is not `on`. -/
def fragmentName : Reader Name := do
  if (← peek).text = "on" then unexpected else name

def selection : (depth : Nat) → Reader Selection
  | 0 => fail .tooDeep
  | depth + 1 => do
    let body : Reader (List Selection) := anyEnclosed .openBrace .closeBrace (selection depth)
    let o ← offset
    if ← accept .spread then
      let conditioned ← acceptKeyword "on"
      if !conditioned && (← isName) then
        let n ← fragmentName
        return .spread o n (← directives depth false)
      let condition ← if conditioned then some <$> name else pure none
      let ds ← directives depth false
      let bo ← offset
      return .inline o condition ds bo (← body)
    else
      let first ← name
      let (label, n) ←
        if ← accept .colon then pure (some first, ← name) else pure (none, first)
      let args ← arguments depth false
      let ds ← directives depth false
      let bo ← offset
      if ← isMark .openBrace then return .field label n args ds (some bo) (← body)
      else return .field label n args ds none []

def selectionSet : Reader (List Selection) :=
  anyEnclosed .openBrace .closeBrace (selection depth)

def variableNode : Reader VariableNode := do
  let o ← offset
  let n ← variableName
  expect .colon
  let t ← typeNode depth
  let d ← if ← accept .equals then some <$> literal true depth else pure none
  return ⟨o, n, t, d, ← directives depth true⟩

def operationKind : Reader OperationKind := do
  match ← peek with
  | .name "query" => advance; return .query
  | .name "mutation" => advance; return .mutation
  | .name "subscription" => advance; return .subscription
  | .name _ => unexpected
  | t => fail (.expected .name t)

/-- A selection set alone is a query without a name. -/
def shorthand : Reader Operation := do
  let o ← offset
  return ⟨o, .query, none, [], [], o, ← selectionSet depth⟩

def operation : Reader Operation := do
  let o ← offset
  let kind ← operationKind
  let n ← if ← isName then some <$> name else pure none
  let vs ← optionally .openParen .closeParen (variableNode depth)
  let ds ← directives depth false
  let bo ← offset
  return ⟨o, kind, n, vs, ds, bo, ← selectionSet depth⟩

def fragment : Reader Fragment := do
  let o ← offset
  expectKeyword "fragment"
  let n ← fragmentName
  expectKeyword "on"
  let condition ← name
  let ds ← directives depth false
  let bo ← offset
  return ⟨o, n, condition, ds, bo, ← selectionSet depth⟩

/-! Definitions of types -/

/-- Takes a description if there is one. -/
def description : Reader Bool := do
  match ← peek with
  | .string _ | .blockString _ =>
    advance
    return true
  | _ => return false

def inputNode : Reader InputNode := do
  let _ ← description
  let n ← name
  expect .colon
  let t ← typeNode depth
  let d ← if ← accept .equals then some <$> literal true depth else pure none
  let _ ← directives depth true
  return ⟨n, t, d⟩

def fieldNode : Reader FieldNode := do
  let _ ← description
  let n ← name
  let args ← optionally .openParen .closeParen (inputNode depth)
  expect .colon
  let t ← typeNode depth
  let _ ← directives depth true
  return ⟨n, args, t⟩

def enumValue : Reader Name := do
  let _ ← description
  if (← peek).text ∈ ["true", "false", "null"] then fail (.reservedValue (← peek))
  let n ← name
  let _ ← directives depth true
  return n

def interfaces : Reader (List Name) := do
  if ← acceptKeyword "implements" then delimited .ampersand name else return []

def fieldNodes : Reader (List FieldNode) :=
  optionally .openBrace .closeBrace (fieldNode depth)

def fieldReferences (fs : List FieldNode) : List Name :=
  fs.flatMap fun f => f.arguments.map (·.type.name) ++ [f.type.name]

def rootType : Reader Name := do
  let _ ← operationKind
  expect .colon
  name

def executableLocations : List String :=
  ["QUERY", "MUTATION", "SUBSCRIPTION", "FIELD", "FRAGMENT_DEFINITION", "FRAGMENT_SPREAD",
    "INLINE_FRAGMENT", "VARIABLE_DEFINITION"]

def typeSystemLocations : List String :=
  ["SCHEMA", "SCALAR", "OBJECT", "FIELD_DEFINITION", "ARGUMENT_DEFINITION", "INTERFACE", "UNION",
    "ENUM", "ENUM_VALUE", "INPUT_OBJECT", "INPUT_FIELD_DEFINITION"]

def directiveLocation : Reader Name := do
  let o ← offset
  let n ← name
  if n.text ∈ executableLocations ++ typeSystemLocations then return n
  else failAt o (.unexpected (.name n.text))

/-- In an extension something has to be extended. -/
def demand (extension present : Bool) : Reader Unit := do
  if extension && !present then unexpected

/-- A definition from its keyword on, or an extension from the keyword after `extend` on. -/
def typeDefinition (extension : Bool) : Reader TypeDefinition := do
  let word ← peek
  match word with
  | .name "schema" =>
    advance
    let ds ← directives depth true
    let roots ←
      if extension then optionally .openBrace .closeBrace rootType
      else enclosed .openBrace .closeBrace rootType
    demand extension (!ds.isEmpty || !roots.isEmpty)
    return .other none false roots
  | .name "scalar" =>
    advance
    let n ← name
    let ds ← directives depth true
    demand extension (!ds.isEmpty)
    return .other n (!extension) []
  | .name "type" =>
    advance
    let n ← name
    let is ← interfaces
    let ds ← directives depth true
    let fs ← fieldNodes depth
    demand extension (!is.isEmpty || !ds.isEmpty || !fs.isEmpty)
    return if extension || !is.isEmpty then .other n (!extension) (is ++ fieldReferences fs)
      else .object n fs
  | .name "interface" =>
    advance
    let n ← name
    let is ← interfaces
    let ds ← directives depth true
    let fs ← fieldNodes depth
    demand extension (!is.isEmpty || !ds.isEmpty || !fs.isEmpty)
    return .other n (!extension) (is ++ fieldReferences fs)
  | .name "union" =>
    advance
    let n ← name
    let ds ← directives depth true
    let members ← if ← accept .equals then delimited .bar name else pure []
    demand extension (!ds.isEmpty || !members.isEmpty)
    return .other n (!extension) members
  | .name "enum" =>
    advance
    let n ← name
    let ds ← directives depth true
    let values ← optionally .openBrace .closeBrace (enumValue depth)
    demand extension (!ds.isEmpty || !values.isEmpty)
    return if extension then .other n false [] else .enum n values
  | .name "input" =>
    advance
    let n ← name
    let ds ← directives depth true
    let fs ← optionally .openBrace .closeBrace (inputNode depth)
    demand extension (!ds.isEmpty || !fs.isEmpty)
    return if extension then .other n false (fs.map (·.type.name)) else .input n fs
  | .name "directive" =>
    if extension then unexpected
    advance
    expect .at
    let n ← name
    let args ← optionally .openParen .closeParen (inputNode depth)
    let _ ← acceptKeyword "repeatable"
    expectKeyword "on"
    let _ ← delimited .bar directiveLocation
    return .other n false (args.map (·.type.name))
  | _ => unexpected

def typeKeywords : List String :=
  ["schema", "scalar", "type", "interface", "union", "enum", "input", "directive"]

def part : Reader DocumentPart := do
  let o ← offset
  if ← isMark .openBrace then return .operation (← shorthand depth)
  let described ← description
  match ← peek with
  | .name word =>
    if word ∈ typeKeywords then return .type o (← typeDefinition depth false)
    else if described then failAt o .describedOperation
    else if word ∈ ["query", "mutation", "subscription"] then
      return .operation (← operation depth)
    else if word = "fragment" then return .fragment (← fragment depth)
    else if word = "extend" then
      advance
      return .type o (← typeDefinition depth true)
    else unexpected
  | _ => unexpected

def document : Reader Document := do
  let parts ← repeated (part depth) do return (← peek) ≠ .endOfText
  return ⟨parts⟩

end Reader

/-- Reads a document of at least one part. -/
def Document.read (text : String) : Except SyntaxError Document :=
  match lexemes text with
  | [] => .error ⟨0, .unexpected .endOfText⟩
  | l :: rest =>
    match l.content with
    | .error d => .error ⟨l.offset, d⟩
    | .ok t => ((Reader.document (rest.length + 1)).run ⟨t, l.offset, rest⟩).map (·.1)

end ResourceGraph.Query
