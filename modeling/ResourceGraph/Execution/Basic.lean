import ResourceGraph.Execution.Collection
import ResourceGraph.Execution.Introspection
import ResourceGraph.Fault

/-!
Execution of an operation. A field is resolved, and its value is completed for the type of the
field. An error is reported at the nearest place that may be null, which is null in the answer;
errors before it stay, and fields after it in an object that is lost are not executed.
-/

namespace ResourceGraph.Execution

open Query TypeSystem

/-- What a resolver is asked. -/
structure FieldCall where
  source : Value
  arguments : Keyed.Entries Value
  /-- The headers of the request. -/
  headers : Keyed.Entries Value

abbrev FieldResolver (σ : Type) := FieldCall → StateM σ (Except Raised Value)

abbrev FieldResolvers (σ : Type) := (type field : String) → Option (FieldResolver σ)

/-- What fields are executed with. Fields without a resolver are read from the value that their
object comes from. -/
structure Engine (σ : Type) extends Scope where
  resolver? : FieldResolvers σ
  headers : Keyed.Entries Value

/-- The state of what the resolvers ask, and the errors reported so far. -/
structure Progress (σ : Type) where
  store : σ
  errors : List QueryError := []

abbrev Exec (σ : Type) := StateM (Progress σ)

/-- A part of an answer, or an error that is still to be reported. -/
abbrev Outcome := Except QueryError Value

variable {σ : Type}

/-- A field of an answer and where it was selected. -/
structure Place where
  type : String
  field : String
  offsets : List Nat
  /-- The way to it, the last step first. -/
  path : List PathStep

def Place.coordinate (p : Place) : String := p.type ++ "." ++ p.field

def Place.error (p : Place) (message : String) : QueryError :=
  { message := message, offsets := p.offsets, path := p.path.reverse }

def Place.complaintError (p : Place) (c : Complaint) : QueryError :=
  match c.offset with
  | some o => { p.error c.message with offsets := [o] }
  | none => p.error c.message

def report (e : QueryError) : Exec σ Unit :=
  modify fun s => { s with errors := s.errors ++ [e] }

/-- An error ends where null is allowed. -/
def settle (type : TypeRef) (o : Outcome) : Exec σ Outcome := do
  match o with
  | .ok v => return .ok v
  | .error e =>
    if type.isNonNull then return .error e
    else
      report e
      return .ok .null

/-! Values -/

/-- The name that answers for a value of an enumeration: that of the first member with it. -/
def memberName (enum : String) (ms : List EnumMember) (v : Value) : Except String Value :=
  match ms.find? fun m => m.internal.innerEq v with
  | some m => .ok (.str m.name)
  | none => .error ("Enum '" ++ enum ++ "' cannot represent value: " ++ v.brief)

def ofMessage (p : Place) : Except String Value → Outcome
  | .ok v => .ok v
  | .error message => .error (p.error message)

/-- Goes through the items of a list; the first error that may not end there ends the list. -/
def completeItems (type : TypeRef) (complete : Datum → Place → Exec σ Outcome) (p : Place) :
    (i : Nat) → List Datum → Exec σ (Except QueryError (List Value))
  | _, [] => return .ok []
  | i, d :: ds => do
    match ← settle type (← complete d { p with path := .index i :: p.path }) with
    | .error e => return .error e
    | .ok v => return (← completeItems type complete p (i + 1) ds).map (v :: ·)

/-- The part of the answer for a value of a type. Objects are left to `object`. -/
def complete (t : TypeSystem) (object : String → Datum → Place → Exec σ Outcome) :
    TypeRef → Datum → Place → Exec σ Outcome
  | .nonNull inner, d, p => do
    match ← complete t object inner d p with
    | .error e => return .error e
    | .ok v =>
      if v.isNull then
        return .error
          (p.error ("Cannot return null for non-nullable field " ++ p.coordinate ++ "."))
      else return .ok v
  | .list item, d, p => do
    if d.isNull then return .ok .null
    match d.items? with
    | none =>
      return .error
        (p.error ("Expected Iterable, but did not find one for field '" ++ p.coordinate ++ "'."))
    | some ds => return (← completeItems item (complete t object item) p 0 ds).map .arr
  | .named name, d, p => do
    if d.isNull then return .ok .null
    match t.type? name with
    | some (.scalar s) => return ofMessage p (s.answer d.toValue)
    | some (.enum n ms) => return ofMessage p (memberName n ms d.toValue)
    | some (.object n _) => object n d p
    | _ => return .ok .null

/-! Fields -/

variable (e : Engine σ)

/-- Asks a resolver with the store. -/
def ask (r : FieldResolver σ) (call : FieldCall) : Exec σ (Except Raised Value) := do
  let s ← get
  let (answer, store) := r call s.store
  set { s with store := store }
  return answer

def describe (source : Datum) (field : String) : Datum :=
  match source with
  | .value v => .value (v.get field)
  | .described d => d.answer e.types field
  | .describedList _ => .null

/-- The type whose name is asked for. -/
def namedTypeDatum (args : Keyed.Entries Value) : Datum :=
  match (Value.obj args).get "name" with
  | .str n => if (e.types.type? n).isSome then .described (.type (.named n)) else .null
  | _ => .null

/-- The value of a field before it is completed. -/
def resolve (p : Place) (source : Datum) (args : Keyed.Entries Value) :
    Exec σ (Except QueryError Datum) := do
  if p.field = typenameField.name then return .ok (.text p.type)
  else if p.field = schemaField.name then return .ok (.described .schema)
  else if p.field = typeField.name then return .ok (namedTypeDatum e args)
  else
    match e.resolver? p.type p.field with
    | none => return .ok (describe e source p.field)
    | some r =>
      match ← ask r ⟨source.toValue, args, e.headers⟩ with
      | .ok v => return .ok (.value v)
      | .error f => return .error { p.error f.message with code := f.code }

/-- One field of an object: its arguments, its value, and the completion of that. A field that the
type does not have gives nothing. -/
def field (object : String → List (List Selection) → Datum → Place → Exec σ Outcome)
    (type : String) (source : Datum) (path : List PathStep) (key : String)
    (uses : List Selected) : Exec σ (Except QueryError (Option (String × Value))) := do
  match uses with
  | [] => return .ok none
  | first :: _ =>
    match e.types.field? type first.name with
    | none => return .ok none
    | some f =>
      let p : Place := ⟨type, f.name, uses.map (·.offset), .key key :: path⟩
      let outcome : Outcome ←
        match argumentValues e.types e.values p.coordinate first.arguments f.arguments with
        | .error c => pure (.error (p.complaintError c))
        | .ok args => do
          match ← resolve e p source args with
          | .error err => pure (.error err)
          | .ok d => complete e.types (object · (uses.map (·.body))) f.type d p
      return (← settle f.type outcome).map fun v => some (key, v)

def fields (one : String → List Selected → Exec σ (Except QueryError (Option (String × Value)))) :
    Groups → Exec σ (Except QueryError (List (String × Value)))
  | [] => return .ok []
  | (key, uses) :: rest => do
    match ← one key uses with
    | .error err => return .error err
    | .ok v => return (← fields one rest).map (v.toList ++ ·)

/-- An object in a field, which is answered by what the selection sets of the field ask of it. -/
def below (object : String → Datum → List PathStep → Groups → Exec σ Outcome) (type : String)
    (bodies : List (List Selection)) (d : Datum) (p : Place) : Exec σ Outcome :=
  match groupsOf e.toScope type bodies with
  | .error c => return .error (p.complaintError c)
  | .ok groups => object type d p.path groups

/-- An object of the answer from groups of fields, at most `depth` levels of objects deep. -/
def object : (depth : Nat) → (type : String) → (source : Datum) → (path : List PathStep) →
    Groups → Exec σ Outcome
  | 0, _, _, _, _ => return .ok .null
  | depth + 1, type, source, path, groups => do
    return (← fields (field e (below e (object depth)) type source path) groups).map .obj

/-! Operations -/

/-- The answer to an operation, null if nothing of it is left. -/
def operation (o : Operation) (root : String) : Exec σ Value := do
  match groupsOf e.toScope root [o.body] with
  | .error c =>
    report { message := c.message, offsets := c.offset.toList }
    return .null
  | .ok groups =>
    match ← object e (e.document.selectionCount + 1) root .null [] groups with
    | .ok v => return v
    | .error err =>
      report err
      return .null

/-- The operation of a document that is meant. -/
def chosen (d : Document) (name : Option String) : Except String Operation :=
  match name with
  | some n =>
    match d.operations.find? fun o => o.name.any (·.text == n) with
    | some o => .ok o
    | none => .error ("Unknown operation named '" ++ n ++ "'.")
  | none =>
    match d.operations with
    | [o] => .ok o
    | [] => .error "Must provide an operation."
    | _ => .error "Must provide operation name if query contains multiple operations."

end ResourceGraph.Execution
