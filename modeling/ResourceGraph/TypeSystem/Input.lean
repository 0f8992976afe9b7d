import ResourceGraph.Query.Error
import ResourceGraph.Query.Suggestion
import ResourceGraph.TypeSystem.Scalar

/-!
Values for the input types of a type system, from literals and from variables: the value, if there
is one, and the complaints otherwise.
-/

namespace ResourceGraph.TypeSystem

open Query

/-- What is wrong with an input value, and at which place in the document, if it has one. -/
structure Complaint where
  message : String
  offset : Option Nat := none
  path : List PathStep := []

/-! Messages -/

def nullForNonNull (type : TypeRef) : String :=
  "Expected value of non-null type '" ++ type.text ++ "' not to be None."

def missingForNonNull (type : TypeRef) : String :=
  "Expected a value of non-null type '" ++ type.text ++ "' to be provided."

def notAnObject (type found : String) : String :=
  "Expected value of type '" ++ type ++ "' to be an object, found: " ++ found ++ "."

def withoutRequired (type field found : String) : String :=
  "Expected value of type '" ++ type ++ "' to include required field '" ++ field ++ "', found: "
    ++ found ++ "."

def withUnknown (type field : String) (known : List String) (found : String) : String :=
  let question := didYouMean "" (suggestions field known)
  "Expected value of type '" ++ type ++ "' not to include unknown field '" ++ field ++ "'"
    ++ (if question = "" then ", found" else "." ++ question ++ " Found") ++ ": " ++ found ++ "."

def meantMember (ms : List EnumMember) (written : String) : String :=
  didYouMean "the enum value" (suggestions written (ms.map (·.name)))

def noMember (enum : String) (ms : List EnumMember) (written : String) : String :=
  "Value '" ++ written ++ "' does not exist in '" ++ enum ++ "' enum." ++ meantMember ms written

/-- The value of a name of an enumeration. -/
def memberValue (enum : String) (ms : List EnumMember) (written : String) : Except String Value :=
  match ms.find? (·.name == written) with
  | some m => .ok m.internal
  | none => .error (noMember enum ms written)

def enumOfLiteral (enum : String) (ms : List EnumMember) (l : Literal) : Except String Value :=
  match l with
  | .enum _ n => memberValue enum ms n
  | l =>
    .error ("Enum '" ++ enum ++ "' cannot represent non-enum value: " ++ l.text ++ "."
      ++ meantMember ms l.text)

def enumOfValue (enum : String) (ms : List EnumMember) (v : Value) : Except String Value :=
  match v with
  | .str n => memberValue enum ms n
  | v =>
    .error ("Enum '" ++ enum ++ "' cannot represent non-string value: " ++ v.brief ++ "."
      ++ meantMember ms v.brief)

/-- A literal that is put together from others has no place of its own once it is evaluated. -/
def placeOf : Literal → Option Nat
  | .list .. | .object .. => none
  | l => some l.offset

def complain (offset : Option Nat) : Except String Value → List Complaint
  | .ok _ => []
  | .error message => [{ message := message, offset := offset }]

variable (t : TypeSystem)

/-! Literals -/

/-- Variables with their values; one that has none is not in the list. -/
abbrev Variables := Keyed.Entries Value

/-- What is wrong with a variable for a type, once variables have values. -/
def variableComplaints (vars : Variables) (name : String) (offset : Nat) (type : TypeRef) :
    List Complaint :=
  match type, Keyed.find? name vars with
  | .nonNull _, none =>
    [{ message := "Expected variable '$" ++ name ++ "' provided to type '" ++ type.text
          ++ "' to provide a runtime value."
       offset := some offset }]
  | .nonNull _, some .null =>
    [{ message := "Expected variable '$" ++ name ++ "' provided to non-null type '" ++ type.text
          ++ "' not to be None."
       offset := some offset }]
  | _, _ => []

/-- The complaints about the fields of an input type, in its order: about the value that is given,
or that there is none. -/
def slotComplaints (given : Keyed.Entries (List Complaint)) (offset : Option Nat)
    (type found : String) (slots : List InputSlot) : List Complaint :=
  slots.flatMap fun s =>
    match Keyed.find? s.name given with
    | some cs => cs
    | none =>
      if s.isRequired then [{ message := withoutRequired type s.name found, offset := offset }]
      else []

mutual

/-- What is wrong with a literal for a type. Without values, variables are not looked at. -/
def literalComplaints (vars : Option Variables) : TypeRef → Literal → List Complaint
  | .nonNull inner, .variable o n =>
    (vars.map fun vs => variableComplaints vs n o (.nonNull inner)).getD []
  | .nonNull inner, .null o =>
    [{ message := nullForNonNull (.nonNull inner), offset := some o }]
  | .nonNull inner, l => literalComplaints vars inner l
  | .list _, .variable .. | .list _, .null _ => []
  | .list item, .list _ ls => itemComplaints vars item 0 ls
  | .list item, l => literalComplaints vars item l
  | .named _, .variable .. | .named _, .null _ => []
  | .named name, .object o fs =>
    match t.type? name with
    | some (.scalar s) => complain none (s.ofLiteral (.object o fs))
    | some (.enum n ms) => complain none (enumOfLiteral n ms (.object o fs))
    | some (.input n slots) =>
      let found := (Literal.object o fs).text
      let unknown := fs.filter fun f => !(slots.any (·.name == f.1.text))
      slotComplaints (fieldComplaints vars slots fs) (some o) n found slots
        ++ unknown.map fun f =>
          { message := withUnknown n f.1.text (slots.map (·.name)) found, offset := some o }
    | _ => []
  | .named name, l =>
    match t.type? name with
    | some (.scalar s) => complain (placeOf l) (s.ofLiteral l)
    | some (.enum n ms) => complain (placeOf l) (enumOfLiteral n ms l)
    | some (.input n _) => [{ message := notAnObject n l.text, offset := some l.offset }]
    | _ => []
termination_by type l => (sizeOf l, sizeOf type)

def itemComplaints (vars : Option Variables) (item : TypeRef) :
    (i : Nat) → List Literal → List Complaint
  | _, [] => []
  | i, l :: ls =>
    (literalComplaints vars item l).map (fun c => { c with path := .index i :: c.path })
      ++ itemComplaints vars item (i + 1) ls
termination_by _ ls => (sizeOf ls, 0)

/-- The complaints about each field that is given. -/
def fieldComplaints (vars : Option Variables) (slots : List InputSlot) :
    List (Name × Literal) → Keyed.Entries (List Complaint)
  | [] => []
  | (n, l) :: fs =>
    let cs :=
      match slots.find? (·.name == n.text) with
      | none => []
      | some s =>
        (literalComplaints vars s.type l).map fun c => { c with path := .key n.text :: c.path }
    (n.text, cs) :: fieldComplaints vars slots fs
termination_by fs => (sizeOf fs, 0)

end

/-- The value of a field of an input object: as given, by default, or none if it may be left out. -/
def slotValue? (defaults : InputSlot → Option Value) (s : InputSlot) (given : Option Value) :
    Option (Option (String × Value)) :=
  match given with
  | some v => some (some (s.name, v))
  | none =>
    match defaults s with
    | some d => some (some (s.name, d))
    | none => if s.type.isNonNull then none else some none

/-- Whether a literal is a variable without a value. -/
def isMissing (vars : Variables) : Literal → Bool
  | .variable _ n => !(Keyed.hasKey n vars)
  | _ => false

section Values

variable (defaults : InputSlot → Option Value) (vars : Variables)

mutual

/-- The value of a literal for a type, if it has one. -/
def literalValueBy? : TypeRef → Literal → Option Value
  | .nonNull inner, l => (literalValueBy? inner l).filter (!·.isNull)
  | _, .variable _ n => Keyed.find? n vars
  | _, .null _ => some .null
  | .list item, .list _ ls => (itemValuesBy? item ls).map .arr
  | .list item, l => (literalValueBy? item l).map fun v => .arr [v]
  | .named name, .object o fs =>
    match t.type? name with
    | some (.input _ slots) =>
      if fs.all fun f => slots.any (·.name == f.1.text) then
        (fieldValuesBy? slots fs).bind fun given =>
          (slots.mapM fun s => slotValue? defaults s (Keyed.find? s.name given)).map fun vs =>
            .obj (vs.filterMap id)
      else none
    | some (.scalar s) => (s.ofLiteral (.object o fs)).toOption
    | _ => none
  | .named name, l =>
    match t.type? name with
    | some (.scalar s) => (s.ofLiteral l).toOption
    | some (.enum n ms) => (enumOfLiteral n ms l).toOption
    | _ => none
termination_by type l => (sizeOf l, sizeOf type)

/-- The items of a list; a variable without a value is null. -/
def itemValuesBy? (item : TypeRef) : List Literal → Option (List Value)
  | [] => some []
  | l :: ls => do
    let v ←
      if isMissing vars l then (if item.isNonNull then none else some .null)
      else literalValueBy? item l
    return v :: (← itemValuesBy? item ls)
termination_by ls => (sizeOf ls, 0)

/-- The fields of an object; a variable without a value gives no field. -/
def fieldValuesBy? (slots : List InputSlot) :
    List (Name × Literal) → Option (Keyed.Entries Value)
  | [] => some []
  | (n, l) :: fs => do
    let rest ← fieldValuesBy? slots fs
    match slots.find? (·.name == n.text) with
    | some s =>
      if isMissing vars l then return rest
      else return (n.text, ← literalValueBy? s.type l) :: rest
    | none => return rest
termination_by fs => (sizeOf fs, 0)

end

end Values

/-- The default of a slot. Inside a default other defaults may be used, as deep as there are
types. -/
def defaultWithin? : (room : Nat) → InputSlot → Option Value
  | 0, _ => none
  | room + 1, s => s.defaultValue.bind (literalValueBy? t (defaultWithin? room) [] s.type)

def default? (s : InputSlot) : Option Value := defaultWithin? t (t.types.length + 1) s

/-- The value of a literal for a type, if it has one. -/
def literalValue? (vars : Variables) (type : TypeRef) (l : Literal) : Option Value :=
  literalValueBy? t t.default? vars type l

/-! Values of variables -/

mutual

/-- What is wrong with the value of a variable for a type. -/
def valueComplaints : TypeRef → Value → List Complaint
  | .nonNull inner, .null => [{ message := nullForNonNull (.nonNull inner) }]
  | .nonNull inner, v => valueComplaints inner v
  | _, .null => []
  | .list item, .arr vs => listComplaints item 0 vs
  | .list item, v => valueComplaints item v
  | .named name, .obj ms =>
    match t.type? name with
    | some (.scalar s) => complain none (s.ofValue (.obj ms))
    | some (.enum n es) => complain none (enumOfValue n es (.obj ms))
    | some (.input n slots) =>
      let found := (Value.obj ms).brief
      let unknown := ms.filter fun m => !(slots.any (·.name == m.1))
      slotComplaints (memberComplaints slots ms) none n found slots
        ++ unknown.map fun m =>
          { message := withUnknown n m.1 (slots.map (·.name)) found }
    | _ => []
  | .named name, v =>
    match t.type? name with
    | some (.scalar s) => complain none (s.ofValue v)
    | some (.enum n es) => complain none (enumOfValue n es v)
    | some (.input n _) => [{ message := notAnObject n v.brief }]
    | _ => []
termination_by type v => (sizeOf v, sizeOf type)

def listComplaints (item : TypeRef) : (i : Nat) → List Value → List Complaint
  | _, [] => []
  | i, v :: vs =>
    (valueComplaints item v).map (fun c => { c with path := .index i :: c.path })
      ++ listComplaints item (i + 1) vs
termination_by _ vs => (sizeOf vs, 0)

def memberComplaints (slots : List InputSlot) :
    List (String × Value) → Keyed.Entries (List Complaint)
  | [] => []
  | (k, v) :: ms =>
    let cs :=
      match slots.find? (·.name == k) with
      | none => []
      | some s => (valueComplaints s.type v).map fun c => { c with path := .key k :: c.path }
    (k, cs) :: memberComplaints slots ms
termination_by ms => (sizeOf ms, 0)

end

mutual

/-- The value of a variable for a type, if it has one. -/
def inputValue? : TypeRef → Value → Option Value
  | .nonNull inner, v => (inputValue? inner v).filter (!·.isNull)
  | _, .null => some .null
  | .list item, .arr vs => (inputItems? item vs).map .arr
  | .list item, v => (inputValue? item v).map fun v => .arr [v]
  | .named name, .obj ms =>
    match t.type? name with
    | some (.input _ slots) =>
      if ms.all fun m => slots.any (·.name == m.1) then
        (inputMembers? slots ms).bind fun given =>
          (slots.mapM fun s => slotValue? t.default? s (Keyed.find? s.name given)).map fun vs =>
            .obj (vs.filterMap id)
      else none
    | some (.scalar s) => (s.ofValue (.obj ms)).toOption
    | _ => none
  | .named name, v =>
    match t.type? name with
    | some (.scalar s) => (s.ofValue v).toOption
    | some (.enum n es) => (enumOfValue n es v).toOption
    | _ => none
termination_by type v => (sizeOf v, sizeOf type)

def inputItems? (item : TypeRef) : List Value → Option (List Value)
  | [] => some []
  | v :: vs => do return (← inputValue? item v) :: (← inputItems? item vs)
termination_by vs => (sizeOf vs, 0)

def inputMembers? (slots : List InputSlot) :
    List (String × Value) → Option (Keyed.Entries Value)
  | [] => some []
  | (k, v) :: ms => do
    let rest ← inputMembers? slots ms
    match slots.find? (·.name == k) with
    | some s => return (k, ← inputValue? s.type v) :: rest
    | none => return rest
termination_by ms => (sizeOf ms, 0)

end

end ResourceGraph.TypeSystem
