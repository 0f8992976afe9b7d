import ResourceGraph.Api.Definition
import ResourceGraph.TypeSystem.Construction

/-!
Giving the members of enumerations the values that records hold, and checking that resolvers are
for fields that there are.
-/

namespace ResourceGraph.TypeSystem

inductive BindingError where
  | unknownObject (name : String)
  | unknownField (type field : String)
  | unknownMember (name : String)

def BindingError.message : BindingError → String
  | .unknownObject n => "Resolvers given for unknown object type: " ++ n
  | .unknownField t f => "Resolver given for unknown field: " ++ t ++ "." ++ f
  | .unknownMember n => Text.quoted n

variable (t : TypeSystem)

def checkFields (type : String) (known : List OutputField) :
    List String → Except BindingError Unit
  | [] => .ok ()
  | f :: fs =>
    if known.any (·.name == f) then checkFields type known fs else .error (.unknownField type f)

/-- Whether all fields exist that have resolvers. -/
def checkResolvers : List (String × List String) → Except BindingError Unit
  | [] => .ok ()
  | (type, fields) :: rest =>
    match t.objectFields? type with
    | none => .error (.unknownObject type)
    | some known => do
      checkFields type known fields
      checkResolvers rest

/-- Gives one member its value. -/
def setMember (v : EnumValue) : List EnumMember → Except BindingError (List EnumMember)
  | [] => .error (.unknownMember v.name)
  | m :: ms =>
    if m.name = v.name then .ok ({ m with value := v.value } :: ms)
    else (setMember v ms).map (m :: ·)

def setMembers : List EnumValue → List EnumMember → Except BindingError (List EnumMember)
  | [], ms => .ok ms
  | v :: vs, ms => do setMembers vs (← setMember v ms)

/-- Gives the members of an enumeration their values; what is no enumeration is left alone. -/
def withValues (e : EnumDef) : Except BindingError TypeSystem :=
  match t.type? e.name with
  | some (.enum n ms) => do
    return { t with types := Keyed.insert e.name (.enum n (← setMembers e.values ms)) t.types }
  | _ => .ok t

def withAllValues : List EnumDef → TypeSystem → Except BindingError TypeSystem
  | [], t => .ok t
  | e :: es, t => do withAllValues es (← t.withValues e)

end ResourceGraph.TypeSystem
