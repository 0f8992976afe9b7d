import ResourceGraph.TypeSystem.Input

/-!
Values for the variables of an operation and for the arguments of a field.
-/

namespace ResourceGraph.Execution

open Query TypeSystem

/-- A way into a value in a message, such as ` at .items[0]`; nothing if it is the value itself. -/
def placeText (path : List PathStep) : String :=
  let step : PathStep → String
    | .key k => "." ++ k
    | .index i => "[" ++ toString i ++ "]"
  if path.isEmpty then "" else " at " ++ String.join (path.map step)

variable (t : TypeSystem)

/-- The complaints about one variable that is given, or missing though it is needed. -/
def variableFaults (v : VariableNode) (given : Option Value) : List QueryError :=
  let type := TypeRef.ofNode v.type
  let complaints :=
    match given with
    | some x => t.valueComplaints type x
    | none => [{ message := missingForNonNull type }]
  complaints.map fun c =>
    { message :=
        "Variable '$" ++ v.name.text ++ "' has invalid value" ++ placeText c.path ++ ": "
          ++ c.message
      offsets := [v.offset] }

/-- The value of one variable. A variable that is not given and has no default is left out, unless
it is needed. -/
def variableValue (v : VariableNode) (inputs : Variables) :
    Except (List QueryError) (Option Value) :=
  let type := TypeRef.ofNode v.type
  match Keyed.find? v.name.text inputs with
  | some x =>
    match t.inputValue? type x with
    | some y => .ok (some y)
    | none => .error (variableFaults t v (some x))
  | none =>
    match v.defaultValue with
    | some l => .ok (t.literalValue? [] type l)
    | none => if type.isNonNull then .error (variableFaults t v none) else .ok none

/-- The values of all variables, or everything that is wrong with them. -/
def variableValues (vs : List VariableNode) (inputs : Variables) :
    Except (List QueryError) Variables :=
  let results := vs.map fun v => (v.name.text, variableValue t v inputs)
  let faults :=
    results.flatMap fun r =>
      match r.2 with
      | .error es => es
      | .ok _ => []
  if faults.isEmpty then
    .ok (results.foldl
      (fun vars r =>
        match r.2 with
        | .ok (some x) => Keyed.insert r.1 x vars
        | _ => vars)
      [])
  else .error faults

/-- The value of an argument, or none if it is left out. `place` is the argument in messages. -/
def argumentValue (vars : Variables) (place : String) (s : InputSlot) (given : Option Literal) :
    Except Complaint (Option Value) :=
  match given with
  | none =>
    if s.isRequired then
      .error
        { message :=
            "Argument '" ++ place ++ "' of type '" ++ s.type.text
              ++ "' is required, but it was not provided." }
    else .ok (t.default? s)
  | some l =>
    if isMissing vars l && !s.isRequired then .ok (t.default? s)
    else
      match t.literalValue? vars s.type l with
      | some v => .ok (some v)
      | none =>
        match t.literalComplaints (some vars) s.type l with
        | c :: _ =>
          .error
            { c with
              message :=
                "Argument '" ++ place ++ "' has invalid value" ++ placeText c.path ++ ": "
                  ++ c.message }
        | [] => .error { message := "Argument '" ++ place ++ "' has invalid value." }

/-- The values of the arguments of a field or a directive, in the order of its definition. -/
def argumentValues (vars : Variables) (owner : String) (given : List ArgumentNode) :
    List InputSlot → Except Complaint Variables
  | [] => .ok []
  | s :: rest => do
    let literal := (given.reverse.find? (·.name.text == s.name)).map (·.value)
    let v ← argumentValue t vars (owner ++ "(" ++ s.name ++ ":)") s literal
    let others ← argumentValues vars owner given rest
    return (v.map fun v => (s.name, v)).toList ++ others

end ResourceGraph.Execution
