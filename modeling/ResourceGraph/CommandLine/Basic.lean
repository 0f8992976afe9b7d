import ResourceGraph.CommandLine.Command
import ResourceGraph.Service
import ResourceGraph.Store.Memory
import ResourceGraph.Store.Remote
import ResourceGraph.Value.Json

/-!
What a call of the program does: what is written where, and the exit code. Nothing happens here; an
outcome says what is to happen.
-/

namespace ResourceGraph.CommandLine

/-- What stops a command halfway. -/
inductive Crash where
  | specs (e : Specs.LoadError)
  | records (e : Json.ReadError)
  | store (f : Fault)
  | setup (e : Service.SetupError)

def Crash.message : Crash → String
  | .specs e => e.message
  | .records e => e.message
  | .store f => f.message
  | .setup e => e.message

structure Outcome where
  exitCode : Nat := 0
  output : String := ""
  errorOutput : String := ""
  crash : Option Crash := none
  /-- A file, by the names from the root to it, and its text. -/
  written : Option (List String × String) := none
  /-- The requests that were sent. -/
  sent : List Http.Request := []
  log : List LogLine := []

namespace Outcome

def crashed (c : Crash) (log : List LogLine) : Outcome := { exitCode := 1, crash := some c, log }

/-- The program with its command. -/
def caller (program : String) : Option Command → String
  | none => program
  | some c => program ++ " " ++ c.name

def usage (program : String) (c : Option Command) : String :=
  "Usage: " ++ caller program c
    ++ (if c.isSome then " [OPTIONS]" else " [OPTIONS] COMMAND [ARGS]...") ++ "\n"

def hint (program : String) (c : Option Command) : String :=
  "Try '" ++ caller program c ++ " --help' for help.\n\n"

def refused (program : String) (c : Option Command) (e : UsageError) : Outcome :=
  { exitCode := 2
    errorOutput := (if e.showsUsage then usage program c ++ hint program c else "")
      ++ "Error: " ++ e.message ++ "\n" }

end Outcome

/-- What is left to do, or the outcome that has been reached. -/
abbrev Run (α : Type) := Except Outcome α

namespace Run

def outcome : Run Outcome → Outcome
  | .ok o => o
  | .error o => o

variable (w : Surroundings) (st : Settings)

def refuse {α : Type} (c : Command) (e : UsageError) : Run α := .error (.refused w.program (some c) e)

/-- The text of a file that a setting names. -/
def fileText (path : String) : String :=
  match w.file path with
  | .file text => text
  | _ => ""

def specs : Run Specs :=
  match Specs.ofText (fileText w ((st.find? Command.specsOption).getD "")) with
  | .ok s => .ok s
  | .error e => .error (.crashed (.specs e) [])

/-- Prints the schema, or writes it to a file. -/
def sdl : Run Outcome := do
  let specs ← specs w st
  match compile {} specs with
  | .error (e, log) => .error (.crashed (.setup (.compile e)) log)
  | .ok (api, log) =>
    let notes :=
      if st.isSet Command.verboseOption then "Resources: " ++ toString specs.specs.length ++ "\n"
      else ""
    let text := api.text ++ "\n"
    match st.find? Command.outputOption with
    | none => return { output := text, errorOutput := notes, log }
    | some path =>
      let place := w.absolute path
      return {
        output := "Done! Wrote schema to " ++ String.intercalate "/" place ++ "\n"
        errorOutput := notes
        written := some (place, text)
        log }

/-- The values of variables, null if none are given. -/
def variableValues : Run Value :=
  match (st.find? Command.variablesOption).getD "" with
  | "" => .ok .null
  | text =>
    match Json.read text with
    | .ok v => .ok v
    | .error e => refuse w .query (.badVariables e)

def records (path : String) : Run MemoryStore :=
  match Json.readFileText (fileText w path) with
  | .error e => .error (.crashed (.records e) [])
  | .ok (.obj members) =>
    match MemoryStore.ofValue "id" (.obj members) with
    | .ok s => .ok s
    | .error f => .error (.crashed (.store f) [])
  | .ok _ => refuse w .query .badRecords

/-- Answers the body of a request from a store. -/
def answered {σ : Type} (specs : Specs) (config : ServiceConfig) (store : Store σ) (start : σ)
    (sent : σ → List Http.Request) (body : Value) : Run Outcome :=
  match Service.ofSpecs specs store config .english with
  | .error (e, log) => .error (.crashed (.setup e) log)
  | .ok (service, _, log) =>
    let (r, s) := (service.handle body []).run start
    .ok {
      exitCode := if !r.errors.isEmpty && r.data.isNull then 1 else 0
      output := r.toValue.toJson (.indented 2) ++ "\n"
      sent := sent s
      log := log ++ r.log }

/-- Answers a request from records in a file or from a store behind an address. -/
def query : Run Outcome := do
  let body (values : Value) : Value :=
    .obj [("query", .str ((st.find? Command.queryOption).getD "")), ("variables", values)]
  let config : ServiceConfig := { introspection := !st.isSet Command.noIntrospectionOption }
  match st.find? Command.dataOption, st.find? Command.storeUrlOption with
  | some path, none =>
    let vs ← variableValues w st
    let specs ← specs w st
    let store ← records w path
    answered specs config MemoryStore.store store (fun _ => []) (body vs)
  | none, some url =>
    let vs ← variableValues w st
    let specs ← specs w st
    answered specs config RemoteStore.store (.withHeaders url [] w.client) (·.client.sent) (body vs)
  | _, _ => refuse w .query .oneStore

def call (c : Call) : Run Outcome :=
  if c.arguments.given.any (·.option.name == Command.helpOption.name) then
    .ok { output := Outcome.usage w.program (some c.command) }
  else
    match Settings.ofGiven w c.command c.arguments.given with
    | .error e => refuse w c.command e
    | .ok st =>
      if !c.arguments.others.isEmpty then refuse w c.command (.extraArguments c.arguments.others)
      else
        match c.command with
        | .sdl => sdl w st
        | .query => query w st

end Run

/-- What a call of the program with these arguments does. -/
def run (w : Surroundings) (args : List String) : Outcome :=
  match Call.ofArguments args with
  | .error (c, e) => .refused w.program c e
  | .ok none => { output := Outcome.usage w.program none }
  | .ok (some c) => (Run.call w c).outcome

end ResourceGraph.CommandLine
