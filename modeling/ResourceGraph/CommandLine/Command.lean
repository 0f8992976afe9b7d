import ResourceGraph.CommandLine.Option
import ResourceGraph.CommandLine.Surroundings
import ResourceGraph.Config.Validation
import ResourceGraph.Value.JsonReader

/-!
The commands and their options. The options of a call are checked in the order in which they are
given, then the others in the order in which the command lists them; the first fault is reported.
-/

namespace ResourceGraph.CommandLine

inductive Command where
  /-- Prints the schema of an API. -/
  | sdl
  /-- Answers one request. -/
  | query
deriving DecidableEq

namespace Command

def name : Command → String
  | .sdl => "sdl"
  | .query => "query"

def ofName? (s : String) : Option Command := [sdl, query].find? (·.name == s)

def specsOption : CommandOption :=
  { name := "specs", letter := some 's', kind := .inputFile, isRequired := true, hasVariable := true }

def outputOption : CommandOption := { name := "output", letter := some 'o', kind := .outputFile }

def verboseOption : CommandOption := { name := "verbose", letter := some 'v', kind := .flag }

def dataOption : CommandOption :=
  { name := "data", letter := some 'd', kind := .inputFile, hasVariable := true }

def storeUrlOption : CommandOption := { name := "store-url", kind := .text, hasVariable := true }

def queryOption : CommandOption :=
  { name := "query", letter := some 'q', kind := .text, isRequired := true }

def variablesOption : CommandOption := { name := "variables", kind := .text }

def noIntrospectionOption : CommandOption :=
  { name := "no-introspection", kind := .flag, hasVariable := true }

def helpOption : CommandOption := { name := "help", kind := .flag }

def options : Command → List CommandOption
  | .sdl => [specsOption, outputOption, verboseOption, helpOption]
  | .query =>
    [specsOption, dataOption, storeUrlOption, queryOption, variablesOption, noIntrospectionOption,
      verboseOption, helpOption]

/-- All names of environment variables that commands look at. -/
def variableNames (programPrefix : String) : List String :=
  ((sdl.options ++ query.options).filter (·.hasVariable)).map
    (CommandOption.variableName programPrefix)

end Command

/-- Why a call is refused. -/
inductive UsageError where
  | unreadable (e : ReadError)
  | missingCommand
  | noSuchCommand (name : String)
  | missingOption (o : CommandOption)
  | noFile (o : CommandOption) (path : String)
  | isDirectory (o : CommandOption) (path : String)
  | notTruthValue (o : CommandOption) (text : String)
  | extraArguments (args : List String)
  /-- Not exactly one store is given. -/
  | oneStore
  | badVariables (e : Json.ReadError)
  /-- The file with the records holds no object. -/
  | badRecords

namespace UsageError

def invalidValue (hint message : String) : String :=
  "Invalid value for " ++ hint ++ ": " ++ message

def message : UsageError → String
  | .unreadable (.noSuchOption s) => "No such option " ++ Text.quoted s ++ "."
  | .unreadable (.needsText s) => "Option " ++ Text.quoted s ++ " requires an argument."
  | .unreadable (.takesNoText s) => "Option " ++ Text.quoted s ++ " does not take a value."
  | .missingCommand => "Missing command."
  | .noSuchCommand name => "No such command " ++ Text.quoted name ++ "."
  | .missingOption o => "Missing option " ++ o.hint ++ "."
  | .noFile o path => invalidValue o.hint ("File " ++ Text.quoted path ++ " does not exist.")
  | .isDirectory o path => invalidValue o.hint ("File " ++ Text.quoted path ++ " is a directory.")
  | .notTruthValue o text =>
    invalidValue o.hint (Text.quoted text ++ " is not a valid boolean.")
  | .extraArguments [arg] => "Got unexpected extra argument (" ++ arg ++ ")"
  | .extraArguments args =>
    "Got unexpected extra arguments (" ++ String.intercalate " " args ++ ")"
  | .oneStore => "Provide exactly one of --data or --store-url."
  | .badVariables e => invalidValue "--variables" e.message
  | .badRecords =>
    invalidValue "--data" "expected an object mapping resource names to record lists"

/-- Whether the message comes with the usage of the command. A text that is missing or too much does
without. -/
def showsUsage : UsageError → Bool
  | .unreadable (.needsText _) | .unreadable (.takesNoText _) => false
  | _ => true

end UsageError

/-- Texts of options by the name of the option. -/
abbrev Settings := Keyed.Entries String

namespace Settings

variable (w : Surroundings)

/-- The text of an option: the one that was given last, else that of its environment variable. -/
def text? (given : List Given) (o : CommandOption) : Option String :=
  match given.reverse.find? (·.option.name == o.name) with
  | some g => some g.text
  | none =>
    if o.hasVariable then
      (w.setting? (o.variableName w.variablePrefix)).filter (· != "")
    else none

/-- Reads a truth value between blanks. -/
def truthValue? (s : String) : Option Bool :=
  match Validation.readBool (String.ofList (Text.trimBoth Text.isBlank s.toList)) with
  | .ok b => some b
  | .error _ => none

/-- Checks the text of an option. A flag that is off counts as not given. -/
def check (o : CommandOption) : Option String → Except UsageError (Option String)
  | none => if o.isRequired then .error (.missingOption o) else .ok none
  | some text =>
    match o.kind with
    | .text => .ok (some text)
    | .flag =>
      match truthValue? text with
      | some b => .ok (if b then some text else none)
      | none => .error (.notTruthValue o text)
    | .inputFile =>
      match w.file text with
      | .absent => .error (.noFile o text)
      | .directory => .error (.isDirectory o text)
      | .file _ => .ok (some text)
    | .outputFile =>
      match w.file text with
      | .directory => .error (.isDirectory o text)
      | _ => .ok (some text)

def read (given : List Given) : List CommandOption → Settings → Except UsageError Settings
  | [], st => .ok st
  | o :: os, st =>
    match check w o (text? w given o) with
    | .error e => .error e
    | .ok none => read given os st
    | .ok (some text) => read given os (Keyed.insert o.name text st)

/-- The settings of a call of a command. -/
def ofGiven (c : Command) (given : List Given) : Except UsageError Settings :=
  read w given (given.map (·.option) ++ c.options) []

def find? (st : Settings) (o : CommandOption) : Option String := Keyed.find? o.name st

def isSet (st : Settings) (o : CommandOption) : Bool := (st.find? o).isSome

end Settings

/-- A call of a command. -/
structure Call where
  command : Command
  arguments : Arguments

/-- Reads the arguments of the program. A refusal comes with the command, once it is known. -/
def Call.ofArguments (args : List String) : Except (Option Command × UsageError) (Option Call) :=
  match readArguments [Command.helpOption] true args with
  | .error e => .error (none, .unreadable e)
  | .ok ⟨_ :: _, _⟩ => .ok none
  | .ok ⟨[], []⟩ => .error (none, .missingCommand)
  | .ok ⟨[], name :: rest⟩ =>
    match Command.ofName? name with
    | none => .error (none, .noSuchCommand name)
    | some c =>
      match readArguments c.options false rest with
      | .error e => .error (some c, .unreadable e)
      | .ok a => .ok (some ⟨c, a⟩)

/-- The paths of files in the arguments. -/
def Call.paths (args : List String) : List String :=
  match Call.ofArguments args with
  | .ok (some c) =>
    (c.arguments.given.filter fun g =>
      g.option.kind = .inputFile ∨ g.option.kind = .outputFile).map (·.text)
  | _ => []

end ResourceGraph.CommandLine
