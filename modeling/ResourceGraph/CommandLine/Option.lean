import ResourceGraph.Text.Quoted
import ResourceGraph.Text.Split

/-!
The options of a command and how they are read from arguments. An option has a long name after two
dashes and perhaps a letter after one. Its text is the next argument, or stands in the same one:
after an equals sign for a long name, right behind the letter for a short one. Letters of flags may
be put together. Two dashes alone end the options.
-/

namespace ResourceGraph.CommandLine

inductive OptionKind where
  | flag
  | text
  /-- A file that has to be there. -/
  | inputFile
  /-- A file that will be there. -/
  | outputFile
deriving DecidableEq

structure CommandOption where
  name : String
  letter : Option Char := none
  kind : OptionKind
  isRequired : Bool := false
  /-- Whether an environment variable stands in for the option. -/
  hasVariable : Bool := false

namespace CommandOption

def long (o : CommandOption) : String := "--" ++ o.name

def shortForm (c : Char) : String := String.ofList ['-', c]

/-- The option as messages name it: every spelling in quotes. -/
def hint (o : CommandOption) : String :=
  String.intercalate " / " ((o.long :: (o.letter.map shortForm).toList).map Text.quoted)

def variableChar (c : Char) : Char := if c = '-' then '_' else c.toUpper

/-- The environment variable that stands in, in capitals after the prefix of the program. -/
def variableName (programPrefix : String) (o : CommandOption) : String :=
  programPrefix ++ "_" ++ String.ofList (o.name.toList.map variableChar)

end CommandOption

/-- An option as it was given. A flag that is set has the text `1`. -/
structure Given where
  option : CommandOption
  text : String

def Given.flag (o : CommandOption) : Given := ⟨o, "1"⟩

/-- Why arguments cannot be read. -/
inductive ReadError where
  | noSuchOption (spelling : String)
  | needsText (spelling : String)
  | takesNoText (spelling : String)

/-- What one argument gives: options, and perhaps one whose text is still to come. -/
structure Opened where
  given : List Given := []
  /-- The spelling of an option and the option. -/
  open? : Option (String × CommandOption) := none

def findLong (os : List CommandOption) (spelling : String) : Option CommandOption :=
  os.find? (·.long == spelling)

def findShort (os : List CommandOption) (c : Char) : Option CommandOption :=
  os.find? (·.letter == some c)

/-- Reads letters after one dash. -/
def openLetters (os : List CommandOption) : List Char → Except ReadError Opened
  | [] => .ok {}
  | c :: cs =>
    match findShort os c with
    | none => .error (.noSuchOption (CommandOption.shortForm c))
    | some o =>
      if o.kind = .flag then
        match openLetters os cs with
        | .ok more => .ok { more with given := .flag o :: more.given }
        | .error e => .error e
      else if cs.isEmpty then .ok { open? := some (CommandOption.shortForm c, o) }
      else .ok { given := [⟨o, String.ofList cs⟩] }

/-- Reads an argument that a dash begins. -/
def openArgument (os : List CommandOption) (arg : String) : Except ReadError Opened :=
  let (spelling, text) := Text.cutAt '=' arg.toList
  let spelling := String.ofList spelling
  match findLong os spelling with
  | some o =>
    match o.kind, text with
    | .flag, none => .ok { given := [.flag o] }
    | .flag, some _ => .error (.takesNoText spelling)
    | _, none => .ok { open? := some (spelling, o) }
    | _, some text => .ok { given := [⟨o, String.ofList text⟩] }
  | none =>
    match arg.toList with
    | '-' :: '-' :: _ => .error (.noSuchOption spelling)
    | cs => openLetters os cs.tail

/-- Whether an argument is read as options: it is more than a dash, and a dash begins it. -/
def looksLikeOption (arg : String) : Bool :=
  match arg.toList with
  | '-' :: _ :: _ => true
  | _ => false

/-- Options and the other arguments, each in order. -/
structure Arguments where
  given : List Given := []
  others : List String := []

/-- Reads arguments. Where options have to go first, the first other argument ends them. -/
def readArguments (os : List CommandOption) (optionsFirst : Bool) :
    List String → Except ReadError Arguments
  | [] => .ok {}
  | arg :: rest =>
    if arg = "--" then .ok { others := rest }
    else if looksLikeOption arg then
      match openArgument os arg with
      | .error e => .error e
      | .ok ⟨given, none⟩ =>
        (readArguments os optionsFirst rest).map fun a => { a with given := given ++ a.given }
      | .ok ⟨given, some (spelling, o)⟩ =>
        match rest with
        | [] => .error (.needsText spelling)
        | text :: rest =>
          (readArguments os optionsFirst rest).map fun a =>
            { a with given := given ++ ⟨o, text⟩ :: a.given }
    else if optionsFirst then .ok { others := arg :: rest }
    else (readArguments os optionsFirst rest).map fun a => { a with others := arg :: a.others }

end ResourceGraph.CommandLine
