import ResourceGraph.Http.Client
import ResourceGraph.Text.Split

/-!
What a command sees of the world around it: environment variables, files, the current directory, and
the client that its requests go through.
-/

namespace ResourceGraph.CommandLine

/-- What is found under a path. -/
inductive FileState where
  | absent
  | directory
  | file (text : String)

structure Surroundings where
  /-- The program as its messages name it. -/
  program : String
  /-- What the names of its environment variables begin with. -/
  variablePrefix : String
  /-- The text of an environment variable. -/
  setting? : String → Option String
  file : String → FileState
  /-- The current directory: the root, and the names below it. -/
  directory : List String
  client : Http.Client := {}

/-- Goes on by one name from a path in reverse. -/
def enter (path : List String) (name : String) : List String :=
  if name = "" ∨ name = "." then path else if name = ".." then path.tail else name :: path

/-- The names on the way from a directory along a path. -/
def enterAll (directory : List String) (path : String) : List String :=
  ((Text.pieces '/' path).foldl enter directory.reverse).reverse

namespace Surroundings

/-- A path from the root on. -/
def absolute (w : Surroundings) (path : String) : List String :=
  if path.startsWith "/" then "" :: enterAll [] path
  else w.directory.headD "" :: enterAll w.directory.tail path

end Surroundings

/-- What is found under a path where there are only these files, each under the path to it. -/
def FileState.among (files : List (String × String)) (path : String) : FileState :=
  let names := enterAll [] path
  let plain := String.intercalate "/" names
  if path = "" then .absent
  else if names.isEmpty then .directory
  else
    match files.lookup plain with
    | some text => if path.endsWith "/" then .absent else .file text
    | none => if files.any fun f => f.1.startsWith (plain ++ "/") then .directory else .absent

end ResourceGraph.CommandLine
