import ResourceGraph.CommandLine.Basic

/-!
The program. It looks at the files and variables that a call names, works out the outcome, and does
what the outcome says. The program is known by the name of its file, which in capitals begins the
names of its environment variables. It has no connection to other hosts.
-/

namespace ResourceGraph.Main

open CommandLine

def stateOf (path : String) : IO FileState := do
  let place := (← IO.currentDir) / path
  if path = "" then return .absent
  else if ← place.isDir then return .directory
  else if ← place.pathExists then return .file (← IO.FS.readFile place)
  else return .absent

/-- The surroundings of a call, with every file that an argument may name. -/
def look (args : List String) : IO Surroundings := do
  let name := (← IO.appPath).fileName.getD ""
  let start := String.ofList (name.toList.map CommandOption.variableChar)
  let settings ← (Command.variableNames start).filterMapM fun v => do
    return (← IO.getEnv v).map fun text => (v, text)
  let files ← (Call.paths args ++ settings.map (·.2)).mapM fun path => do
    return (path, ← stateOf path)
  return {
    program := name
    variablePrefix := start
    setting? := fun v => settings.lookup v
    file := fun path => (files.lookup path).getD .absent
    directory := Text.pieces '/' (← IO.currentDir).toString
    client := { lastReply := .failed "no connection" } }

def write (place : List String) (text : String) : IO Unit := do
  IO.FS.createDirAll (String.intercalate "/" place.dropLast ++ "/")
  IO.FS.writeFile (String.intercalate "/" place) text

def perform (o : Outcome) : IO UInt32 := do
  for line in withoutDetails o.log do
    IO.eprintln line.text
  IO.eprint o.errorOutput
  if let some c := o.crash then
    IO.eprintln c.message
  if let some (place, text) := o.written then
    write place text
  IO.print o.output
  return o.exitCode.toUInt32

end ResourceGraph.Main

def main (args : List String) : IO UInt32 := do
  ResourceGraph.Main.perform (ResourceGraph.CommandLine.run (← ResourceGraph.Main.look args) args)
