import ResourceGraph.Log
import ResourceGraph.Query.Position
import ResourceGraph.Value

/-!
Errors of a request and what is reported of them: message, places, path and a code. An error at a
path is internal unless it brings a code of its own. Internal errors are logged with their message;
the report may hide it.
-/

namespace ResourceGraph.Query

inductive PathStep where
  | key (name : String)
  | index (n : Int)
deriving DecidableEq

def PathStep.text : PathStep → String
  | .key name => name
  | .index n => toString n

def PathStep.toValue : PathStep → Value
  | .key name => .str name
  | .index n => .int n

structure QueryError where
  message : String
  /-- Places in the document, as offsets. -/
  offsets : List Nat := []
  /-- The way to a field of the answer; empty if the error is of no field. -/
  path : List PathStep := []
  /-- The code that the error brings, null if it brings none. -/
  code : Value := .null

/-- The report of an error in an answer. -/
structure ErrorReport where
  message : String
  positions : List Position
  path : List PathStep
  code : Value

namespace ErrorCode

def internal : String := "INTERNAL_SERVER_ERROR"

def unreadable : String := "GRAPHQL_PARSE_FAILED"

def invalid : String := "GRAPHQL_VALIDATION_FAILED"

def badInput : String := "BAD_USER_INPUT"

def badRequest : String := "BAD_REQUEST"

end ErrorCode

namespace QueryError

variable (e : QueryError)

/-- The code of an error: its own, or by whether it is of a field. -/
def codeOr (defaultCode : String) : Value :=
  if !e.code.isNull then e.code
  else .str (if e.path.isEmpty then defaultCode else ErrorCode.internal)

def isInternal (defaultCode : String) : Bool :=
  match e.codeOr defaultCode with
  | .str code => code == ErrorCode.internal
  | _ => false

def maskedMessage : String := "Internal server error"

/-- The report of an error of a document. -/
def report (document : String) (defaultCode : String) (mask : Bool) : ErrorReport :=
  { message := if mask && e.isInternal defaultCode then maskedMessage else e.message
    positions := e.offsets.map (Position.ofOffset document)
    path := e.path
    code := e.codeOr defaultCode }

def pathText : String :=
  let text := String.intercalate "." (e.path.map PathStep.text)
  if text = "" then "<root>" else text

/-- What is logged of an error, whether or not its message is hidden. -/
def logLines (defaultCode : String) : List LogLine :=
  if e.isInternal defaultCode then
    [⟨.error, "GraphQL internal error at " ++ e.pathText ++ ": " ++ e.message⟩]
  else []

end QueryError

def Position.toValue (p : Position) : Value := .obj [("line", .int p.line), ("column", .int p.column)]

/-- A report in an answer; places and path are left out if there are none. -/
def ErrorReport.toValue (r : ErrorReport) : Value :=
  .obj ([("message", .str r.message)]
    ++ (if r.positions.isEmpty then []
      else [("locations", .arr (r.positions.map Position.toValue))])
    ++ (if r.path.isEmpty then [] else [("path", .arr (r.path.map PathStep.toValue))])
    ++ [("extensions", .obj [("code", r.code)])])

end ResourceGraph.Query
