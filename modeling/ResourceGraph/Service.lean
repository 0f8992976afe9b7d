import ResourceGraph.Api.Compilation
import ResourceGraph.Api.Printer
import ResourceGraph.Config.ServiceConfig
import ResourceGraph.GraphQL
import ResourceGraph.Resolver
import ResourceGraph.TypeSystem.Binding

/-!
A service answers requests: it reads the document, validates it, and executes an operation of it.
Services are built from a schema text and resolvers, or from resource specifications and a store.
-/

namespace ResourceGraph

open Query

/-- An answer: the data, the reports of errors, and what is logged. -/
structure Response where
  data : Value
  errors : List ErrorReport
  log : List LogLine

def Response.toValue (r : Response) : Value :=
  .obj (("data", r.data)
    :: if r.errors.isEmpty then [] else [("errors", .arr (r.errors.map ErrorReport.toValue))])

/-- Why a body is no request. -/
inductive BadRequest where
  | notObject
  | noQuery
  | badVariables
  | badOperationName

def BadRequest.message : BadRequest → String
  | .notObject => "Request body must be a JSON object."
  | .noQuery => "Must provide query string."
  | .badVariables => "Variables must be an object."
  | .badOperationName => "Operation name must be a string."

def BadRequest.response (b : BadRequest) : Response :=
  ⟨.null, [⟨b.message, [], [], .str ErrorCode.badRequest⟩], []⟩

def isBlankText (s : String) : Bool := s.toList.all Text.isBlank

/-- Reads the body of a request. -/
def Request.ofBody (body : Value) (headers : Keyed.Entries Value) : Except BadRequest Request :=
  match body with
  | .obj _ => do
    let query ←
      match body.get "query" with
      | .str q => if isBlankText q then .error .noQuery else .ok q
      | _ => .error .noQuery
    let values ←
      match body.get "variables" with
      | .null => .ok []
      | .obj vs => .ok vs
      | _ => .error .badVariables
    let operationName ←
      match body.get "operationName" with
      | .null => .ok none
      | .str n => .ok (some n)
      | _ => .error .badOperationName
    return ⟨query, values, operationName, headers⟩
  | _ => .error .notObject

structure Service (σ : Type) where
  types : TypeSystem
  resolver? : Execution.FieldResolvers σ
  config : ServiceConfig

namespace Service

variable [GraphQL] {σ ε : Type} [Exceptions ε] (s : Service σ)

/-- The answer with errors. -/
def respond (document : String) (data : Value) (code : String) (es : List QueryError) :
    Response :=
  ⟨data, es.map fun e => e.report document code s.config.maskInternalErrors,
    es.flatMap fun e => e.logLines code⟩

/-- Reads and validates a document. -/
def prepare (query : String) : Except Response GraphQL.Document :=
  match GraphQL.parse query with
  | .error e => .error (s.respond query .null ErrorCode.unreadable [e])
  | .ok d =>
    match GraphQL.validate s.types s.config.introspection d with
    | [] => .ok d
    | es => .error (s.respond query .null ErrorCode.invalid es)

/-- Answers a request. -/
def execute (r : Request) : StateM σ Response := do
  match s.prepare r.query with
  | .error failure => return failure
  | .ok d =>
    let (data, errors) ← GraphQL.execute s.types s.resolver? d r
    return s.respond r.query data ErrorCode.badInput errors

/-- Answers the body of a request. -/
def handle (body : Value) (headers : Keyed.Entries Value) : StateM σ Response :=
  match Request.ofBody body headers with
  | .error b => return b.response
  | .ok r => s.execute r

/-! Building services -/

/-- Why a schema text and resolvers give no service. -/
inductive BuildError where
  | schema (e : TypeSystem.BuildError)
  | binding (e : TypeSystem.BindingError)

/-- A service from a schema text, the values of its enumerations, and resolvers by type and
field. -/
def ofSchema (text : String) (enums : List EnumDef)
    (resolvers : Keyed.Entries (Keyed.Entries (Execution.FieldResolver σ)))
    (config : ServiceConfig) : Except BuildError (Service σ) :=
  match GraphQL.build text with
  | .error e => .error (.schema e)
  | .ok types =>
    match types.checkResolvers (resolvers.map fun (k, fs) => (k, Keyed.keys fs)) with
    | .error e => .error (.binding e)
    | .ok () =>
      match TypeSystem.withAllValues enums types with
      | .error e => .error (.binding e)
      | .ok types =>
        let resolver? (type field : String) : Option (Execution.FieldResolver σ) :=
          (Keyed.find? type resolvers).bind (Keyed.find? field)
        .ok ⟨types, resolver?, config⟩

/-- A resolver of an API as a resolver of fields. -/
def fieldResolver (store : Store σ ε) (r : Resolver) : Execution.FieldResolver σ := fun call => do
  return (← r.run store call.source call.arguments).mapError Exceptions.raised

/-- Why specifications give no service. -/
inductive SetupError where
  | compile (e : CompileError)
  /-- An alias has a name that no value of its enumeration has. -/
  | strayAlias (name : String)
  | build (e : BuildError)

def BuildError.message : BuildError → String
  | .schema (.unreadable e) => e.message
  | .schema (.flawed fs) => TypeSystem.flawsMessage fs
  | .binding e => e.message

def SetupError.message : SetupError → String
  | .compile e => e.message
  | .strayAlias name => Text.quoted name
  | .build e => e.message

/-- A service of resources, its API, and what is logged; a failure comes with what was logged
before. -/
def ofSpecs (specs : Specs) (store : Store σ ε) (config : ServiceConfig) (naming : Naming) :
    Except (SetupError × List LogLine) (Service σ × Api × List LogLine) :=
  match compile ⟨naming, config.searchDepth⟩ specs with
  | .error (e, log) => .error (.compile e, log)
  | .ok (api, log) =>
    match ResolverMap.ofApi api (paginations specs) with
    | .error name => .error (.strayAlias name, log)
    | .ok resolvers =>
      let bound := resolvers.map fun (type, fs) =>
        (type, fs.map fun (field, r) => (field, fieldResolver store r))
      match ofSchema api.text (api.enums.map (·.2)) bound config with
      | .error e => .error (.build e, log)
      | .ok s => .ok (s, api, log)

end Service

end ResourceGraph
