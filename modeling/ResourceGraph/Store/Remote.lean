import ResourceGraph.Http.Client
import ResourceGraph.Store.Basic
import ResourceGraph.Store.Paging
import ResourceGraph.Value.Display

/-!
A store behind a web address. A record has its own address below that of its resource, and a search
asks the resource with the parameters as a query.
-/

namespace ResourceGraph

/-- A store with a client of the type `κ`. -/
structure RemoteStore (κ : Type := Http.Client) where
  /-- The address as it was given, without slashes at the end. -/
  base : String
  /-- Whether nobody else uses the client, so that the store may close it. -/
  ownsClient : Bool := false
  client : κ

namespace RemoteStore

def trimSlashes (s : String) : String :=
  String.ofList ((s.toList.reverse.dropWhile (· == '/')).reverse)

/-- A store that uses the client of others. -/
def withClient {κ : Type} (base : String) (client : κ) : RemoteStore κ :=
  { base := trimSlashes base, client }

/-- A store with a client of its own, which asks for JSON unless the headers say otherwise. -/
def withHeaders (base : String) (headers : Keyed.Entries String) (client : Http.Client) :
    RemoteStore :=
  { base := trimSlashes base
    ownsClient := true
    client := { client with headers := Keyed.update [("Accept", "application/json")] headers } }

variable {κ ε : Type} [Http.Sender κ ε]

def close (s : RemoteStore κ) : RemoteStore κ :=
  if s.ownsClient then { s with client := Http.Sender.close s.client } else s

/-! Parameters -/

/-- The parameters that are sent: nulls are left out, truth values are words, and the limit is at
most the maximum. -/
def sentParams (params : Keyed.Entries Value) (p : Pagination) :
    Except Fault (Keyed.Entries Value) :=
  let given := params.filterMap fun
    | (_, .null) => none
    | (k, .bool b) => some (k, .str (if b then "true" else "false"))
    | (k, v) => some (k, v)
  match Keyed.find? "limit" given with
  | none => .ok given
  | some v => (toInteger v).map fun n => Keyed.insert "limit" (.int (min n p.limitMax)) given

/-- A value in a query. -/
def queryText : Value → String
  | .null => ""
  | .bool b => if b then "true" else "false"
  | v => v.plain

/-- The fields of a query; a list stands for several values. -/
def queryFields (params : Keyed.Entries Value) : List (String × List String) :=
  params.map fun
    | (k, .arr items) => (k, items.map queryText)
    | (k, v) => (k, [queryText v])

/-! Requests -/

/-- The text of the address of segments below that of the store, each of them encoded. -/
def addressText (s : RemoteStore κ) (segments : List String) : String :=
  s.base ++ "/" ++ "/".intercalate (segments.map (Percent.encode Percent.isUnreserved))

/-- Reads a body. A byte order mark at its front means nothing. -/
def readBody (body : String) : Except Fault Value :=
  let text := if body.toList.head? = some '\ufeff' then String.ofList body.toList.tail else body
  match Json.read text with
  | .ok v => .ok v
  | .error e => .error (.unreadable e)

def send (segments : List String) (fields : Option (List (String × List String))) :
    StateM (RemoteStore κ) (Except ε Http.Outcome) := fun s =>
  let (outcome, client) := (Http.Sender.get (s.addressText segments) fields).run s.client
  (outcome, { s with client })

variable [Exceptions ε]

/-- The value that came of a request, or what could not be done with a resource. -/
def answer (task resource : String) (o : Http.Outcome) : Except Fault Value :=
  match o.body with
  | .ok body => readBody body
  | .error reason => .error (.unreachable (task ++ ": " ++ reason) (some resource))

/-- The record of an id. One that is not found is null. -/
def find (resource : String) (id : Value) : StateM (RemoteStore κ) (Except ε Value) := do
  match ← send [resource, id.plain] none with
  | .error e => return .error e
  | .ok o =>
    if o.isMissing then return .ok .null
    else
      return (answer ("Failed to fetch " ++ resource ++ "/" ++ id.plain) resource o).mapError
        Exceptions.ofFault

def search (resource : String) (params : Keyed.Entries Value) (p : Pagination) :
    StateM (RemoteStore κ) (Except ε Value) := do
  match sentParams params p with
  | .error f => return .error (Exceptions.ofFault f)
  | .ok params =>
    match ← send [resource] (some (queryFields params)) with
    | .error e => return .error e
    | .ok o =>
      return (answer ("Failed to search " ++ resource) resource o).mapError Exceptions.ofFault

def store : Store (RemoteStore κ) ε where
  find := find
  search resource params _ p := search resource params p

end RemoteStore

end ResourceGraph
