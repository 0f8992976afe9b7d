import ResourceGraph.Fault
import ResourceGraph.Http.Status
import ResourceGraph.Keyed

/-!
Requests, replies, and what sends the one and waits for the other: any client that can be asked with
the text of an address, and one with prepared replies. When these are used up every further request
has the same one.
-/

namespace ResourceGraph.Http

/-- What comes of a request: the status of the answer, if there is one, and its body, or what is said
of an answer that is no success or does not come. -/
structure Outcome where
  status : Option Nat
  body : Except String String

def Outcome.isMissing (o : Outcome) : Bool := o.status == some notFound

/-- Clients of the type `κ`, with exceptions of the type `ε`. -/
class Sender (κ : Type) (ε : outParam Type) where
  /-- Where a request for a text goes, if the client takes it for an address. -/
  target : κ → String → Option Url
  /-- Asks at the address in a text, with the fields of a query if there are any. -/
  get : (address : String) → (fields : Option (List (String × List String))) →
    StateM κ (Except ε Outcome)
  close : κ → κ
  isOpen : κ → Bool
  /-- The addresses that requests have gone to. -/
  asked : κ → List Url

abbrev Headers := List (String × String)

namespace Headers

def sameName (a b : String) : Bool := a.toLower == b.toLower

def has (name : String) (hs : Headers) : Bool := hs.any fun h => sameName h.1 name

/-- Headers of other names stay, those of the same names are replaced. -/
def update (hs new : Headers) : Headers := hs.filter (fun h => !has h.1 new) ++ new

/-- The value of a header, all values of the name together. -/
def value? (name : String) (hs : Headers) : Option String :=
  match hs.filter fun h => sameName h.1 name with
  | [] => none
  | found => some (String.intercalate ", " (found.map (·.2)))

end Headers

structure Request where
  url : Url
  headers : Headers

inductive Reply where
  | answer (status : Nat) (body : String)
  /-- Nothing came back; the text says why. -/
  | failed (reason : String)

/-- What comes of a request that has the reply. -/
def Reply.outcome (asked : Url) : Reply → Outcome
  | .failed reason => ⟨none, .error reason⟩
  | .answer status body =>
    ⟨some status, if isSuccess status then .ok body else .error (failureText status asked)⟩

structure Client where
  /-- Headers in place of the standard ones of their names. -/
  headers : Headers := []
  isClosed : Bool := false
  replies : List Reply := []
  /-- The reply to every request after those. -/
  lastReply : Reply := .answer notFound ""
  /-- What has been sent. -/
  sent : List Request := []

namespace Client

def standardHeaders : Headers :=
  [("Accept", "*/*"), ("Accept-Encoding", "gzip, deflate"), ("Connection", "keep-alive")]

/-- The headers of a request. The host goes first unless it is given. -/
def requestHeaders (c : Client) (u : Url) : Headers :=
  let hs := standardHeaders.update c.headers
  if hs.has "Host" || u.host = "" then hs else ("Host", u.site) :: hs

/-- Sends a request. A closed client sends nothing. -/
def get (u : Url) : StateM Client (Except Fault Outcome) := fun c =>
  if c.isClosed then (.error .closedClient, c)
  else
    (.ok ((c.replies.headD c.lastReply).outcome u),
      { c with
        replies := c.replies.tail
        sent := c.sent ++ [⟨u, c.requestHeaders u⟩] })

instance : Sender Client Fault where
  target _ text := some (.ofText text)
  get text fields :=
    let u := Url.ofText text
    get (fields.elim u u.asking)
  close c := { c with isClosed := true }
  isOpen c := !c.isClosed
  asked c := c.sent.map Request.url

end Client

end ResourceGraph.Http
