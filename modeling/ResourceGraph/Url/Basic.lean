import ResourceGraph.Text.Split
import ResourceGraph.Url.Percent

/-!
Web addresses. Every part is kept in the form in which it is sent: scheme and host are in lower
case, a number behind the host that goes without saying is left out, the steps `.` and `..` of the
path have been taken, and what may not stand in a part is percent-encoded.
-/

namespace ResourceGraph

structure Url where
  scheme : String := ""
  user : String := ""
  host : String := ""
  portNumber : Option Nat := none
  /-- What stands between the slashes; a path that begins with a slash has an empty first segment. -/
  path : List String := [""]
  query : Option String := none
  fragment : Option String := none
deriving DecidableEq

namespace Url

/-! Characters of the parts -/

def isGraphic (c : Char) : Bool := '!' ≤ c && c ≤ '~'

def isFragmentChar (c : Char) : Bool := isGraphic c && c ∉ ['\x22', '<', '>', '\x60']

def isQueryChar (c : Char) : Bool := isGraphic c && c ∉ ['\x22', '#', '<', '>']

def isPathChar (c : Char) : Bool := isQueryChar c && c ∉ ['?', '\x60', '\x7b', '\x7d']

def isUserChar (c : Char) : Bool :=
  isPathChar c && c ∉ ['/', ';', '=', '@', '[', '\\', ']', '^', '|']

def isHostChar (c : Char) : Bool :=
  isGraphic c && c ∉ ['#', '/', ':', '<', '>', '?', '@', '[', ']', '^']

def isSchemeChar (c : Char) : Bool := c.isAlphanum || c == '+' || c == '-' || c == '.'

/-! Paths -/

/-- Goes on by one segment from a path in reverse. The root is never left. -/
def follow (path : List String) (segment : String) : List String :=
  if segment = "." then path
  else if segment = ".." then
    match path with
    | [] => []
    | [top] => if top = "" then [top] else []
    | _ :: above => above
  else segment :: path

/-- The path without the steps `.` and `..`. -/
def followed (path : List String) : List String := (path.foldl follow []).reverse

/-! Reading -/

/-- The scheme, which a letter begins and a colon ends, and the rest. -/
def readScheme (cs : List Char) : String × List Char :=
  match Text.cutAt ':' cs with
  | (c :: name, some rest) =>
    if c.isAlpha && name.all isSchemeChar then (String.ofList (c :: name), rest) else ("", cs)
  | _ => ("", cs)

def impliedPort? (scheme : String) : Option Nat :=
  [("ftp", 21), ("http", 80), ("https", 443), ("ws", 80), ("wss", 443)].lookup scheme

def readPort (scheme : String) (cs : List Char) : Option Nat :=
  match (String.ofList cs).toNat? with
  | some n => if impliedPort? scheme = some n then none else some n
  | none => none

/-- The host, which may be an address in brackets, and the text after its colon. -/
def readHost (cs : List Char) : String × Option (List Char) :=
  match cs with
  | '[' :: _ =>
    let address := (cs.reverse.dropWhile (· != ']')).reverse
    (String.ofList address, (Text.cutAt ':' (cs.drop address.length)).2)
  | _ =>
    let (name, number) := Text.cutAt ':' cs
    (Percent.encode isHostChar (String.ofList (name.map Char.toLower)), number)

/-- The address of a site: the user, the host and the number behind it. -/
def readAuthority (scheme : String) (cs : List Char) : Url :=
  let hostText := (cs.reverse.takeWhile (· != '@')).reverse
  let user := cs.take (cs.length - hostText.length - 1)
  let (host, number) := readHost hostText
  { scheme
    user := Percent.encode isUserChar (String.ofList user)
    host
    portNumber := number.bind (readPort scheme) }

def readPath (cs : List Char) : List String :=
  (followed (Text.pieces '/' (String.ofList cs))).map (Percent.encode isPathChar)

def ofText (s : String) : Url :=
  let (rest, fragment) := Text.cutAt '#' s.toList
  let (rest, query) := Text.cutAt '?' rest
  let (scheme, rest) := readScheme rest
  let scheme := scheme.toLower
  let (authority, path) :=
    match rest with
    | '/' :: '/' :: rest => (rest.takeWhile (· != '/'), rest.dropWhile (· != '/'))
    | _ => ([], rest)
  { readAuthority scheme authority with
    path := readPath path
    query := query.map fun cs => Percent.encode isQueryChar (String.ofList cs)
    fragment := fragment.map fun cs => Percent.encode isFragmentChar (String.ofList cs) }

/-! Writing -/

/-- The host with its number. -/
def site (u : Url) : String :=
  match u.portNumber with
  | some n => u.host ++ ":" ++ toString n
  | none => u.host

def authority (u : Url) : String := if u.user = "" then u.site else u.user ++ "@" ++ u.site

/-- A mark and what stands after it. -/
def marked (mark : String) : Option String → String
  | some s => mark ++ s
  | none => ""

def text (u : Url) : String :=
  (if u.scheme = "" then "" else u.scheme ++ ":")
    ++ (if u.authority = "" then "" else "//" ++ u.authority)
    ++ String.intercalate "/" u.path ++ marked "?" u.query ++ marked "#" u.fragment

/-! Building -/

/-- The address with a query. A field has any number of values; without fields there is no query. -/
def asking (u : Url) (fields : List (String × List String)) : Url :=
  let pairs := fields.flatMap fun (k, vs) => vs.map fun v => (k, v)
  { u with query := if fields.isEmpty then none else some (Percent.form pairs) }

end Url

end ResourceGraph
