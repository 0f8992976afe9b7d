import ResourceGraph.Store.Basic
import ResourceGraph.Store.Paging
import ResourceGraph.Store.Record
import ResourceGraph.Text.Case

/-!
A store in memory: records per resource, in order of insertion. A search keeps the records in which
a searchable path holds the term, whatever its case; every other parameter filters by equality.
-/

namespace ResourceGraph

structure MemoryStore where
  idField : String := "id"
  records : Keyed.Entries (List Record) := []

namespace MemoryStore

/-- The records of a resource. -/
def database (s : MemoryStore) (resource : String) : List Record :=
  (Keyed.find? resource s.records).getD []

def insert (s : MemoryStore) (resource : String) (r : Record) : MemoryStore :=
  { s with records := Keyed.insert resource (s.database resource ++ [r]) s.records }

def add (s : MemoryStore) (resource : String) (v : Value) : Except Fault MemoryStore :=
  (Record.ofValue v).map (s.insert resource)

def addAll (s : MemoryStore) (resource : String) : List Value → Except Fault MemoryStore
  | [] => .ok s
  | v :: vs => do addAll (← s.add resource v) resource vs

def addCollections (s : MemoryStore) : List (String × Value) → Except Fault MemoryStore
  | [] => .ok s
  | (resource, v) :: rest =>
    match v.items? with
    | none => .error (.notIterable v.kindWord)
    | some items => do addCollections (← s.addAll resource items) rest

/-- A store with records by resource, none if nothing is given. -/
def ofValue (idField : String) (v : Value) : Except Fault MemoryStore :=
  let s : MemoryStore := { idField := idField }
  match v with
  | .obj members => s.addCollections members
  | v => if v.truthy then .error (.noAttribute v.kindWord "items") else .ok s

/-- Whether a record has the id, compared as texts. -/
def hasId (s : MemoryStore) (id : Value) (r : Record) : Bool :=
  ((Value.obj r).get s.idField).plain == id.plain

def find (s : MemoryStore) (resource : String) (id : Value) : Option Record :=
  (s.database resource).find? (s.hasId id)

def matchesFilters (filters : Keyed.Entries Value) (r : Record) : Bool :=
  filters.all fun (k, v) => ((Value.obj r).get k).looseEq v

/-- Whether one text occurs in another. -/
def occursIn (needle text : List Char) : Bool :=
  needle.isPrefixOf text ||
    match text with
    | [] => false
    | _ :: rest => occursIn needle rest

/-- Whether one of the paths holds a text with the lower-case term in it. -/
def matchesTerm (needle : String) (paths : List String) (r : Record) : Bool :=
  paths.any fun path =>
    match Record.readPath (.obj r) path with
    | .str s => occursIn needle.toList (Text.lower s).toList
    | _ => false

/-- Whether a record matches a search term. Only a term that is given has to be a text. -/
def matchesSearch (term : Value) (paths : List String) (r : Record) : Except Fault Bool :=
  if !term.truthy then .ok true
  else
    match term with
    | .str s => .ok (matchesTerm (Text.lower s) paths r)
    | v => .error (.noAttribute v.kindWord "lower")

/-- The records that match, in order. The term is not looked at for a record that is filtered out. -/
def select (filters : Keyed.Entries Value) (term : Value) (paths : List String) :
    List Record → Except Fault (List Record)
  | [] => .ok []
  | r :: rs =>
    if matchesFilters filters r then
      match matchesSearch term paths r with
      | .error e => .error e
      | .ok b => (select filters term paths rs).map fun found => if b then r :: found else found
    else select filters term paths rs

/-- Parameters that are neither the term nor the window, and not null. -/
def filtersOf (params : Keyed.Entries Value) : Keyed.Entries Value :=
  params.filter fun (k, v) => k != "search" && k != "limit" && k != "offset" && !v.isNull

def search (database : List Record) (params : Keyed.Entries Value) (paths : List String)
    (p : Pagination) : Except Fault Page := do
  let window ← Window.ofParams params p
  let found ← select (filtersOf params) ((Value.obj params).get "search") paths database
  return Page.ofMatches window (found.map .obj)

/-- The store as its clients see it. -/
def store : Store MemoryStore where
  find resource id := do
    let s ← get
    return .ok ((s.find resource id).elim .null .obj)
  search resource params paths p := do
    let s ← get
    return (search (s.database resource) params paths p).map Page.toValue

end MemoryStore

end ResourceGraph
