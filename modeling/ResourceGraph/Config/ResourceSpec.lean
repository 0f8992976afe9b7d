import ResourceGraph.Config.Pagination
import ResourceGraph.Iteration
import ResourceGraph.Raw.Link
import ResourceGraph.Value.JsonReader

/-!
A resource as it is specified: its plural name, its named schemas and its pagination. The schemas
are raw, in a graph that all specifications of a document share.
-/

namespace ResourceGraph

structure ResourceSpec (n : Nat) where
  name : String
  schemas : Keyed.Entries (RawValue n) := []
  pagination : Option Pagination := none

namespace ResourceSpec

def modelName : String := "ResourceSpec"

def paginationDefaults {n : Nat} (s : ResourceSpec n) : Pagination :=
  s.pagination.getD Pagination.default

open Validation in
def toName {ι : Type} : Raw ι → Except Problem String
  | .str s => if s = "" then .error .emptyString else .ok s
  | _ => .error .notString

open Validation in
/-- Null and no member at all both mean that there is no pagination. -/
def paginationField (g : RawGraph) (ms : List (String × RawValue g.size)) :
    Checked (Option Pagination) :=
  match Keyed.find? "pagination" ms with
  | none | some .null => .ok none
  | some v =>
    match Pagination.ofRaw g v with
    | .ok p => .ok (some p)
    | .error cs => .error (cs.map fun c => { c with location := "pagination" :: c.location })

open Validation in
def ofMembers (g : RawGraph) (ms : List (String × RawValue g.size)) :
    Checked (ResourceSpec g.size) :=
  let name := field ["name"] ms toName (.error .missing)
  let schemas :=
    field ["schemas"] ms
      (fun | .obj i => .ok (g.members i) | _ => .error .notObject) (.ok [])
  let pagination := paginationField g ms
  match name, schemas, pagination with
  | .ok n, .ok s, .ok p => .ok ⟨n, s, p⟩
  | n, s, p => .error (complaintsOf n ++ complaintsOf s ++ complaintsOf p)

def ofRaw (g : RawGraph) : RawValue g.size → Except Invalid (ResourceSpec g.size)
  | .obj i =>
    match ofMembers g (g.members i) with
    | .ok s => .ok s
    | .error cs => .error ⟨modelName, cs⟩
  | _ => .error ⟨modelName, [⟨[], .notModel modelName⟩]⟩

/-- Checks specifications in order; the first bad one is reported. -/
def ofRaws (g : RawGraph) (raws : List (RawValue g.size)) :
    Except Invalid (List (ResourceSpec g.size)) :=
  raws.mapM (ofRaw g)

end ResourceSpec

/-- Specifications with the graph of their schemas. -/
structure Specs where
  graph : RawGraph
  specs : List (ResourceSpec graph.size)

namespace Specs

/-- Why specifications cannot be loaded. -/
inductive LoadError where
  | unreadable (e : Json.ReadError)
  | notIterable (kind : String)
  | invalid (e : Invalid)

def LoadError.message : LoadError → String
  | .unreadable e => e.message
  | .notIterable kind => Value.notIterableMessage kind
  | .invalid e => e.message

/-- Specifications given as documents with shared objects. -/
def ofDocuments (shared : List (String × Value)) (documents : List Value) :
    Except Invalid Specs :=
  let l := Linked.ofDocuments shared documents
  match ResourceSpec.ofRaws l.graph l.roots with
  | .ok specs => .ok ⟨l.graph, specs⟩
  | .error e => .error e

/-- The text of a file holds a list of specifications or an object with one under `resources`. -/
def ofText (text : String) : Except LoadError Specs :=
  match Json.readFileText text with
  | .error e => .error (.unreadable e)
  | .ok document =>
    let list :=
      match document with
      | .obj members => (Keyed.find? "resources" members).getD (.arr [])
      | v => v
    match list.items? with
    | none => .error (.notIterable list.kindWord)
    | some items =>
      match ofDocuments [] items with
      | .ok s => .ok s
      | .error e => .error (.invalid e)

end Specs

end ResourceGraph
