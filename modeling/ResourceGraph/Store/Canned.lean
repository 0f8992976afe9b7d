import ResourceGraph.Store.Basic
import ResourceGraph.Value.Display

/-!
A store with prepared answers, which keeps a list of what it was asked.
-/

namespace ResourceGraph

inductive StoreCall where
  | find (resource : String) (id : Value)
  | search (handle : String) (params : Keyed.Entries Value) (paths : List String) (p : Pagination)

structure CannedStore where
  page : Value := .null
  pages : Keyed.Entries Value := []
  /-- Records under the resource, a slash and the id. -/
  records : Keyed.Entries Value := []
  /-- The text with which every question fails. -/
  fail : Option String := none
  calls : List StoreCall := []

namespace CannedStore

def answer (s : CannedStore) (v : Value) : Except Fault Value :=
  match s.fail with
  | some text => .error (.unreachable text none)
  | none => .ok v

def record (c : StoreCall) : StateM CannedStore CannedStore :=
  modifyGet fun s => (s, { s with calls := s.calls ++ [c] })

def store : Store CannedStore where
  find resource id := do
    let s ← record (.find resource id)
    return s.answer ((Keyed.find? (resource ++ "/" ++ id.plain) s.records).getD .null)
  search resource params paths p := do
    let s ← record (.search ("db:" ++ resource) params paths p)
    return s.answer ((Keyed.find? resource s.pages).getD s.page)

end CannedStore

end ResourceGraph
