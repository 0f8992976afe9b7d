import ResourceGraph.Config.Pagination
import ResourceGraph.Fault

/-!
Pages: which part of a result a request asks for, and the page that a store answers with.
-/

namespace ResourceGraph

/-- The integer that a parameter stands for: numbers are cut toward zero, texts are read. -/
def toInteger : Value → Except Fault Int
  | .bool b => .ok (if b then 1 else 0)
  | .int n => .ok n
  | .double x =>
    match x.truncate? with
    | some n => .ok n
    | none => .error (if x.isNaN then .nanInteger else .infiniteInteger)
  | .str s =>
    match Reading.integer? s with
    | some n => .ok n
    | none => .error (.unreadableInteger s)
  | v => .error (.notNumeric v.kindWord)

/-- The limit and the offset of a request. -/
structure Window where
  limit : Nat
  offset : Nat
  limit_pos : 1 ≤ limit

/-- The window of the requested numbers: at least one record, and at most the maximum. -/
def Window.clamp (p : Pagination) (limit offset : Int) : Window where
  limit := (max 1 (min limit p.limitMax)).toNat
  offset := (max 0 offset).toNat
  limit_pos := by omega

def Window.requested (default : Int) : Value → Except Fault Int
  | .null => .ok default
  | v => toInteger v

/-- The window that the parameters `limit` and `offset` ask for. -/
def Window.ofParams (params : Keyed.Entries Value) (p : Pagination) : Except Fault Window := do
  let limit ← requested p.limitDefault ((Value.obj params).get "limit")
  let offset ← requested p.offsetDefault ((Value.obj params).get "offset")
  return clamp p limit offset

structure Page where
  items : List Value
  total : Nat
  limit : Nat
  offset : Nat
  hasNext : Bool

/-- The part of a result that a window shows. -/
def Page.ofMatches (w : Window) (found : List Value) : Page :=
  let items := (found.drop w.offset).take w.limit
  { items := items
    total := found.length
    limit := w.limit
    offset := w.offset
    hasNext := w.offset + items.length < found.length }

def Page.toValue (p : Page) : Value :=
  .obj [("items", .arr p.items), ("total", .int p.total), ("limit", .int p.limit),
    ("offset", .int p.offset), ("hasNext", .bool p.hasNext)]

/-- The page that a store's answer stands for: an object, in which the members of a page that are
missing or null have default values. -/
def normalizePage (p : Pagination) (answer : Value) : Except Fault (Keyed.Entries Value) :=
  match answer with
  | .obj members =>
    let valueOr (k : String) (d : Value) : Value :=
      match (Keyed.find? k members).getD .null with
      | .null => d
      | v => v
    let items := valueOr "items" (.arr [])
    match items.items? with
    | none => .error (.notIterable items.kindWord)
    | some items =>
      .ok [("items", .arr items), ("total", valueOr "total" (.int 0)),
        ("limit", valueOr "limit" (.int p.limitDefault)),
        ("offset", valueOr "offset" (.int p.offsetDefault)),
        ("hasNext", valueOr "hasNext" (.bool false))]
  | v => .error (.notPage v.kindWord)

end ResourceGraph
