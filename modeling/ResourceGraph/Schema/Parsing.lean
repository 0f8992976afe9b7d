import ResourceGraph.Schema.Layout

/-!
From raw schemas to nodes. Each raw object becomes one node, however often it is used; an object
met again while it is being read becomes a reference. What has been read before a failure stays in
the table.
-/

namespace ResourceGraph

/-- A reading that may fail and keeps its table all the same. -/
abbrev Parsing (n : Nat) (α : Type) := ExceptT SchemaError (StateM (NodeTable n)) α

namespace Parsing

variable (g : RawGraph)

/-- The number of a node that comes from no raw object. -/
def nextSerial {n : Nat} : Parsing n Nat := do
  let t ← get
  set { t with serial := t.serial + 1 }
  return t.serial

mutual

/-- The node of a raw value, inside the objects `within`. -/
def parse (within : List (Fin g.size)) (raw : RawValue g.size) : Parsing g.size (Node g.size) :=
  match raw with
  | .obj i => do
    match (← get).find? i with
    | some node => return node
    | none =>
      if h : i ∈ within then return .ref (← nextSerial) i
      else
        have := unseenFin_cons_lt h
        let node ← parseLayout i (i :: within) (Layout.ofObject g i)
        modify (·.store i node)
        return node
  | _ => return .scalar (.serial (← nextSerial)) .null .null
termination_by (unseenFin within, 0)

def parseLayout (i : Fin g.size) (within : List (Fin g.size)) (layout : Layout g.size) :
    Parsing g.size (Node g.size) :=
  match layout with
  | .composite kind branches => return .composite i kind (← parseItems within branches)
  | .enumeration values type => return .enumeration i values type
  | .array none => return .array i none
  | .array (some items) => return .array i (some (← parse within items))
  | .object properties required additional otherAdditional => do
    let additional ←
      match additional with
      | none => pure none
      | some raw => some <$> parse within raw
    let properties ← parseMembers within properties
    let required ← (required : Parsing g.size (List String))
    return .object (.parsed i) properties required additional otherAdditional
  | .scalar type format => return .scalar (.parsed i) type format
termination_by (unseenFin within, 2 + sizeOf layout)
decreasing_by all_goals simp_wf; omega

def parseItems (within : List (Fin g.size)) (items : List (RawValue g.size)) :
    Parsing g.size (List (Node g.size)) :=
  match items with
  | [] => return []
  | raw :: rest => return (← parse within raw) :: (← parseItems within rest)
termination_by (unseenFin within, 1 + sizeOf items)

def parseMembers (within : List (Fin g.size)) (ms : List (String × RawValue g.size)) :
    Parsing g.size (List (String × Node g.size)) :=
  match ms with
  | [] => return []
  | (k, raw) :: rest => return (k, ← parse within raw) :: (← parseMembers within rest)
termination_by (unseenFin within, 1 + sizeOf ms)

end

/-- Reads one raw value, with a table of what has been read before. -/
def run (raw : RawValue g.size) (t : NodeTable g.size) :
    Except SchemaError (Node g.size) × NodeTable g.size :=
  ExceptT.run (parse g [] raw) t

end Parsing

end ResourceGraph
