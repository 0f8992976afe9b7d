import ResourceGraph.Query.Document

/-!
Which fragments a selection mentions, and which a whole operation needs. A selection set mentions
its own spreads before those of the sets nested in it, and of these the last comes first.
-/

namespace ResourceGraph.Query

/-- The mention of a fragment. -/
structure SpreadNode where
  offset : Nat
  name : String

namespace Selection

mutual

/-- The mentions inside a selection, apart from itself. -/
def innerSpreads : Selection → List SpreadNode
  | .field _ _ _ _ _ body => ownSpreads body ++ nestedSpreads body
  | .spread .. => []
  | .inline _ _ _ _ body => ownSpreads body ++ nestedSpreads body

/-- The mentions at the level of a selection set. -/
def ownSpreads : List Selection → List SpreadNode
  | [] => []
  | .spread o n _ :: rest => ⟨o, n.text⟩ :: ownSpreads rest
  | _ :: rest => ownSpreads rest

/-- The mentions below the level of a selection set, the last nested set first. -/
def nestedSpreads : List Selection → List SpreadNode
  | [] => []
  | s :: rest => nestedSpreads rest ++ innerSpreads s

end

def spreads (body : List Selection) : List SpreadNode := ownSpreads body ++ nestedSpreads body

end Selection

namespace Document

variable (d : Document)

/-- Takes the fragments that a selection set mentions for the first time. -/
def takeMentioned (names : List String) :
    List SpreadNode → List String × List Fragment
  | [] => (names, [])
  | s :: rest =>
    if s.name ∈ names then takeMentioned names rest
    else
      let (names, fs) := takeMentioned (s.name :: names) rest
      (names, (d.lastFragment? s.name).toList ++ fs)

/-- The fragments that are needed by selection sets on a stack, the last of which comes first. -/
def neededBy : (room : Nat) → (stack : List (List Selection)) → (names : List String) →
    List Fragment
  | 0, _, _ => []
  | _ + 1, [], _ => []
  | room + 1, body :: stack, names =>
    let (names, fs) := d.takeMentioned names (Selection.spreads body)
    fs ++ neededBy room ((fs.map (·.body)).reverse ++ stack) names

/-- The fragments that an operation needs, directly or through others. Each is entered once. -/
def fragmentsOf (o : Operation) : List Fragment := d.neededBy (d.parts.length + 1) [o.body] []

end Document

end ResourceGraph.Query
