import ResourceGraph.Schema.Node

/-!
Composites collapse to one concrete node: `allOf` merges the properties of its branches into one
object, `anyOf` and `oneOf` stand for their first branch. A composite met inside itself counts as
an object without properties.
-/

namespace ResourceGraph.NodeTable

variable {n : Nat} (t : NodeTable n)

/-- The properties and required names that a resolved branch adds to those before it. -/
def mergeBranch (acc : List (String × Node n) × List String) :
    Option (Node n) → List (String × Node n) × List String
  | some (.object _ properties required _ _) => (Keyed.update acc.1 properties, acc.2 ++ required)
  | _ => acc

mutual

/-- Resolves a node inside the composites `within`. An object made on the way is named after
`owner`, the composite from which resolution set out. -/
def resolveIn (owner : Fin n) (within : List (Fin n)) (node : Node n) : Option (Node n) :=
  match t.deref node with
  | some (.composite id kind branches) =>
    if h : id ∈ within then some (.emptyObject (.merged owner))
    else
      have := unseenFin_cons_lt h
      match kind with
      | .allOf =>
        let (properties, required) := mergeBranches owner (id :: within) branches ([], [])
        some (.object (.merged owner) properties required none .null)
      | .anyOf | .oneOf =>
        match branches with
        | [] => none
        | first :: _ => resolveIn owner (id :: within) first
  | other => other
termination_by (unseenFin within, 0)

def mergeBranches (owner : Fin n) (within : List (Fin n)) (branches : List (Node n))
    (acc : List (String × Node n) × List String) : List (String × Node n) × List String :=
  match branches with
  | [] => acc
  | b :: bs => mergeBranches owner within bs (mergeBranch acc (resolveIn owner within b))
termination_by (unseenFin within, 1 + branches.length)

end

/-- The concrete node that a node stands for: neither a reference nor a composite, and none for a
composite without branches. -/
def resolve (node : Node n) : Option (Node n) :=
  match t.deref node with
  | some (.composite id kind branches) => t.resolveIn id [] (.composite id kind branches)
  | other => other

def resolve? (node : Option (Node n)) : Option (Node n) := node.bind t.resolve

end ResourceGraph.NodeTable
