import ResourceGraph.Value.Basic

/-!
From the values of a graph to trees. An object that is no finite tree becomes a knot, which keeps the
graph.
-/

namespace ResourceGraph

namespace Raw

variable {ι : Type}

mutual

/-- The value with something put in the place of every object. -/
def fill (f : ι → Value) : Raw ι → Value
  | .null => .null
  | .bool b => .bool b
  | .int n => .int n
  | .double x => .double x
  | .str s => .str s
  | .arr items => .arr (fillItems f items)
  | .obj i => f i

def fillItems (f : ι → Value) : List (Raw ι) → List Value
  | [] => []
  | v :: vs => fill f v :: fillItems f vs

end

end Raw

namespace RawGraph

variable (g : RawGraph)

/-- The tree of an object down to a depth. -/
def treeWithin : Nat → Fin g.size → Value
  | 0, _ => .null
  | limit + 1, i => .obj ((g.members i).map fun p => (p.1, p.2.fill (treeWithin limit)))

/-- What an object unfolds to, when it is found in an item of a list. -/
def unfoldObject (within : Option (ListPlace g.size)) (i : Fin g.size) : Value :=
  if h : g.ends i = false then .knot ⟨g, i, h, within⟩ else g.treeWithin g.size i

/-- What a value unfolds to: objects become trees, or knots if they are no finite trees. -/
def unfold (v : RawValue g.size) : Value := v.fill (g.unfoldObject none)

/-- What the items of a list unfold to, the first of which has the given index in the member `key` of
the object. -/
def unfoldItems (i : Fin g.size) (key : String) : Nat → List (RawValue g.size) → List Value
  | _, [] => []
  | index, v :: vs =>
    v.fill (g.unfoldObject (some ⟨i, key, index⟩)) :: unfoldItems i key (index + 1) vs

end RawGraph

end ResourceGraph
