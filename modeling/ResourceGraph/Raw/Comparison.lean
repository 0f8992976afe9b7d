import ResourceGraph.Value.Basic

/-!
Comparison of the objects of a graph. Two objects are compared member by member, and their members
in the same way, so the comparison of objects that contain themselves may never end. It stops early
at the first difference, which decides whether it ends; an object is the same as itself at once.
-/

namespace ResourceGraph

/-- How a comparison goes. -/
inductive Verdict where
  | same
  | different
  /-- It never ends. -/
  | endless
deriving DecidableEq

namespace Verdict

def ofBool (b : Bool) : Verdict := if b then .same else .different

/-- One comparison and then another, which is made only if the first finds no difference. -/
@[macro_inline] def and (a b : Verdict) : Verdict :=
  match a with
  | .same => b
  | .different => .different
  | .endless => .endless

end Verdict

namespace Raw

variable {ι : Type}

def scalar? : Raw ι → Option Value
  | .null => some .null
  | .bool b => some (.bool b)
  | .int n => some (.int n)
  | .double x => some (.double x)
  | .str s => some (.str s)
  | .arr _ | .obj _ => none

mutual

/-- Compares two values whose objects are compared by `f`. Lists of different lengths are different
before their items are looked at. -/
def compare (f : ι → ι → Verdict) : Raw ι → Raw ι → Verdict
  | .arr vs, w =>
    match w with
    | .arr ws => if vs.length = ws.length then compareItems f vs ws else .different
    | _ => .different
  | .obj i, w =>
    match w with
    | .obj j => f i j
    | _ => .different
  | v, w =>
    match v.scalar?, w.scalar? with
    | some a, some b => .ofBool (a.leafEq b)
    | _, _ => .different

def compareItems (f : ι → ι → Verdict) : List (Raw ι) → List (Raw ι) → Verdict
  | [], _ => .same
  | v :: vs, ws =>
    match ws with
    | [] => .different
    | w :: ws => (compare f v w).and (compareItems f vs ws)

end

/-- Compares the members of an object, in order, with those of their names in another. The other's
value is on the left. -/
def compareMembers (f : ι → ι → Verdict) :
    List (String × Raw ι) → List (String × Raw ι) → Verdict
  | [], _ => .same
  | (k, v) :: ms, ns =>
    match Keyed.find? k ns with
    | some w => (w.compare f v).and (compareMembers f ms ns)
    | none => .different

end Raw

namespace RawGraph

variable (g : RawGraph)

/-- Compares two objects. A comparison that goes deeper than the limit counts as endless. -/
def compareWithin : Nat → Fin g.size → Fin g.size → Verdict
  | 0, i, j => if i = j then .same else .endless
  | limit + 1, i, j =>
    if i = j then .same
    else if (g.members i).length = (g.members j).length then
      Raw.compareMembers (compareWithin limit) (g.members i) (g.members j)
    else .different

/-- Compares two objects. A comparison that goes deeper than there are pairs of objects comes back to
one of them, and never ends. -/
def compare (i j : Fin g.size) : Verdict := g.compareWithin (g.size * g.size) i j

end RawGraph

/-- Compares two knots. Objects of different graphs are different. -/
def Knot.compare (a b : Knot) : Verdict :=
  if h : b.graph = a.graph then a.graph.compare a.object (h ▸ b.object) else .different

end ResourceGraph
