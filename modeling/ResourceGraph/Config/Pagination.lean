import ResourceGraph.Config.Validation

/-!
How many records a page has and where it starts, where a request does not say.
-/

namespace ResourceGraph

structure Pagination where
  limitDefault : Int := 25
  limitMax : Int := 100
  offsetDefault : Int := 0
  one_le_limitDefault : 1 ≤ limitDefault := by decide
  one_le_limitMax : 1 ≤ limitMax := by decide
  zero_le_offsetDefault : 0 ≤ offsetDefault := by decide

namespace Pagination

def default : Pagination := {}

instance : Inhabited Pagination := ⟨default⟩

def modelName : String := "PaginationConfig"

open Validation in
/-- Each field has a camel-case name, which goes first, and one with underscores. -/
def ofMembers {ι : Type} (ms : List (String × Raw ι)) : Checked Pagination :=
  let limit := field ["limitDefault", "limit_default"] ms (atLeast 1) (.ok ⟨25, by decide⟩)
  let max := field ["limitMax", "limit_max"] ms (atLeast 1) (.ok ⟨100, by decide⟩)
  let offset := field ["offsetDefault", "offset_default"] ms (atLeast 0) (.ok ⟨0, by decide⟩)
  match limit, max, offset with
  | .ok ⟨l, hl⟩, .ok ⟨m, hm⟩, .ok ⟨o, ho⟩ => .ok ⟨l, m, o, hl, hm, ho⟩
  | limit, max, offset => .error (complaintsOf limit ++ complaintsOf max ++ complaintsOf offset)

def ofRaw (g : RawGraph) : RawValue g.size → Validation.Checked Pagination
  | .obj i => ofMembers (g.members i)
  | _ => .error [⟨[], .notModel modelName⟩]

end Pagination

end ResourceGraph
