import ResourceGraph.Config.Validation

/-!
The options of a service.
-/

namespace ResourceGraph

structure ServiceConfig where
  introspection : Bool := true
  /-- Whether clients see one text in place of the messages of internal errors. -/
  maskInternalErrors : Bool := false
  /-- The most segments that a searchable path has. -/
  searchDepth : Nat := 4

namespace ServiceConfig

def modelName : String := "ServiceConfig"

open Validation in
def ofMembers {ι : Type} (ms : List (String × Raw ι)) : Checked ServiceConfig :=
  let introspection := field ["introspection"] ms toBool (.ok true)
  let mask := field ["mask_internal_errors"] ms toBool (.ok false)
  let depth := field ["search_depth"] ms (atLeast 1) (.ok ⟨4, by decide⟩)
  match introspection, mask, depth with
  | .ok i, .ok m, .ok d => .ok ⟨i, m, d.val.toNat⟩
  | i, m, d => .error (complaintsOf i ++ complaintsOf m ++ complaintsOf d)

def ofRaw (g : RawGraph) : RawValue g.size → Validation.Checked ServiceConfig
  | .obj i => ofMembers (g.members i)
  | _ => .error [⟨[], .notModel modelName⟩]

end ServiceConfig

end ResourceGraph
