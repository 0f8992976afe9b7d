import ResourceGraph.Config.Pagination
import ResourceGraph.Fault

/-!
What a store of records answers. Asking may change the state `σ` of the store, and it may end with an
exception of the type `ε`.
-/

namespace ResourceGraph

structure Store (σ : Type) (ε : Type := Fault) where
  /-- One record, or null. -/
  find : (resource : String) → (id : Value) → StateM σ (Except ε Value)
  /-- One page of the records of a resource that match the parameters. -/
  search : (resource : String) → (params : Keyed.Entries Value) → (paths : List String) →
    Pagination → StateM σ (Except ε Value)

end ResourceGraph
