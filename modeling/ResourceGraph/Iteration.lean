import ResourceGraph.Value

/-!
Going through a value: a list has items, a string characters, an object the names of its members.
Nothing else can be gone through.
-/

namespace ResourceGraph.Value

def items? : Value → Option (List Value)
  | .arr items => some items
  | .str s => some (s.toList.map fun c => .str (String.ofList [c]))
  | .obj members => some (members.map fun m => .str m.1)
  | _ => none

/-- The complaint about a value that cannot be gone through. -/
def notIterableMessage (kind : String) : String := "'" ++ kind ++ "' object is not iterable"

end ResourceGraph.Value
