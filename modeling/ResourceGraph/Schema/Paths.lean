import ResourceGraph.Schema.Composite

/-!
Dot-paths to the string leaves of a schema, in the order of its properties. Only plain strings
count, reached through objects alone, and a path has at most as many segments as the depth allows.
-/

namespace ResourceGraph.NodeTable

variable {n : Nat} (t : NodeTable n)

def joinPath (start name : String) : String := if start = "" then name else start ++ "." ++ name

def stringPaths : Nat → String → Option (Node n) → List String
  | 0, _, _ => []
  | depth + 1, start, node =>
    match t.resolve? node with
    | some (.object _ properties _ _ _) =>
      properties.flatMap fun (name, property) =>
        let path := joinPath start name
        match t.resolve property with
        | some (.scalar _ (.str "string") _) => [path]
        | some (.object key (p :: ps) required additional other) =>
          stringPaths depth path (some (.object key (p :: ps) required additional other))
        | _ => []
    | _ => []

end ResourceGraph.NodeTable
