import ResourceGraph.Value

/-!
From documents to a graph. A document may use shared objects, which have names: where a text has an
object with the one member `$use`, the object of that name stands. All other objects are their own.
Documents are trees; a knot in one, if there were any, would be null.
-/

namespace ResourceGraph

/-- A graph with values that refer to its objects. -/
structure Linked where
  graph : RawGraph
  roots : List (RawValue graph.size)

namespace Link

/-- The objects numbered so far, in order of their numbers. -/
abbrev Objects := Array (List (String × Raw Nat))

/-- The shared object that a document refers to, if the members are such a reference. -/
def shared? (names : List String) : List (String × Value) → Option Nat
  | [("$use", .str name)] => names.idxOf? name
  | _ => none

mutual

/-- Numbers the objects of a value, the inner ones before the outer ones. -/
def link (names : List String) : Value → Objects → Raw Nat × Objects
  | .null, os => (.null, os)
  | .bool b, os => (.bool b, os)
  | .int n, os => (.int n, os)
  | .double x, os => (.double x, os)
  | .str s, os => (.str s, os)
  | .arr items, os =>
    let (items, os) := linkItems names items os
    (.arr items, os)
  | .obj members, os =>
    match shared? names members with
    | some i => (.obj i, os)
    | none =>
      let (members, os) := linkMembers names members os
      (.obj os.size, os.push members)
  | .knot _, os => (.null, os)

def linkItems (names : List String) : List Value → Objects → List (Raw Nat) × Objects
  | [], os => ([], os)
  | v :: vs, os =>
    let (v, os) := link names v os
    let (vs, os) := linkItems names vs os
    (v :: vs, os)

def linkMembers (names : List String) :
    List (String × Value) → Objects → List (String × Raw Nat) × Objects
  | [], os => ([], os)
  | (k, v) :: ms, os =>
    let (v, os) := link names v os
    let (ms, os) := linkMembers names ms os
    ((k, v) :: ms, os)

end

/-- Links the members of the shared objects, which have the first numbers. -/
def linkShared (names : List String) (shared : List (String × Value)) (os : Objects) : Objects :=
  (shared.zipIdx).foldl
    (fun os (p, i) =>
      match p.2 with
      | .obj members =>
        let (members, os) := linkMembers names members os
        os.set! i members
      | _ => os)
    os

/-- A reference to a number that no object has is null. -/
def bound (n : Nat) : Raw Nat → RawValue n
  | .obj i => if h : i < n then .obj ⟨i, h⟩ else .null
  | .null => .null
  | .bool b => .bool b
  | .int k => .int k
  | .double x => .double x
  | .str s => .str s
  | .arr items => .arr (boundItems n items)
where
  boundItems (n : Nat) : List (Raw Nat) → List (RawValue n)
    | [] => []
    | v :: vs => bound n v :: boundItems n vs

end Link

namespace Linked

/-- The graph of documents that use shared objects. -/
def ofDocuments (shared : List (String × Value)) (documents : List Value) : Linked :=
  let names := shared.map (·.1)
  let os : Link.Objects := (shared.map fun _ => []).toArray
  let os := Link.linkShared names shared os
  let (roots, os) := Link.linkItems names documents os
  { graph :=
      { size := os.size
        objects :=
          (os.map fun ms =>
            Keyed.ofPairs (ms.map fun (k, v) => (k, Link.bound os.size v))).toVector.cast (by simp)
        nodup := fun i => by simpa [Vector.get] using Keyed.nodup_keys_ofPairs _ }
    roots := roots.map (Link.bound os.size) }

end Linked

end ResourceGraph
