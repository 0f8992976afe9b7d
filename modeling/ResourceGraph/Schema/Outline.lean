import ResourceGraph.Schema.Equality

/-!
A node laid out as a value. Nodes are numbered in the order in which they are reached, and a node
reached again is shown by its number alone.
-/

namespace ResourceGraph.Outline

variable {n : Nat} (t : NodeTable n)

/-- The nodes reached so far, the last one first. -/
abbrev Reached (n : Nat) := List (Node.Identity n)

def numberOf? (i : Node.Identity n) (r : Reached n) : Option Nat := r.reverse.idxOf? i

def entry (number : Nat) (kind : String) (rest : List (String × Value)) : Value :=
  .obj (("n", .int (number + 1)) :: ("node", .str kind) :: rest)

mutual

/-- Lays a node out, having come through the references `through`. -/
def node (through : List (Fin n)) (x : Node n) (r : Reached n) : Value × Reached n :=
  match x with
  | .ref _ target =>
    if h : target ∈ through then (.null, r)
    else
      have := unseenFin_cons_lt h
      match t.find? target with
      | none => (.null, r)
      | some x =>
        let (v, r) := node (target :: through) x r
        (.obj [("ref", v)], r)
  | .scalar key type format =>
    match numberOf? (Node.scalar key type format).identity r with
    | some k => (.obj [("same", .int (k + 1))], r)
    | none =>
      (entry r.length "scalar" [("type", type), ("format", format)],
        (Node.scalar key type format).identity :: r)
  | .enumeration id values type =>
    match numberOf? (.source id) r with
    | some k => (.obj [("same", .int (k + 1))], r)
    | none =>
      (entry r.length "enum" [("values", .arr values), ("type", type)], .source id :: r)
  | .array id none =>
    match numberOf? (.source id) r with
    | some k => (.obj [("same", .int (k + 1))], r)
    | none => (entry r.length "array" [("items", .null)], .source id :: r)
  | .array id (some items) =>
    match numberOf? (.source id) r with
    | some k => (.obj [("same", .int (k + 1))], r)
    | none =>
      let (v, r') := node through items (.source id :: r)
      (entry r.length "array" [("items", v)], r')
  | .composite id kind branches =>
    match numberOf? (.source id) r with
    | some k => (.obj [("same", .int (k + 1))], r)
    | none =>
      let (vs, r') := nodes through branches (.source id :: r)
      (entry r.length kind.word [("branches", .arr vs)], r')
  | .object key properties required none other =>
    let i := (Node.object key [] [] none .null).identity
    match numberOf? i r with
    | some k => (.obj [("same", .int (k + 1))], r)
    | none =>
      let (ps, r') := members through properties (i :: r)
      (entry r.length "object" [("properties", .arr ps), ("required", .arr (required.map .str)),
        ("additional", .obj [("raw", other)])], r')
  | .object key properties required (some extra) _ =>
    let i := (Node.object key [] [] none .null).identity
    match numberOf? i r with
    | some k => (.obj [("same", .int (k + 1))], r)
    | none =>
      let (ps, r₁) := members through properties (i :: r)
      let (v, r₂) := node through extra r₁
      (entry r.length "object" [("properties", .arr ps), ("required", .arr (required.map .str)),
        ("additional", v)], r₂)
termination_by (unseenFin through, sizeOf x)

def nodes (through : List (Fin n)) (xs : List (Node n)) (r : Reached n) : List Value × Reached n :=
  match xs with
  | [] => ([], r)
  | x :: rest =>
    let (v, r) := node through x r
    let (vs, r) := nodes through rest r
    (v :: vs, r)
termination_by (unseenFin through, sizeOf xs)

def members (through : List (Fin n)) (ps : List (String × Node n)) (r : Reached n) :
    List Value × Reached n :=
  match ps with
  | [] => ([], r)
  | (k, x) :: rest =>
    let (v, r) := node through x r
    let (vs, r) := members through rest r
    (.arr [.str k, v] :: vs, r)
termination_by (unseenFin through, sizeOf ps)

end

def optional (x : Option (Node n)) (r : Reached n) : Value × Reached n :=
  match x with
  | none => (.null, r)
  | some x => node t [] x r

end ResourceGraph.Outline
