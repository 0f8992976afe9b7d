import ResourceGraph.Proofs.Schema.Resolution
import ResourceGraph.Proofs.Text.Pieces
import ResourceGraph.Schema.Paths
import ResourceGraph.Store.Record

/-!
# Dot-paths and the chains of names behind them

A searchable path is made from a chain of property names and taken apart again to read a record.
Both ends know the chain only by the text between them. The text gives the chain back exactly when
no name in it has a dot and it does not start with an empty name, unless that is all of it.
-/

namespace ResourceGraph

variable {n : Nat}

/-! ## Chains -/

namespace NodeTable

/-- The chain of property names leads from an object through objects to a plain string. -/
inductive Leads (t : NodeTable n) : List String → Node n → Prop
  | leaf {key properties required additional other name property leaf format}
      (mem : (name, property) ∈ properties)
      (is : t.resolve property = some (.scalar leaf (.str "string") format)) :
      Leads t [name] (.object key properties required additional other)
  | step {key properties required additional other name property x chain}
      (mem : (name, property) ∈ properties) (is : t.resolve property = some x)
      (inner : Leads t chain x) :
      Leads t (name :: chain) (.object key properties required additional other)

/-- The path of a chain, below another path. -/
def pathFrom (start : String) (chain : List String) : String := chain.foldl joinPath start

/-- Leads to a string within a number of names. -/
def LeadsWithin (t : NodeTable n) (depth : Nat) (chain : List String) (x : Node n) : Prop :=
  chain.length ≤ depth ∧ t.Leads chain x

variable {t t' : NodeTable n}

theorem Leads.ne_nil {chain : List String} {x : Node n} (h : t.Leads chain x) : chain ≠ [] := by
  cases h <;> exact List.cons_ne_nil _ _

theorem Leads.object {chain : List String} {x : Node n} (h : t.Leads chain x) :
    ∃ key properties required additional other,
      x = .object key properties required additional other := by
  cases h <;> exact ⟨_, _, _, _, _, rfl⟩

/-- The chains that start with a property, of which each goes on below the node it resolves to. -/
def chainsThrough (t : NodeTable n) (below : Node n → List (List String)) (p : String × Node n) :
    List (List String) :=
  match t.resolve p.2 with
  | some (.scalar _ (.str "string") _) => [[p.1]]
  | some x => (below x).map (p.1 :: ·)
  | none => []

/-- The chains of at most so many names that lead from a node to a string. -/
def chains (t : NodeTable n) : Nat → Node n → List (List String)
  | depth + 1, .object _ properties _ _ _ => properties.flatMap (t.chainsThrough (t.chains depth))
  | _, _ => []

theorem mem_chains {depth : Nat} {chain : List String} {x : Node n} :
    chain ∈ t.chains depth x ↔ t.LeadsWithin depth chain x := by
  induction depth generalizing chain x with
  | zero =>
      refine iff_of_false (by simp [chains]) ?_
      rintro ⟨short, leads⟩
      exact leads.ne_nil (List.length_eq_zero_iff.mp (Nat.le_zero.mp short))
  | succ depth ih =>
      constructor
      · intro h
        unfold chains at h
        split at h
        · rename_i hd
          cases hd
          obtain ⟨p, mem, h⟩ := List.mem_flatMap.mp h
          unfold chainsThrough at h
          split at h
          · rename_i is
            obtain rfl := List.mem_singleton.mp h
            exact ⟨by simp, .leaf mem is⟩
          · rename_i is
            obtain ⟨rest, inner, rfl⟩ := List.mem_map.mp h
            obtain ⟨short, leads⟩ := ih.mp inner
            exact ⟨Nat.succ_le_succ short, .step mem is leads⟩
          · cases h
        · cases h
      · rintro ⟨short, leads⟩
        cases leads with
        | leaf mem is =>
            refine List.mem_flatMap.mpr ⟨_, mem, ?_⟩
            rw [chainsThrough, is]
            exact List.mem_singleton_self _
        | step mem is inner =>
            obtain ⟨key, properties, required, additional, other, rfl⟩ := inner.object
            refine List.mem_flatMap.mpr ⟨_, mem, ?_⟩
            rw [chainsThrough, is]
            exact List.mem_map_of_mem (ih.mpr ⟨Nat.le_of_succ_le_succ short, inner⟩)

/-- Only an object with properties has chains. -/
theorem chains_eq_nil {depth : Nat} {x : Node n}
    (h : ∀ key p ps required additional other,
      x ≠ .object key (p :: ps) required additional other) : t.chains depth x = [] := by
  unfold chains
  split
  · rename_i key properties required additional other
    cases properties with
    | nil => rfl
    | cons p ps => exact absurd rfl (h _ _ _ _ _ _)
  · rfl

/-- The paths are those of the chains, in the same order. -/
theorem stringPaths_eq {depth : Nat} {start : String} {node : Option (Node n)} {x : Node n}
    (hx : t.resolve? node = some x) :
    t.stringPaths depth start node = (t.chains depth x).map (pathFrom start) := by
  induction depth generalizing start node x with
  | zero => rfl
  | succ depth ih =>
      rw [stringPaths, hx]
      cases x with
      | object key properties required additional other =>
          dsimp only [chains]
          rw [List.map_flatMap]
          refine congrArg properties.flatMap (funext fun ⟨name, property⟩ => ?_)
          unfold chainsThrough
          dsimp only
          split
          · rename_i is
            rw [is]
            rfl
          · rename_i is
            simp only [is, List.map_map]
            exact ih rfl
          · rename_i noString noObject
            split
            · rename_i is
              exact absurd is (noString _ _)
            · rename_i y _ is
              have none_below : t.chains depth y = [] :=
                chains_eq_nil fun _ _ _ _ _ _ he => noObject _ _ _ _ _ _ (he ▸ is)
              rw [none_below]
              rfl
            · rfl
      | _ => rfl

/-- The paths of an object are those of the chains that lead from it to a string. -/
theorem mem_stringPaths {depth : Nat} {start path : String} {node : Option (Node n)} :
    path ∈ t.stringPaths depth start node ↔ ∃ chain x, t.resolve? node = some x ∧
      t.LeadsWithin depth chain x ∧ path = pathFrom start chain := by
  cases hx : t.resolve? node with
  | none => cases depth <;> simp [stringPaths, hx]
  | some x =>
      rw [stringPaths_eq hx, List.mem_map]
      constructor
      · rintro ⟨chain, mem, rfl⟩
        exact ⟨chain, x, rfl, mem_chains.mp mem, rfl⟩
      · rintro ⟨chain, _, ⟨⟩, leads, rfl⟩
        exact ⟨chain, mem_chains.mpr leads, rfl⟩

/-- A table that grows leads where it led before. -/
theorem stringPaths_extends (ht : t.Sound []) (hle : t.Extends t') {depth : Nat} {start : String}
    {x : Node n} (hx : t.Settled x) :
    t'.stringPaths depth start (some x) = t.stringPaths depth start (some x) := by
  induction depth generalizing start x with
  | zero => rfl
  | succ depth ih =>
      have same : t'.resolve? (some x) = t.resolve? (some x) :=
        (resolve_of_concrete hx.concrete).trans (resolve_of_concrete hx.concrete).symm
      rw [stringPaths, stringPaths, same]
      split
      · rename_i key properties required additional other hres
        obtain rfl := Option.some.inj ((resolve_of_concrete hx.concrete).symm.trans hres)
        rw [List.flatMap_def, List.flatMap_def]
        refine congrArg List.flatten (List.map_congr_left fun p hp => ?_)
        have known := hx.property p hp
        dsimp only
        rw [resolve_extends ht hle known]
        split
        · rfl
        · rename_i is
          exact ih (resolve_settled ht known is)
        · rfl
      · rfl

end NodeTable

/-! ## Segments of a path -/

namespace Record

theorem segments_append (path name : String) :
    segments (path ++ "." ++ name) = segments path ++ segments name := by
  have texts : (path ++ "." ++ name).toList = path.toList ++ '.' :: name.toList := by simp
  rw [segments, Text.pieces, texts, Text.splitAt_append, List.map_append]
  rfl

/-- A name without a dot is one segment. -/
theorem segments_eq_singleton {name : String} (h : '.' ∉ name.toList) :
    segments name = [name] := by
  rw [segments, Text.pieces, Text.splitAt_of_notMem h]
  simp

theorem notMem_of_mem_segments {path name : String} (h : name ∈ segments path) :
    '.' ∉ name.toList := by
  obtain ⟨piece, hp, rfl⟩ := List.mem_map.mp h
  rw [String.toList_ofList]
  exact Text.notMem_of_mem_splitAt hp

end Record

/-! ## From a chain to a path and back -/

open NodeTable Record

/-- No name has a dot, and the first name is not empty, unless it is the only one. -/
def Addressable (chain : List String) : Prop :=
  (∀ name ∈ chain, '.' ∉ name.toList) ∧ (chain.head? = some "" → chain = [""])

theorem segments_pathFrom {start : String} (h : start ≠ "") (chain : List String) :
    segments (pathFrom start chain) = segments start ++ chain.flatMap segments := by
  induction chain generalizing start with
  | nil => simp [pathFrom]
  | cons name rest ih =>
      have joined : joinPath start name = start ++ "." ++ name := if_neg h
      have nonempty : start ++ "." ++ name ≠ "" := by simp
      rw [pathFrom, List.foldl_cons, joined]
      show segments (pathFrom (start ++ "." ++ name) rest) = _
      rw [ih nonempty, segments_append, List.append_assoc, List.flatMap_cons]

theorem segments_pathFrom_cons {name : String} (h : name ≠ "") (rest : List String) :
    segments (pathFrom "" (name :: rest)) = segments name ++ rest.flatMap segments :=
  segments_pathFrom h rest

/-- Without dots in its names, a chain is read back from its path but for empty names in front. -/
theorem head_segments_pathFrom {chain : List String} (dotless : ∀ name ∈ chain, '.' ∉ name.toList)
    (h : (segments (pathFrom "" chain)).head? = some "") :
    segments (pathFrom "" chain) = [""] := by
  induction chain with
  | nil => rfl
  | cons name rest ih =>
      obtain ⟨hname, hrest⟩ := List.forall_mem_cons.mp dotless
      by_cases he : name = ""
      · subst he
        exact ih hrest h
      · rw [segments_pathFrom_cons he, segments_eq_singleton hname] at h
        exact absurd (Option.some.inj h) he

theorem flatMap_segments {chain : List String} (dotless : ∀ name ∈ chain, '.' ∉ name.toList) :
    chain.flatMap segments = chain := by
  induction chain with
  | nil => rfl
  | cons name rest ih =>
      obtain ⟨hname, hrest⟩ := List.forall_mem_cons.mp dotless
      rw [List.flatMap_cons, segments_eq_singleton hname, ih hrest]
      rfl

/-- The names of an addressable chain are the segments of its path, and only theirs. -/
theorem segments_pathFrom_eq_iff {chain : List String} (h : chain ≠ []) :
    segments (pathFrom "" chain) = chain ↔ Addressable chain := by
  constructor
  · intro same
    have dotless : ∀ name ∈ chain, '.' ∉ name.toList := by
      intro name hn
      rw [← same] at hn
      exact notMem_of_mem_segments hn
    refine ⟨dotless, fun head => ?_⟩
    rw [← same] at head ⊢
    exact head_segments_pathFrom dotless head
  · rintro ⟨dotless, head⟩
    cases chain with
    | nil => exact absurd rfl h
    | cons name rest =>
        obtain ⟨hname, hrest⟩ := List.forall_mem_cons.mp dotless
        by_cases he : name = ""
        · rw [head (congrArg some he)]
          rfl
        · rw [segments_pathFrom_cons he, segments_eq_singleton hname, flatMap_segments hrest]
          rfl

end ResourceGraph
