import ResourceGraph.Proofs.Schema.Flattening
import ResourceGraph.Proofs.Schema.StringPaths

/-!
# The order of the dot-paths

The chains of names that lead to strings come in the order of a walk through the schema, depth
first and with the properties of an object as they are listed. So each comes once. A smaller depth
leaves out the longer chains and changes nothing else.
-/

namespace ResourceGraph

variable {n : Nat}

/-- The names of a chain with dots between them, below a prefix. -/
def dotted (start : String) (chain : List String) : String :=
  (if start = "" then "" else start ++ ".") ++ ".".intercalate chain

theorem pathFrom_eq {start : String} (h : start ≠ "") (chain : List String) :
    NodeTable.pathFrom start chain = ".".intercalate (start :: chain) := by
  induction chain generalizing start with
  | nil => exact String.intercalate_singleton.symm
  | cons name rest ih =>
      have joined : NodeTable.joinPath start name = start ++ "." ++ name := if_neg h
      have nonempty : start ++ "." ++ name ≠ "" := by simp
      rw [NodeTable.pathFrom, List.foldl_cons, joined]
      refine (ih nonempty).trans ?_
      cases rest with
      | nil => simp
      | cons next rest => simp [String.append_assoc]

/-- A path is its chain with dots, if it does not start with an empty name. -/
theorem pathFrom_eq_dotted {start : String} {chain : List String} (nonempty : chain ≠ [])
    (h : start = "" → chain.head? ≠ some "") :
    NodeTable.pathFrom start chain = dotted start chain := by
  by_cases hs : start = ""
  · subst hs
    cases chain with
    | nil => exact absurd rfl nonempty
    | cons name rest =>
        have named : name ≠ "" := fun he => h rfl (congrArg some he)
        refine (pathFrom_eq named rest).trans ?_
        simp [dotted]
  · rw [pathFrom_eq hs, dotted, if_neg hs, String.intercalate_cons_of_ne_nil nonempty]

namespace NodeTable

variable {t : NodeTable n}

/-- A walk through the properties of the node, depth first, goes along one chain before it goes
along the other. -/
inductive Precedes (t : NodeTable n) : Node n → List String → List String → Prop
  | earlier {key properties required additional other name name' rest rest'}
      (order : [name, name'].Sublist (Keyed.keys properties)) :
      Precedes t (.object key properties required additional other) (name :: rest) (name' :: rest')
  | inside {key properties required additional other name property x rest rest'}
      (mem : (name, property) ∈ properties) (is : t.resolve property = some x)
      (inner : Precedes t x rest rest') :
      Precedes t (.object key properties required additional other) (name :: rest) (name :: rest')

/-- No chain comes before itself where properties have distinct names. -/
theorem Precedes.irrefl (ht : t.Sound []) {x : Node n} {a b : List String}
    (h : t.Precedes x a b) (settled : t.Settled x) : a ≠ b := by
  induction h with
  | earlier order =>
      rintro ⟨⟩
      exact List.nodup_iff_sublist.mp settled.distinct _ order
  | inside mem is _ ih =>
      rintro ⟨⟩
      exact ih (resolve_settled ht (settled.property _ mem) is) rfl

theorem head_of_mem_chainsThrough {below : Node n → List (List String)} {p : String × Node n}
    {chain : List String} (h : chain ∈ t.chainsThrough below p) : ∃ rest, chain = p.1 :: rest := by
  unfold chainsThrough at h
  split at h
  · exact ⟨[], List.mem_singleton.mp h⟩
  · obtain ⟨rest, -, rfl⟩ := List.mem_map.mp h
    exact ⟨rest, rfl⟩
  · cases h

/-- The chains come in the order of the walk. -/
theorem chains_pairwise (depth : Nat) (x : Node n) :
    (t.chains depth x).Pairwise (t.Precedes x) := by
  induction depth generalizing x with
  | zero => exact List.Pairwise.nil
  | succ depth ih =>
      cases x with
      | object key properties required additional other =>
          refine List.pairwise_flatMap.mpr ⟨fun p mem => ?_, ?_⟩
          · unfold chainsThrough
            split
            · exact List.pairwise_singleton _ _
            · rename_i x _ is
              exact List.pairwise_map.mpr ((ih x).imp fun inner => .inside mem is inner)
            · exact List.Pairwise.nil
          · refine List.pairwise_iff_forall_sublist.mpr fun {p q} order a ha b hb => ?_
            obtain ⟨rest, rfl⟩ := head_of_mem_chainsThrough ha
            obtain ⟨rest', rfl⟩ := head_of_mem_chainsThrough hb
            exact .earlier (order.map Prod.fst)
      | _ => exact List.Pairwise.nil

/-- A smaller depth leaves out the longer chains. -/
theorem chains_eq_filter (depth : Nat) (x : Node n) :
    t.chains depth x = (t.chains (depth + 1) x).filter (·.length ≤ depth) := by
  induction depth generalizing x with
  | zero =>
      refine (List.filter_eq_nil_iff.mpr fun chain h short => ?_).symm
      exact (mem_chains.mp h).2.ne_nil (by simpa using short)
  | succ depth ih =>
      cases x with
      | object key properties required additional other =>
          show properties.flatMap _ = (properties.flatMap _).filter _
          rw [List.filter_flatMap]
          refine congrArg properties.flatMap (funext fun p => ?_)
          unfold chainsThrough
          split
          · simp
          · rename_i x _ _
            rw [List.filter_map, ih x]
            simp [Function.comp_def]
          · rfl
      | _ => rfl

end NodeTable

/-- After any readings with one table, the dot-paths of a node of the graph that was read are those
of the chains of names that lead from what it resolves to, through objects, to a plain string: each
once, in the order of a walk, and for a smaller depth without the longer ones. -/
theorem Parsing.readings_paths {g : RawGraph} {raws : List (RawValue g.size)}
    {nodes : List (Node g.size)} {t : NodeTable g.size}
    (h : outcome (raws.mapM (parse g [])) .empty = (.ok nodes, t)) {node : Node g.size}
    (reached : t.Reached nodes node) : ∃ x, t.resolve node = some x ∧
      ∃ chains : Nat → List (List String), ∀ depth,
        (∀ chain, chain ∈ chains depth ↔ t.LeadsWithin depth chain x) ∧
        (chains depth).Pairwise (t.Precedes x) ∧ (chains depth).Nodup ∧
        chains depth = (chains (depth + 1)).filter (·.length ≤ depth) ∧
        ∀ start, (start = "" → ∀ chain ∈ chains depth, chain.head? ≠ some "") →
          t.stringPaths depth start (some node) = (chains depth).map (dotted start) := by
  obtain ⟨grown, reflects, settled⟩ := readings_ensures raws .empty nodes t
    (NodeTable.sound_empty []) (NodeTable.reflects_empty []) h
  have known : node.All (t.Knows []) := reached.known grown.sound fun y hy =>
    let ⟨_, _, read⟩ := exists_of_forall₂_right settled hy
    read.known
  obtain ⟨-, x, hx, -, -⟩ := NodeTable.resolve_exists grown.sound reflects known
  have is_settled := NodeTable.resolve_settled grown.sound known hx
  refine ⟨x, hx, fun depth => t.chains depth x, fun depth => ⟨fun _ => NodeTable.mem_chains,
    NodeTable.chains_pairwise depth x, ?_, NodeTable.chains_eq_filter depth x,
    fun start named => ?_⟩⟩
  · exact (NodeTable.chains_pairwise depth x).imp fun before => before.irrefl grown.sound is_settled
  · have same : t.resolve? (some node) = some x := hx
    rw [NodeTable.stringPaths_eq same]
    refine List.map_congr_left fun chain mem => pathFrom_eq_dotted ?_ fun he => named he chain mem
    exact (NodeTable.mem_chains.mp mem).2.ne_nil

/-- The table after a person has been read. -/
abbrev RawGraph.befriended.table : NodeTable 7 :=
  (Parsing.outcome ([.obj 0].mapM (Parsing.parse RawGraph.befriended [])) .empty).2

open RawGraph.befriended in
/-- The friend of a person is a reference back to the person. -/
theorem befriended_paths : Parsing.outcome
      ([.obj 0].mapM (Parsing.parse RawGraph.befriended [])) .empty = (.ok [person], table) ∧
    table.Reached [person] (.ref 0 0) ∧ ∃ (x : Node 7) (chains : List (List String)),
      table.resolve (.ref 0 0) = some x ∧
      (∀ chain, chain ∈ chains ↔ table.LeadsWithin 3 chain x) ∧ chains.Nodup ∧
      table.stringPaths 3 "of" (some (.ref 0 0)) = chains.map (dotted "of") ∧
      table.stringPaths 3 "of" (some (.ref 0 0))
        = ["of.name", "of.friend.name", "of.friend.friend.name"] := by
  have run : Parsing.outcome ([.obj 0].mapM (Parsing.parse RawGraph.befriended [])) .empty
      = (.ok [person], table) := by
    refine Prod.ext ?_ rfl
    rw [Parsing.parse_eq_upTo (unseenFin_nil_le _)]
    decide +kernel
  have reached : table.Reached [person] (.ref 0 0) :=
    .inside (.inside (.root (List.mem_singleton_self _)) (List.mem_cons_self ..))
      (List.mem_append_left _ (List.mem_cons_of_mem _ (List.mem_cons_self ..)))
  obtain ⟨x, resolved, chains, all⟩ := Parsing.readings_paths run reached
  obtain ⟨leads, -, once, -, paths⟩ := all 3
  refine ⟨run, reached, x, chains 3, resolved, leads, once, paths "of" (by simp), ?_⟩
  rw [table, List.mapM_cons, List.mapM_nil]
  cbv

end ResourceGraph
