import Mathlib.Data.List.Perm.Subperm
import ResourceGraph.Proofs.Schema.Likeness

/-!
# Room for resolution

Resolution with a limit to how many composites may be open at a time, in which a reference has to
lead to a node at once. For a table that has been read the number of its composites is limit enough.
-/

namespace ResourceGraph

/-! ## Room -/

section

variable {α : Type}

/-- What is open is part of `all`, and there is room for the rest. -/
structure Fits (all : List α) (limit : Nat) (within : List α) : Prop where
  nodup : within.Nodup
  part : ∀ a ∈ within, a ∈ all
  room : all.length ≤ limit + within.length

theorem fits_nil (all : List α) : Fits all all.length [] :=
  ⟨List.nodup_nil, nofun, Nat.le_refl _⟩

/-- Something else can be opened. -/
theorem Fits.cons {all within : List α} {limit : Nat} (h : Fits all limit within) {a : α}
    (ha : a ∈ all) (closed : a ∉ within) :
    ∃ limit', limit = limit' + 1 ∧ Fits all limit' (a :: within) := by
  have nodup := List.nodup_cons.mpr ⟨closed, h.nodup⟩
  have part : ∀ b ∈ a :: within, b ∈ all := List.forall_mem_cons.mpr ⟨ha, h.part⟩
  have few := (List.subperm_of_subset nodup part).length_le
  have room := h.room
  rw [List.length_cons] at few
  cases limit with
  | zero => omega
  | succ limit =>
      refine ⟨limit, rfl, nodup, part, ?_⟩
      rw [List.length_cons]
      omega

end

variable {n : Nat}

namespace Node

def isComposite : Node n → Bool
  | .composite .. => true
  | _ => false

def isObject : Node n → Bool
  | .object .. => true
  | _ => false

end Node

namespace NodeTable

variable (t : NodeTable n)

/-- The raw objects whose nodes are composites. -/
def composites : List (Fin n) := (List.finRange n).filter fun i => (t.find? i).any Node.isComposite

/-- The raw objects whose nodes are objects. -/
def objects : List (Fin n) := (List.finRange n).filter fun i => (t.find? i).any Node.isObject

/-! ## Limited resolution -/

mutual

/-- Resolves a node with at most `limit` composites open besides `within`, or runs out of room. -/
def resolveInTo (owner : Fin n) (limit : Nat) (within : List (Fin n)) (node : Node n) :
    Option (Option (Node n)) :=
  match t.deref node with
  | some (.ref _ _) => none
  | some (.composite id kind branches) =>
    if id ∈ within then some (some (.emptyObject (.merged owner)))
    else
      match limit with
      | 0 => none
      | limit + 1 =>
        match kind with
        | .allOf => do
          let (properties, required) ←
            mergeBranchesTo owner limit (id :: within) branches ([], [])
          return some (.object (.merged owner) properties required none .null)
        | .anyOf | .oneOf =>
          match branches with
          | [] => some none
          | first :: _ => resolveInTo owner limit (id :: within) first
  | other => some other
termination_by (limit, 0)

def mergeBranchesTo (owner : Fin n) (limit : Nat) (within : List (Fin n))
    (branches : List (Node n)) (acc : List (String × Node n) × List String) :
    Option (List (String × Node n) × List String) :=
  match branches with
  | [] => some acc
  | b :: bs => do
    let resolved ← resolveInTo owner limit within b
    mergeBranchesTo owner limit within bs (mergeBranch acc resolved)
termination_by (limit, 1 + branches.length)

end

def resolveTo (limit : Nat) (node : Node n) : Option (Option (Node n)) :=
  match t.deref node with
  | some (.ref _ _) => none
  | some (.composite id kind branches) => t.resolveInTo id limit [] (.composite id kind branches)
  | other => some other

/-! ## There is room -/

variable {t}

theorem mem_composites {id : Fin n} {kind : CompositeKind} {branches : List (Node n)}
    (known : (Node.composite id kind branches).All (t.Knows [])) : id ∈ t.composites := by
  have stored : t.find? id = some (.composite id kind branches) := known.self.1 id rfl
  exact List.mem_filter.mpr ⟨List.mem_finRange id, by rw [stored]; rfl⟩

theorem mem_objects {id : Fin n} {properties : List (String × Node n)} {required : List String}
    {additional : Option (Node n)} {other : Value}
    (known : (Node.object (.parsed id) properties required additional other).All (t.Knows [])) :
    id ∈ t.objects := by
  have stored := known.self.1 id rfl
  exact List.mem_filter.mpr ⟨List.mem_finRange id, by rw [stored]; rfl⟩

mutual

theorem resolveInTo_eq (ht : t.Sound []) {owner : Fin n} {limit : Nat} {within : List (Fin n)}
    {x : Node n} (fits : Fits t.composites limit within) (hx : x.All (t.Knows [])) :
    t.resolveInTo owner limit within x = some (t.resolveIn owner within x) := by
  rw [resolveInTo.eq_def, resolveIn]
  cases hd : t.deref x with
  | none => rfl
  | some y =>
      obtain ⟨known, leads⟩ := deref_known ht hx hd
      cases y with
      | ref serial target => exact (leads trivial).elim
      | composite id kind branches =>
          dsimp only
          by_cases hid : id ∈ within
          · rw [if_pos hid, dif_pos hid]
          · rw [if_neg hid, dif_neg hid]
            obtain ⟨limit', rfl, fits'⟩ := fits.cons (mem_composites known) hid
            have hb := known.branch
            cases kind with
            | allOf =>
                dsimp only
                rw [mergeBranchesTo_eq ht fits' hb]
                rfl
            | anyOf =>
                cases branches with
                | nil => rfl
                | cons first _ => exact resolveInTo_eq ht fits' (hb _ (List.mem_cons_self ..))
            | oneOf =>
                cases branches with
                | nil => rfl
                | cons first _ => exact resolveInTo_eq ht fits' (hb _ (List.mem_cons_self ..))
      | _ => rfl
termination_by (limit, 0)
decreasing_by all_goals decreasing_with omega

theorem mergeBranchesTo_eq (ht : t.Sound []) {owner : Fin n} {limit : Nat}
    {within : List (Fin n)} {branches : List (Node n)}
    {acc : List (String × Node n) × List String} (fits : Fits t.composites limit within)
    (hb : ∀ b ∈ branches, b.All (t.Knows [])) :
    t.mergeBranchesTo owner limit within branches acc
      = some (t.mergeBranches owner within branches acc) := by
  match branches with
  | [] => rw [mergeBranchesTo, mergeBranches]
  | b :: bs =>
      obtain ⟨known, rest⟩ := List.forall_mem_cons.mp hb
      rw [mergeBranchesTo, mergeBranches, resolveInTo_eq ht fits known]
      exact mergeBranchesTo_eq ht fits rest
termination_by (limit, 1 + branches.length)
decreasing_by all_goals decreasing_with omega

end

/-- There is room for the composites of the table. -/
theorem resolveTo_eq (ht : t.Sound []) {x : Node n} (hx : x.All (t.Knows [])) :
    t.resolveTo t.composites.length x = some (t.resolve x) := by
  unfold resolveTo resolve
  cases hd : t.deref x with
  | none => rfl
  | some y =>
      obtain ⟨known, leads⟩ := deref_known ht hx hd
      cases y with
      | ref serial target => exact (leads trivial).elim
      | composite id kind branches => exact resolveInTo_eq ht (fits_nil _) known
      | _ => rfl

/-! ## Objects that can be met -/

variable (t) in
/-- Where the objects come from that nodes of the table can resolve to. -/
def objectKeys : List (ObjectKey n) := t.objects.map .parsed ++ t.composites.map .merged

theorem length_objectKeys : t.objectKeys.length = t.objects.length + t.composites.length := by
  rw [objectKeys, List.length_append, List.length_map, List.length_map]

theorem mem_objectKeys_of_known {key : ObjectKey n} {properties : List (String × Node n)}
    {required : List String} {additional : Option (Node n)} {other : Value}
    (known : (Node.object key properties required additional other).All (t.Knows [])) :
    key ∈ t.objectKeys := by
  cases key with
  | parsed id => exact List.mem_append_left _ (List.mem_map_of_mem (mem_objects known))
  | merged composite => exact known.self.2.2.elim

/-- An object is the node of a raw object, or was made for a composite. -/
theorem Yields.mem_objectKeys (ht : t.Sound []) {key : ObjectKey n}
    {properties : List (String × Node n)} {required : List String} {additional : Option (Node n)}
    {other : Value} (h : t.Yields (.object key properties required additional other)) :
    key ∈ t.objectKeys := by
  obtain ⟨z, hz, resolved⟩ := h
  unfold resolve at resolved
  cases hd : t.deref z with
  | none =>
      rw [hd] at resolved
      cases resolved
  | some y =>
      rw [hd] at resolved
      have known := (deref_known ht hz hd).1
      cases y with
      | composite id kind branches =>
          rcases (closed_known ht).resolveIn known resolved with read | ⟨_, _, merged, -⟩
          · exact mem_objectKeys_of_known read
          · injection merged with key
            rw [key]
            exact List.mem_append_right _ (List.mem_map_of_mem (mem_composites known))
      | object key' _ _ _ _ =>
          cases resolved
          exact mem_objectKeys_of_known known
      | _ => cases resolved

end NodeTable

end ResourceGraph
