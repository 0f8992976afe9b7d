import Mathlib.Logic.Relation
import ResourceGraph.Raw.Unfolding

/-!
# Unfolding

An object is a finite tree exactly if nothing in it contains itself, and then it unfolds to the
object of what its members unfold to, wherever it is met. Any other object is a knot. In an unfolded
value all objects have distinct names.
-/

namespace ResourceGraph

/-! ## Distinct names -/

/-- Every object in the value has distinct names for its members. -/
inductive Value.Distinct : Value → Prop
  | null : Distinct .null
  | bool (b : Bool) : Distinct (.bool b)
  | int (n : Int) : Distinct (.int n)
  | double (x : Double) : Distinct (.double x)
  | str (s : String) : Distinct (.str s)
  | arr {items : List Value} (inside : ∀ v ∈ items, Distinct v) : Distinct (.arr items)
  | obj {members : List (String × Value)} (nodup : (Keyed.keys members).Nodup)
      (inside : ∀ p ∈ members, Distinct p.2) : Distinct (.obj members)
  | knot (k : Knot) : Distinct (.knot k)

/-! ## Seen numbers -/

/-- With no number left, all numbers have been seen. -/
theorem mem_of_unseenFin_le_zero {n : Nat} {seen : List (Fin n)} (h : unseenFin seen ≤ 0)
    (i : Fin n) : i ∈ seen :=
  Classical.byContradiction fun hi => absurd (unseenFin_cons_lt hi) (by omega)

theorem unseenFin_nil_le (n : Nat) : unseenFin ([] : List (Fin n)) ≤ n :=
  Nat.le_trans List.countP_le_length (Nat.le_of_eq List.length_finRange)

/-! ## Values with something in the place of their objects -/

namespace Raw

variable {ι : Type}

theorem mem_refsOf {items : List (Raw ι)} {i : ι} : i ∈ refsOf items ↔ ∃ v ∈ items, i ∈ v.refs := by
  induction items with
  | nil => simp [refsOf]
  | cons v rest ih => simp [refsOf, ih]

theorem fillItems_eq (f : ι → Value) (items : List (Raw ι)) :
    fillItems f items = items.map (fill f) := by
  induction items with
  | nil => rfl
  | cons v rest ih => rw [fillItems, ih, List.map_cons]

mutual

theorem fill_congr {f f' : ι → Value} : {v : Raw ι} → (∀ i ∈ v.refs, f i = f' i) →
    v.fill f = v.fill f'
  | .null, _ | .bool _, _ | .int _, _ | .double _, _ | .str _, _ => rfl
  | .arr _, h => congrArg Value.arr (fillItems_congr h)
  | .obj i, h => h i (List.mem_singleton_self i)

theorem fillItems_congr {f f' : ι → Value} : {items : List (Raw ι)} →
    (∀ i ∈ refsOf items, f i = f' i) → fillItems f items = fillItems f' items
  | [], _ => rfl
  | _ :: _, h => congrArg₂ List.cons (fill_congr fun i hi => h i (List.mem_append_left _ hi))
      (fillItems_congr fun i hi => h i (List.mem_append_right _ hi))

end

mutual

theorem fill_distinct {f : ι → Value} (h : ∀ i, (f i).Distinct) : (v : Raw ι) →
    (v.fill f).Distinct
  | .null => .null
  | .bool b => .bool b
  | .int n => .int n
  | .double x => .double x
  | .str s => .str s
  | .arr items => .arr (fillItems_distinct h items)
  | .obj i => h i

theorem fillItems_distinct {f : ι → Value} (h : ∀ i, (f i).Distinct) : (items : List (Raw ι)) →
    ∀ v ∈ fillItems f items, v.Distinct
  | [] => by simp [fillItems]
  | v :: rest => List.forall_mem_cons.mpr ⟨fill_distinct h v, fillItems_distinct h rest⟩

end

end Raw

namespace RawGraph

variable {g : RawGraph}

theorem treeWithin_distinct (limit : Nat) (i : Fin g.size) : (g.treeWithin limit i).Distinct := by
  induction limit generalizing i with
  | zero => exact .null
  | succ limit ih =>
      refine .obj ?_ fun p hp => ?_
      · rw [Keyed.keys, List.map_map]
        exact g.nodup i
      · obtain ⟨q, -, rfl⟩ := List.mem_map.mp hp
        exact Raw.fill_distinct ih q.2

theorem unfoldObject_distinct (within : Option (ListPlace g.size)) (i : Fin g.size) :
    (g.unfoldObject within i).Distinct := by
  unfold unfoldObject
  split
  · exact .knot _
  · exact treeWithin_distinct g.size i

theorem unfold_distinct (v : RawValue g.size) : (g.unfold v).Distinct :=
  Raw.fill_distinct (unfoldObject_distinct none) v

theorem unfoldItems_distinct {i : Fin g.size} {key : String} {index : Nat}
    {items : List (RawValue g.size)} : ∀ v ∈ g.unfoldItems i key index items, v.Distinct := by
  induction items generalizing index with
  | nil => simp [unfoldItems]
  | cons v rest ih =>
      exact List.forall_mem_cons.mpr ⟨Raw.fill_distinct (unfoldObject_distinct _) v, ih⟩

theorem unfold_arr (items : List (RawValue g.size)) :
    g.unfold (.arr items) = .arr (items.map g.unfold) :=
  congrArg Value.arr (Raw.fillItems_eq _ items)

/-! ## Cycles -/

/-- A member of the first object is the second, or a list with it inside. -/
def Contains (g : RawGraph) (i j : Fin g.size) : Prop := ∃ p ∈ g.members i, j ∈ p.2.refs

instance (i j : Fin g.size) : Decidable (g.Contains i j) :=
  inferInstanceAs (Decidable (∃ p ∈ g.members i, j ∈ p.2.refs))

/-- The object is in the value, at any depth. -/
def Reaches (g : RawGraph) (v : RawValue g.size) (i : Fin g.size) : Prop :=
  ∃ j ∈ v.refs, Relation.ReflTransGen g.Contains j i

/-- No object in the value contains itself, at any depth. -/
def Acyclic (g : RawGraph) (v : RawValue g.size) : Prop :=
  ∀ i, g.Reaches v i → ¬ Relation.TransGen g.Contains i i

theorem Reaches.self (i : Fin g.size) : g.Reaches (.obj i) i :=
  ⟨i, List.mem_singleton_self i, .refl⟩

theorem Reaches.item {v : RawValue g.size} {items : List (RawValue g.size)} {i : Fin g.size}
    (mem : v ∈ items) (h : g.Reaches v i) : g.Reaches (.arr items) i :=
  let ⟨j, mentioned, path⟩ := h
  ⟨j, Raw.mem_refsOf.mpr ⟨v, mem, mentioned⟩, path⟩

theorem Reaches.member {p : String × RawValue g.size} {i j : Fin g.size} (mem : p ∈ g.members i)
    (h : g.Reaches p.2 j) : g.Reaches (.obj i) j :=
  let ⟨_, mentioned, path⟩ := h
  ⟨i, List.mem_singleton_self i, .head ⟨p, mem, mentioned⟩ path⟩

theorem Acyclic.item {items : List (RawValue g.size)} (h : g.Acyclic (.arr items)) :
    ∀ v ∈ items, g.Acyclic v := fun _ mem i hi => h i (hi.item mem)

theorem Acyclic.member {i : Fin g.size} (h : g.Acyclic (.obj i)) :
    ∀ p ∈ g.members i, g.Acyclic p.2 := fun _ mem j hj => h j (hj.member mem)

/-- Where objects contain only later ones, there are no cycles. -/
theorem acyclic_of_forward (h : ∀ i j, g.Contains i j → i < j) (v : RawValue g.size) :
    g.Acyclic v := by
  intro i _ cycle
  have forward : ∀ {i j}, Relation.TransGen g.Contains i j → i < j := fun path =>
    Relation.TransGen.trans_induction_on path (h _ _) fun _ _ => Fin.lt_trans
  exact Fin.lt_irrefl i (forward cycle)

theorem Acyclic.get {i : Fin g.size} (h : g.Acyclic (.obj i)) (k : String) :
    g.Acyclic (g.get i k) := by
  rw [RawGraph.get]
  cases found : Keyed.find? k (g.members i) with
  | none => rintro j ⟨_, mentioned, -⟩; cases mentioned
  | some v => exact h.member _ (Keyed.mem_of_find? found)

/-! ## Finite trees -/

theorem endsWithin_succ {limit : Nat} {i : Fin g.size} : g.endsWithin (limit + 1) i = true ↔
    ∀ j, g.Contains i j → g.endsWithin limit j = true := by
  simp only [endsWithin, List.all_eq_true]
  exact ⟨fun h j ⟨p, mem, hj⟩ => h p mem j hj, fun h p mem j hj => h j ⟨p, mem, hj⟩⟩

theorem Acyclic.object {i j : Fin g.size} (h : g.Acyclic (.obj i)) (inside : g.Contains i j) :
    g.Acyclic (.obj j) := by
  obtain ⟨p, mem, hj⟩ := inside
  rintro k ⟨j', hj', path⟩
  obtain rfl := List.mem_singleton.mp hj'
  exact h.member p mem k ⟨_, hj, path⟩

/-- A walk that enters no object twice comes to an end before the objects do. -/
theorem Acyclic.endsWithin {limit : Nat} {i : Fin g.size} {above : List (Fin g.size)}
    (h : g.Acyclic (.obj i)) (path : ∀ a ∈ above, Relation.TransGen g.Contains a i)
    (enough : unseenFin above ≤ limit) : g.endsWithin limit i = true := by
  have fresh : i ∉ above := fun hi => h i (.self i) (path i hi)
  induction limit generalizing i above with
  | zero => exact absurd (mem_of_unseenFin_le_zero enough i) fresh
  | succ limit ih =>
      refine endsWithin_succ.mpr fun j inside => ?_
      have down : ∀ a ∈ i :: above, Relation.TransGen g.Contains a j :=
        List.forall_mem_cons.mpr ⟨.single inside, fun a ha => (path a ha).tail inside⟩
      have := unseenFin_cons_lt fresh
      exact ih (h.object inside) down (by omega) fun hj => h.object inside j (.self j) (down j hj)

theorem acyclic_of_endsWithin {limit : Nat} {i : Fin g.size} (h : g.endsWithin limit i = true) :
    g.Acyclic (.obj i) := by
  induction limit generalizing i with
  | zero => cases h
  | succ limit ih =>
      have inside j (hj : g.Contains i j) : g.Acyclic (.obj j) := ih (endsWithin_succ.mp h j hj)
      rintro k ⟨i', hi', path⟩ cycle
      obtain rfl := List.mem_singleton.mp hi'
      -- a cycle at the object itself goes through one of those inside
      have below : ∃ j, g.Contains i' j ∧ Relation.ReflTransGen g.Contains j k := by
        rcases path.cases_head with rfl | below
        · exact Relation.TransGen.head'_iff.mp cycle
        · exact below
      obtain ⟨j, hj, path⟩ := below
      exact inside j hj k ⟨j, List.mem_singleton_self j, path⟩ cycle

/-- An object is a finite tree exactly if nothing in it contains itself. -/
theorem ends_iff {i : Fin g.size} : g.ends i = true ↔ g.Acyclic (.obj i) :=
  ⟨acyclic_of_endsWithin, fun h => h.endsWithin (List.forall_mem_nil _) (unseenFin_nil_le _)⟩

/-- What is a finite tree within one limit is the same tree within a higher one. -/
theorem treeWithin_eq {limit limit' : Nat} {i : Fin g.size} (h : g.endsWithin limit i = true)
    (le : limit ≤ limit') : g.treeWithin limit i = g.treeWithin limit' i := by
  induction limit generalizing limit' i with
  | zero => cases h
  | succ limit ih =>
      obtain ⟨limit', rfl⟩ := Nat.exists_eq_add_one_of_ne_zero (show limit' ≠ 0 by omega)
      refine congrArg Value.obj (List.map_congr_left fun p mem => ?_)
      rw [Raw.fill_congr fun j hj =>
        ih (endsWithin_succ.mp h j ⟨p, mem, hj⟩) (Nat.le_of_succ_le_succ le)]

theorem unfoldObject_of_acyclic {within : Option (ListPlace g.size)} {i : Fin g.size}
    (h : g.Acyclic (.obj i)) : g.unfoldObject within i = g.treeWithin g.size i := by
  rw [unfoldObject, dif_neg]
  simp [ends_iff.mpr h]

theorem acyclic_obj_of_mem_refs {v : RawValue g.size} (h : g.Acyclic v) {i : Fin g.size}
    (hi : i ∈ v.refs) : g.Acyclic (.obj i) := by
  rintro j ⟨i', hi', path⟩
  obtain rfl := List.mem_singleton.mp hi'
  exact h j ⟨_, hi, path⟩

/-- Where nothing contains itself, the place of a value does not count. -/
theorem fill_unfoldObject {v : RawValue g.size} (h : g.Acyclic v)
    (within : Option (ListPlace g.size)) : v.fill (g.unfoldObject within) = g.unfold v :=
  Raw.fill_congr fun i hi => by
    rw [unfoldObject_of_acyclic (acyclic_obj_of_mem_refs h hi),
      unfoldObject_of_acyclic (acyclic_obj_of_mem_refs h hi)]

theorem unfoldItems_of_acyclic {items : List (RawValue g.size)} (h : ∀ v ∈ items, g.Acyclic v)
    (i : Fin g.size) (key : String) (index : Nat) :
    g.unfoldItems i key index items = items.map g.unfold := by
  induction items generalizing index with
  | nil => rfl
  | cons v rest ih =>
      obtain ⟨hv, hrest⟩ := List.forall_mem_cons.mp h
      rw [unfoldItems, fill_unfoldObject hv, ih hrest, List.map_cons]

theorem treeWithin_obj {limit : Nat} {i : Fin g.size} (h : g.endsWithin limit i = true)
    (le : limit ≤ g.size) :
    g.treeWithin limit i = .obj ((g.members i).map fun p => (p.1, g.unfold p.2)) := by
  cases limit with
  | zero => cases h
  | succ limit =>
      refine congrArg Value.obj (List.map_congr_left fun p mem => ?_)
      have inside : p.2.fill (g.treeWithin limit) = g.unfold p.2 := Raw.fill_congr fun j hj => by
        have ends := endsWithin_succ.mp h j ⟨p, mem, hj⟩
        rw [unfoldObject_of_acyclic (acyclic_of_endsWithin ends),
          treeWithin_eq ends (Nat.le_of_succ_le le)]
      rw [inside]

/-- An object that does not contain itself unfolds member by member. -/
theorem unfold_obj {i : Fin g.size} (h : g.Acyclic (.obj i)) :
    g.unfold (.obj i) = .obj ((g.members i).map fun p => (p.1, g.unfold p.2)) :=
  (unfoldObject_of_acyclic h).trans (treeWithin_obj (ends_iff.mpr h) (Nat.le_refl _))

theorem exists_unfold_obj {i : Fin g.size} (h : g.Acyclic (.obj i)) :
    ∃ members, g.unfold (.obj i) = .obj members := ⟨_, unfold_obj h⟩

theorem unfoldObject_cases (within : Option (ListPlace g.size)) (i : Fin g.size) :
    (∃ ends, g.unfoldObject within i = .knot ⟨g, i, ends, within⟩) ∨
      ∃ members, g.unfoldObject within i = .obj members := by
  by_cases ends : g.ends i = false
  · exact Or.inl ⟨ends, dif_pos ends⟩
  · have acyclic := ends_iff.mp (Bool.not_eq_false _ ▸ ends)
    exact Or.inr ⟨_, (fill_unfoldObject acyclic within).trans (unfold_obj acyclic)⟩

end RawGraph

end ResourceGraph
