import ResourceGraph.Proofs.Schema.Sketch
import ResourceGraph.Proofs.Value.Equivalence

/-!
# Equal contents

Two raw values have the same content if they are the same JSON to every depth, wherever their
objects are kept and in whatever order these have their members. No comparison finds such values to
be different; it finds them to be the same or never ends. Without cycles, values of the same content
unfold to equal trees.
-/

namespace ResourceGraph

section

variable {α β : Type} {R : Nat → α → β → Prop}

theorem optionRel_forall {a : Option α} {b : Option β} (h : ∀ d, Option.Rel (R d) a b) :
    Option.Rel (fun a b => ∀ d, R d a b) a b := by
  cases h 0 with
  | none => exact .none
  | some _ =>
      refine .some fun d => ?_
      cases h d with
      | some same => exact same

theorem forall₂_forall {as : List α} {bs : List β} (h : ∀ d, List.Forall₂ (R d) as bs) :
    List.Forall₂ (fun a b => ∀ d, R d a b) as bs := by
  induction as generalizing bs with
  | nil =>
      cases h 0
      exact .nil
  | cons a as ih =>
      cases bs with
      | nil => cases h 0
      | cons b bs =>
          have split d := List.forall₂_cons.mp (h d)
          exact .cons (fun d => (split d).1) (ih fun d => (split d).2)

theorem forall₂_imp_of_mem {P Q : α → β → Prop} {as : List α} {bs : List β}
    (h : List.Forall₂ P as bs) (hQ : ∀ a ∈ as, ∀ b ∈ bs, P a b → Q a b) :
    List.Forall₂ Q as bs :=
  (forall₂_symm_of_mem (Q := flip Q) h hQ).flip

end

namespace RawGraph

variable {g : RawGraph} {R : RawValue g.size → RawValue g.size → Prop}

/-- The same value, with related items or members: the members of objects are told by name. -/
inductive Level (g : RawGraph) (R : RawValue g.size → RawValue g.size → Prop) :
    RawValue g.size → RawValue g.size → Prop
  | null : Level g R .null .null
  | bool (b : Bool) : Level g R (.bool b) (.bool b)
  | int (n : Int) : Level g R (.int n) (.int n)
  | double (x : Double) : Level g R (.double x) (.double x)
  | str (s : String) : Level g R (.str s) (.str s)
  | arr {vs ws : List (RawValue g.size)} (items : List.Forall₂ R vs ws) :
      Level g R (.arr vs) (.arr ws)
  | obj {i j : Fin g.size} (members : Keyed.Agree R (g.members i) (g.members j)) :
      Level g R (.obj i) (.obj j)

theorem Level.refl (h : ∀ v, R v v) (v : RawValue g.size) : g.Level R v v := by
  cases v with
  | null => exact .null
  | bool b => exact .bool b
  | int n => exact .int n
  | double x => exact .double x
  | str s => exact .str s
  | arr vs => exact .arr (List.forall₂_same.mpr fun v _ => h v)
  | obj i =>
      refine .obj fun k => ?_
      cases Keyed.find? k (g.members i) with
      | none => exact .none
      | some v => exact .some (h v)

/-- The same content down to a depth. -/
def SameTo (g : RawGraph) : Nat → RawValue g.size → RawValue g.size → Prop
  | 0, _, _ => True
  | depth + 1, v, w => g.Level (g.SameTo depth) v w

/-- The same content at every depth. -/
def Same (g : RawGraph) (v w : RawValue g.size) : Prop := ∀ depth, g.SameTo depth v w

theorem Same.level {v w : RawValue g.size} (h : g.Same v w) : g.Level g.Same v w := by
  have levels depth : g.Level (g.SameTo depth) v w := h (depth + 1)
  cases levels 0 with
  | null => exact .null
  | bool b => exact .bool b
  | int n => exact .int n
  | double x => exact .double x
  | str s => exact .str s
  | arr _ =>
      refine .arr (forall₂_forall fun depth => ?_)
      cases levels depth with
      | arr items => exact items
  | obj _ =>
      refine .obj fun k => optionRel_forall fun depth => ?_
      cases levels depth with
      | obj members => exact members k

theorem Same.of_level {v w : RawValue g.size} (h : g.Level g.Same v w) : g.Same v w := by
  rintro (- | depth)
  · trivial
  · cases h with
    | null => exact .null
    | bool b => exact .bool b
    | int n => exact .int n
    | double x => exact .double x
    | str s => exact .str s
    | arr items => exact .arr (items.imp fun _ _ same => same depth)
    | obj members => exact .obj fun k => optionRel_mono (fun _ _ same => same depth) (members k)

/-- A relation between values of which each level is the same is one of values of the same
content. -/
theorem Same.of_forall_level {v w : RawValue g.size} (levels : ∀ v w, R v w → g.Level R v w)
    (h : R v w) : g.Same v w := by
  intro depth
  induction depth generalizing v w with
  | zero => trivial
  | succ depth ih =>
      cases levels v w h with
      | null => exact .null
      | bool b => exact .bool b
      | int n => exact .int n
      | double x => exact .double x
      | str s => exact .str s
      | arr items => exact .arr (items.imp fun _ _ same => ih same)
      | obj members => exact .obj fun k => optionRel_mono (fun _ _ same => ih same) (members k)

theorem Same.get {i j : Fin g.size} (h : g.Same (.obj i) (.obj j)) (k : String) :
    g.Same (g.get i k) (g.get j k) := by
  cases h.level with
  | obj members =>
      have rel := members k
      unfold RawGraph.get
      generalize Keyed.find? k (g.members i) = a at rel ⊢
      generalize Keyed.find? k (g.members j) = b at rel ⊢
      cases rel with
      | none => exact .of_level .null
      | some same => exact same

theorem Same.isWord {v w : RawValue g.size} (h : g.Same v w) (s : String) :
    v.isWord s = w.isWord s := by
  cases h.level <;> rfl

/-- Without cycles inside, the same content unfolds to equal trees. -/
theorem Same.unfold {v w : RawValue g.size} (h : g.Same v w) (hv : g.Acyclic v)
    (hw : g.Acyclic w) : (g.unfold v).innerEq (g.unfold w) = true := by
  induction size : sizeOf (g.unfold v) using Nat.strongRecOn generalizing v w with
  | _ k ih =>
      cases h.level with
      | null | bool | int | double | str => exact Value.innerEq_self (g.unfold_distinct _)
      | @arr vs ws items =>
          rw [g.unfold_arr] at size
          rw [g.unfold_arr, g.unfold_arr]
          refine Value.innerEq_arr.mpr ⟨_, rfl, ?_⟩
          rw [List.forall₂_map_left_iff, List.forall₂_map_right_iff]
          refine forall₂_imp_of_mem items fun v mem w mem' same => ?_
          have smaller := (Value.inside_arr (List.mem_map_of_mem (f := g.unfold) mem)).smaller
          exact ih _ (size ▸ smaller) same (hv.item v mem) (hw.item w mem') rfl
      | @obj i j members =>
          have unfolded (i : Fin g.size) (acyclic : g.Acyclic (.obj i)) :
              g.unfold (.obj i) = .obj (Keyed.mapEntries g.unfold (g.members i)) :=
            g.unfold_obj acyclic
          have distinct (i : Fin g.size) :
              (Keyed.keys (Keyed.mapEntries g.unfold (g.members i))).Nodup := by
            rw [Keyed.keys_mapEntries]
            exact g.nodup i
          rw [unfolded i hv] at size
          refine unfolded i hv ▸ (Value.innerEq_obj (distinct i) (g.unfold_distinct _)).mpr
            ⟨_, unfolded j hw, fun k => ?_⟩
          have rel := members k
          rw [Keyed.find?_mapEntries, Keyed.find?_mapEntries]
          cases hi : Keyed.find? k (g.members i) <;> cases hj : Keyed.find? k (g.members j) <;>
            rw [hi, hj] at rel <;> cases rel
          · exact .none
          · rename_i v w same
            have mem := Keyed.mem_of_find? hi
            have inside : (g.unfold v).Inside (.obj (Keyed.mapEntries g.unfold (g.members i))) :=
              Value.inside_obj (List.mem_map_of_mem (f := fun p => (p.1, g.unfold p.2)) mem)
            have smaller := inside.smaller
            exact .some (ih _ (size ▸ smaller) same (hv.member _ mem)
              (hw.member _ (Keyed.mem_of_find? hj)) rfl)

/-! ## Cycles in equal contents -/

theorem Level.flip {v w : RawValue g.size} (h : g.Level R v w) : g.Level (flip R) w v := by
  cases h with
  | null => exact .null
  | bool b => exact .bool b
  | int n => exact .int n
  | double x => exact .double x
  | str s => exact .str s
  | arr items => exact .arr items.flip
  | obj members => exact .obj (members.symm_of_mem fun _ _ _ _ => id)

theorem Same.symm {v w : RawValue g.size} (h : g.Same v w) : g.Same w v :=
  .of_forall_level (R := flip g.Same) (fun _ _ same => Level.flip (Same.level same)) h

mutual

theorem Same.exists_ref : {v w : RawValue g.size} → g.Same v w → ∀ i ∈ v.refs,
    ∃ j ∈ w.refs, g.Same (.obj i) (.obj j)
  | .arr vs, w, same, i, hi => by
      cases same.level with
      | arr items => exact exists_refOf items i hi
  | .obj i, w, same, i', hi => by
      obtain rfl := List.mem_singleton.mp hi
      cases same.level with
      | @obj _ j _ => exact ⟨j, List.mem_singleton_self j, same⟩

theorem exists_refOf : {vs ws : List (RawValue g.size)} → List.Forall₂ g.Same vs ws →
    ∀ i ∈ Raw.refsOf vs, ∃ j ∈ Raw.refsOf ws, g.Same (.obj i) (.obj j)
  | _ :: _, _ :: _, .cons head tail, i, hi => by
      rcases List.mem_append.mp hi with hi | hi
      · obtain ⟨j, hj, same⟩ := Same.exists_ref head i hi
        exact ⟨j, List.mem_append_left _ hj, same⟩
      · obtain ⟨j, hj, same⟩ := exists_refOf tail i hi
        exact ⟨j, List.mem_append_right _ hj, same⟩

end

theorem Same.endsWithin {limit : Nat} {i j : Fin g.size} (h : g.Same (.obj i) (.obj j))
    (ends : g.endsWithin limit i = true) : g.endsWithin limit j = true := by
  induction limit generalizing i j with
  | zero => cases ends
  | succ limit ih =>
      refine endsWithin_succ.mpr fun b ⟨q, mem, hb⟩ => ?_
      cases h.level with
      | obj members =>
          obtain ⟨v, hv, same⟩ := members.of_find?_right (Keyed.find?_of_mem (g.nodup j) mem)
          obtain ⟨a, ha, same⟩ := same.symm.exists_ref b hb
          exact ih same.symm (endsWithin_succ.mp ends a ⟨(q.1, v), Keyed.mem_of_find? hv, ha⟩)

/-- Of two objects of the same content, both are finite trees or neither is. -/
theorem Same.ends {i j : Fin g.size} (h : g.Same (.obj i) (.obj j)) : g.ends i = g.ends j :=
  Bool.eq_iff_iff.mpr ⟨h.endsWithin, h.symm.endsWithin⟩

/-! ## Comparison of equal contents -/

mutual

theorem Same.compare {f : Fin g.size → Fin g.size → Verdict}
    (h : ∀ i j, g.Same (.obj i) (.obj j) → f i j ≠ .different) : {v w : RawValue g.size} →
    g.Same v w → v.compare f w ≠ .different
  | .arr vs, w, same => by
      cases same.level with
      | arr items =>
          rw [Raw.compare_arr, if_pos items.length_eq]
          exact compareItems_of_same h items
  | .obj i, w, same => by
      cases same.level with
      | obj => exact h _ _ same
  | .null, w, same | .bool _, w, same | .int _, w, same | .double _, w, same
  | .str _, w, same => by
      cases same.level
      rw [(Raw.compare_scalar_eq_same rfl).mpr ⟨_, rfl, Value.equal_refl rfl⟩]
      nofun

theorem compareItems_of_same {f : Fin g.size → Fin g.size → Verdict}
    (h : ∀ i j, g.Same (.obj i) (.obj j) → f i j ≠ .different) :
    {vs ws : List (RawValue g.size)} → List.Forall₂ g.Same vs ws →
    Raw.compareItems f vs ws ≠ .different
  | [], [], .nil => nofun
  | _ :: _, _ :: _, .cons head tail => by
      rw [Raw.compareItems, Ne, Verdict.and_eq_different, not_or, not_and]
      exact ⟨Same.compare h head, fun _ => compareItems_of_same h tail⟩

end

theorem compareMembers_ne_different {f : Fin g.size → Fin g.size → Verdict}
    {ms ns : List (String × RawValue g.size)}
    (h : ∀ p ∈ ms, ∃ w, Keyed.find? p.1 ns = some w ∧ w.compare f p.2 ≠ .different) :
    Raw.compareMembers f ms ns ≠ .different := by
  induction ms with
  | nil => nofun
  | cons p ms ih =>
      obtain ⟨⟨w, found, head⟩, rest⟩ := List.forall_mem_cons.mp h
      rw [Raw.compareMembers, found]
      dsimp only
      rw [Ne, Verdict.and_eq_different, not_or, not_and]
      exact ⟨head, fun _ => ih rest⟩

theorem Same.compareWithin {i j : Fin g.size} (h : g.Same (.obj i) (.obj j)) (limit : Nat) :
    g.compareWithin limit i j ≠ .different := by
  induction limit generalizing i j with
  | zero =>
      rw [RawGraph.compareWithin]
      split <;> simp
  | succ limit ih =>
      cases h.level with
      | obj members =>
          have agree := (Keyed.agree_iff (g.nodup i) (g.nodup j)).mp members
          rw [RawGraph.compareWithin]
          split
          · simp
          · refine (if_pos agree.1).trans_ne (compareMembers_ne_different fun p hp => ?_)
            obtain ⟨w, found, same⟩ := agree.2 p hp
            exact ⟨w, found, same.symm.compare fun _ _ same => ih same⟩

/-! ## What equal contents unfold to -/

/-- The comparison of what two objects unfold to finds no difference if they have the same content. -/
theorem Same.unfoldObject {i j : Fin g.size} (h : g.Same (.obj i) (.obj j))
    (p q : Option (ListPlace g.size)) :
    (g.unfoldObject p i).compare (g.unfoldObject q j) ≠ .different := by
  cases ends : g.ends i with
  | true =>
      have left := ends_iff.mp ends
      have right := ends_iff.mp (h.ends ▸ ends)
      have equal := h.unfold left right
      rw [← fill_unfoldObject left p, ← fill_unfoldObject right q] at equal
      exact Value.compare_ne_different equal
  | false =>
      rw [RawGraph.unfoldObject, dif_pos ends, RawGraph.unfoldObject, dif_pos (h.ends ▸ ends),
        Value.compare_knot, Knot.compare_of_graph]
      exact h.compareWithin _

mutual

theorem Same.fill (p q : Option (ListPlace g.size)) : {v w : RawValue g.size} → g.Same v w →
    (v.fill (g.unfoldObject p)).compare (w.fill (g.unfoldObject q)) ≠ .different
  | .arr vs, w, same => by
      cases same.level with
      | @arr _ ws items =>
          show (Value.arr _).compare (Value.arr _) ≠ _
          rw [Value.compare_arr, if_pos]
          · exact compareItems_fill p q items
          · rw [Raw.fillItems_eq, Raw.fillItems_eq, List.length_map, List.length_map,
              items.length_eq]
  | .obj i, w, same => by
      cases same.level with
      | obj => exact same.unfoldObject p q
  | .null, w, same | .bool _, w, same | .int _, w, same | .double _, w, same
  | .str _, w, same => by
      cases same.level
      exact Value.compare_ne_different (Value.innerEq_self (by constructor))

theorem compareItems_fill (p q : Option (ListPlace g.size)) : {vs ws : List (RawValue g.size)} →
    List.Forall₂ g.Same vs ws → Value.compareItems (Raw.fillItems (g.unfoldObject p) vs)
      (Raw.fillItems (g.unfoldObject q) ws) ≠ .different
  | [], [], .nil => nofun
  | _ :: _, _ :: _, .cons head tail => by
      rw [Raw.fillItems, Raw.fillItems, Value.compareItems, Ne, Verdict.and_eq_different, not_or,
        not_and]
      exact ⟨Same.fill p q head, fun _ => compareItems_fill p q tail⟩

end

theorem compare_unfoldItems {i j : Fin g.size} {key key' : String} {index index' : Nat}
    {vs ws : List (RawValue g.size)} (h : List.Forall₂ g.Same vs ws) :
    Value.compareItems (g.unfoldItems i key index vs) (g.unfoldItems j key' index' ws)
      ≠ .different := by
  induction h generalizing index index' with
  | nil => nofun
  | cons head _ ih =>
      rw [unfoldItems, unfoldItems, Value.compareItems, Ne, Verdict.and_eq_different, not_or, not_and]
      exact ⟨head.fill _ _, fun _ => ih⟩

end RawGraph

/-! ## Endless comparisons -/

/-- The two values contain objects whose comparison never ends. -/
def RawGraph.Endless (g : RawGraph) (v w : RawValue g.size) : Prop :=
  ∃ i ∈ v.refs, ∃ j ∈ w.refs, g.compare i j = .endless

namespace RawGraph

variable {g : RawGraph}

/-- Only with a knot can the comparison of what an object unfolds to be endless. -/
theorem compare_unfoldObject {p : Option (ListPlace g.size)} {i : Fin g.size} {w : Value}
    (h : (g.unfoldObject p i).compare w = .endless) :
    ∃ ends k, w = .knot k ∧ (Knot.mk g i ends p).compare k = .endless := by
  rcases g.unfoldObject_cases p i with ⟨ends, knot⟩ | ⟨members, tree⟩
  · rw [knot] at h
    cases w with
    | knot k => exact ⟨ends, k, rfl, h⟩
    | _ => cases h
  · rw [tree] at h
    exact absurd h (Verdict.ofBool_ne_endless _)

theorem endless_of_unfoldObject {p q : Option (ListPlace g.size)} {i j : Fin g.size}
    (h : (g.unfoldObject p i).compare (g.unfoldObject q j) = .endless) :
    g.compare i j = .endless := by
  obtain ⟨ends, k, other, endless⟩ := compare_unfoldObject h
  rcases g.unfoldObject_cases q j with ⟨ends', knot⟩ | ⟨members, tree⟩
  · cases other.symm.trans knot
    rwa [Knot.compare_of_graph] at endless
  · cases other.symm.trans tree

mutual

theorem endless_of_fill (p q : Option (ListPlace g.size)) : (v w : RawValue g.size) →
    (v.fill (g.unfoldObject p)).compare (w.fill (g.unfoldObject q)) = .endless → g.Endless v w
  | .arr vs, w, h => by
      cases w with
      | arr ws =>
          change (Value.arr _).compare (Value.arr _) = _ at h
          rw [Value.compare_arr] at h
          split at h
          · exact endless_of_fillItems p q vs ws h
          · cases h
      | obj j =>
          change (Value.arr _).compare (g.unfoldObject q j) = _ at h
          rcases unfoldObject_cases q j with ⟨k, hj⟩ | ⟨members, hj⟩ <;> rw [hj] at h <;> cases h
      | _ => cases h
  | .obj i, w, h => by
      cases w with
      | obj j =>
          exact ⟨i, List.mem_singleton_self i, j, List.mem_singleton_self j,
            endless_of_unfoldObject h⟩
      | _ =>
          obtain ⟨_, k, knot, -⟩ := compare_unfoldObject h
          cases knot
  | .null, w, h | .bool _, w, h | .int _, w, h | .double _, w, h | .str _, w, h =>
      absurd h (Verdict.ofBool_ne_endless _)

theorem endless_of_fillItems (p q : Option (ListPlace g.size)) : (vs ws : List (RawValue g.size)) →
    Value.compareItems (Raw.fillItems (g.unfoldObject p) vs)
      (Raw.fillItems (g.unfoldObject q) ws) = .endless → g.Endless (.arr vs) (.arr ws)
  | [], ws, h => absurd h (Verdict.ofBool_ne_endless _)
  | v :: vs, w :: ws, h => by
      rcases Verdict.and_eq_endless.mp h with h | ⟨-, h⟩
      · obtain ⟨i, hi, j, hj, endless⟩ := endless_of_fill p q v w h
        exact ⟨i, List.mem_append_left _ hi, j, List.mem_append_left _ hj, endless⟩
      · obtain ⟨i, hi, j, hj, endless⟩ := endless_of_fillItems p q vs ws h
        exact ⟨i, List.mem_append_right _ hi, j, List.mem_append_right _ hj, endless⟩

end

end RawGraph

end ResourceGraph
