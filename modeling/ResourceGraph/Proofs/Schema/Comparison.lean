import Mathlib.Data.List.Zip
import ResourceGraph.Proofs.Schema.Equivalence
import ResourceGraph.Proofs.Schema.Shape

/-!
# Comparisons of nodes that never end

If a comparison of two nodes never ends, then one of two parts that are beside each other does not:
of values that the nodes keep, or of nodes inside them. So nodes that are equal are found to be, in
whichever order they are compared.
-/

namespace ResourceGraph

/-! ## Values -/

namespace Value

mutual

/-- The comparison of equal values ends, also when they change places. -/
theorem compare_back_ne_endless : (v w : Value) → v.innerEq w = true → w.compare v ≠ .endless
  | .arr vs, w, same => by
      obtain ⟨ws, rfl, items⟩ := innerEq_arr.mp same
      rw [compare_arr, if_pos items.length_eq.symm]
      exact compareItems_back_ne_endless vs ws (looseEqItems_iff.mpr items)
  | .knot k, w, same => by
      obtain ⟨l, rfl, found⟩ := innerEq_knot.mp same
      rw [compare_knot, Knot.compare_symm found]
      nofun
  | .null, w, same | .bool _, w, same | .int _, w, same | .double _, w, same | .str _, w, same
  | .obj _, w, same => by
      cases w with
      | arr | knot => simp [innerEq, looseEq, numeric?, isNaN] at same
      | _ => exact Verdict.ofBool_ne_endless _

theorem compareItems_back_ne_endless : (vs ws : List Value) → looseEqItems vs ws = true →
    compareItems ws vs ≠ .endless
  | [], [], _ => nofun
  | v :: vs, w :: ws, same => by
      rw [looseEqItems_cons, Bool.and_eq_true] at same
      rw [compareItems, Ne, Verdict.and_eq_endless, not_or, not_and]
      exact ⟨compare_back_ne_endless v w same.1,
        fun _ => compareItems_back_ne_endless vs ws same.2⟩

end

theorem compareItems_endless {vs ws : List Value} (h : compareItems vs ws = .endless) :
    ∃ p ∈ vs.zip ws, p.1.compare p.2 = .endless := by
  induction vs generalizing ws with
  | nil => exact absurd h (Verdict.ofBool_ne_endless _)
  | cons v vs ih =>
      cases ws with
      | nil => cases h
      | cons w ws =>
          rcases Verdict.and_eq_endless.mp h with h | ⟨-, h⟩
          · exact ⟨(v, w), List.mem_cons_self .., h⟩
          · obtain ⟨p, mem, h⟩ := ih h
            exact ⟨p, List.mem_cons_of_mem _ mem, h⟩

end Value

namespace Node

variable {n : Nat}

/-! ## What is beside each other -/

/-- The second two nodes are in one place of the first two. -/
inductive Beside : Node n → Node n → Node n → Node n → Prop
  | items {id id' x y} : Beside (.array id (some x)) (.array id' (some y)) x y
  | branch {id id' kind kind' bs bs' x y} (mem : (x, y) ∈ bs.zip bs') :
      Beside (.composite id kind bs) (.composite id' kind' bs') x y
  | property {key key' ps ps' required required' extra extra' other other' name x y}
      (found : Keyed.find? name ps = some x) (found' : Keyed.find? name ps' = some y) :
      Beside (.object key ps required extra other) (.object key' ps' required' extra' other') x y
  | additional {key key' ps ps' required required' x y other other'} :
      Beside (.object key ps required (some x) other) (.object key' ps' required' (some y) other')
        x y

/-- The nodes keep the values in one place. -/
inductive KeepBeside : Node n → Node n → Value → Value → Prop
  | type {key key' type type' format format'} :
      KeepBeside (.scalar key type format) (.scalar key' type' format') type type'
  | format {key key' type type' format format'} :
      KeepBeside (.scalar key type format) (.scalar key' type' format') format format'
  | value {id id' vs vs' type type' v w} (mem : (v, w) ∈ vs.zip vs') :
      KeepBeside (.enumeration id vs type) (.enumeration id' vs' type') v w
  | enumType {id id' vs vs' type type'} :
      KeepBeside (.enumeration id vs type) (.enumeration id' vs' type') type type'
  | other {key key' ps ps' required required' extra extra' other other'} :
      KeepBeside (.object key ps required extra other) (.object key' ps' required' extra' other')
        other other'

theorem Beside.mem {x y a b : Node n} (h : x.Beside y a b) : a ∈ x.children ∧ b ∈ y.children := by
  cases h with
  | items => exact ⟨List.mem_singleton_self a, List.mem_singleton_self b⟩
  | branch mem => exact List.of_mem_zip mem
  | property found found' =>
      exact ⟨List.mem_append_left _ (List.mem_map_of_mem (Keyed.mem_of_find? found)),
        List.mem_append_left _ (List.mem_map_of_mem (Keyed.mem_of_find? found'))⟩
  | additional =>
      exact ⟨List.mem_append_right _ (List.mem_singleton_self a),
        List.mem_append_right _ (List.mem_singleton_self b)⟩

theorem Beside.eqv {x y a b : Node n} (h : x.Beside y a b) (same : x.Eqv y) : a.Eqv b := by
  cases h with
  | items => rwa [Eqv, looseEq, looseEqOption] at same
  | branch mem =>
      rw [Eqv, looseEq, Bool.and_eq_true, looseEqItems_iff] at same
      exact (List.forall₂_iff_zip.mp same.2).2 mem
  | property found found' =>
      simp only [Eqv, looseEq, Bool.and_eq_true, looseEqMembers_iff] at same
      obtain ⟨b', found, equal⟩ := same.1.1.1.2 _ (Keyed.mem_of_find? found)
      cases found'.symm.trans found
      exact equal
  | additional =>
      simp only [Eqv, looseEq, Bool.and_eq_true, looseEqOption] at same
      exact same.1.2

theorem KeepBeside.innerEq {x y : Node n} {v w : Value} (h : x.KeepBeside y v w)
    (same : x.Eqv y) : v.innerEq w = true := by
  cases h with
  | type | format =>
      rw [Eqv, looseEq, Bool.and_eq_true] at same
      first | exact same.1 | exact same.2
  | value mem =>
      rw [Eqv, looseEq, Bool.and_eq_true, Value.looseEqItems_iff] at same
      exact (List.forall₂_iff_zip.mp same.1).2 mem
  | enumType =>
      rw [Eqv, looseEq, Bool.and_eq_true] at same
      exact same.2
  | other =>
      simp only [Eqv, looseEq, Bool.and_eq_true] at same
      exact same.2

/-! ## Endless comparisons -/

theorem comparers_eq (flipped : Bool) (ps : List (String × Node n)) :
    comparers flipped ps = Keyed.mapEntries (compare flipped) ps := by
  induction ps with
  | nil => rfl
  | cons p ps ih => rw [comparers, ih, Keyed.mapEntries_cons]

theorem compareNamed_endless {flipped : Bool} {ps qs : List (String × Node n)} {names : List String}
    (h : compareNamed (comparers flipped ps) qs names = .endless) :
    ∃ name x y, Keyed.find? name ps = some x ∧ Keyed.find? name qs = some y ∧
      compare flipped x y = .endless := by
  rw [comparers_eq] at h
  induction names with
  | nil => cases h
  | cons name names ih =>
      rw [compareNamed, Keyed.find?_mapEntries] at h
      cases hx : Keyed.find? name ps with
      | none => rw [hx] at h; cases h
      | some x =>
          cases hy : Keyed.find? name qs with
          | none => rw [hx, hy] at h; cases h
          | some y =>
              rw [hx, hy] at h
              rcases Verdict.and_eq_endless.mp h with h | ⟨-, h⟩
              · exact ⟨name, x, y, hx, hy, h⟩
              · exact ih h

theorem compareItems_endless {flipped : Bool} {xs ys : List (Node n)}
    (h : compareItems flipped xs ys = .endless) :
    ∃ p ∈ xs.zip ys, compare flipped p.1 p.2 = .endless := by
  induction xs generalizing ys with
  | nil => exact absurd h (Verdict.ofBool_ne_endless _)
  | cons x xs ih =>
      cases ys with
      | nil => cases h
      | cons y ys =>
          rcases Verdict.and_eq_endless.mp h with h | ⟨-, h⟩
          · exact ⟨(x, y), List.mem_cons_self .., h⟩
          · obtain ⟨p, mem, h⟩ := ih h
            exact ⟨p, List.mem_cons_of_mem _ mem, h⟩

theorem compareOption_endless {flipped : Bool} {x y : Option (Node n)}
    (h : compareOption flipped x y = .endless) :
    ∃ a b, x = some a ∧ y = some b ∧ compare flipped a b = .endless := by
  cases x with
  | none => exact absurd h (Verdict.ofBool_ne_endless _)
  | some a =>
      cases y with
      | none => cases h
      | some b => exact ⟨a, b, rfl, rfl, h⟩

theorem compareKeptItems_endless {flipped : Bool} {vs ws : List Value}
    (h : compareKeptItems flipped vs ws = .endless) :
    ∃ p ∈ vs.zip ws, compareKept flipped p.1 p.2 = .endless := by
  cases flipped with
  | false => exact Value.compareItems_endless h
  | true =>
      obtain ⟨⟨w, v⟩, mem, h⟩ := Value.compareItems_endless h
      refine ⟨(v, w), ?_, h⟩
      rw [← List.zip_swap]
      exact List.mem_map_of_mem mem

/-- A comparison that never ends is stuck at two values, or at two nodes, that are beside each
other. -/
theorem compare_endless {flipped : Bool} {x y : Node n} (h : compare flipped x y = .endless) :
    (∃ v w, x.KeepBeside y v w ∧ compareKept flipped v w = .endless) ∨
      ∃ flipped' a b, x.Beside y a b ∧ compare flipped' a b = .endless := by
  cases x with
  | scalar key type format =>
      cases y with
      | scalar key' type' format' =>
          rcases Verdict.and_eq_endless.mp h with h | ⟨-, h⟩
          · exact Or.inl ⟨_, _, .type, h⟩
          · exact Or.inl ⟨_, _, .format, h⟩
      | _ => cases h
  | enumeration id values type =>
      cases y with
      | enumeration id' values' type' =>
          rcases Verdict.and_eq_endless.mp h with h | ⟨-, h⟩
          · obtain ⟨p, mem, h⟩ := compareKeptItems_endless h
            exact Or.inl ⟨_, _, .value mem, h⟩
          · exact Or.inl ⟨_, _, .enumType, h⟩
      | _ => cases h
  | array id items =>
      cases y with
      | array id' items' =>
          obtain ⟨a, b, rfl, rfl, h⟩ := compareOption_endless h
          exact Or.inr ⟨_, a, b, .items, h⟩
      | _ => cases h
  | composite id kind branches =>
      cases y with
      | composite id' kind' branches' =>
          rcases Verdict.and_eq_endless.mp h with h | ⟨-, h⟩
          · exact absurd h (Verdict.ofBool_ne_endless _)
          · obtain ⟨p, mem, h⟩ := compareItems_endless h
            exact Or.inr ⟨_, _, _, .branch mem, h⟩
      | _ => cases h
  | object key properties required additional other =>
      cases y with
      | object key' properties' required' additional' other' =>
          rcases Verdict.and_eq_endless.mp h with h | ⟨-, h⟩
          · exact absurd h (Verdict.ofBool_ne_endless _)
          · rcases Verdict.and_eq_endless.mp h with h | ⟨-, h⟩
            · obtain ⟨name, a, b, found, found', h⟩ := compareNamed_endless h
              exact Or.inr ⟨_, a, b, .property found found', h⟩
            · rcases Verdict.and_eq_endless.mp h with h | ⟨-, h⟩
              · exact absurd h (Verdict.ofBool_ne_endless _)
              · rcases Verdict.and_eq_endless.mp h with h | ⟨-, h⟩
                · obtain ⟨a, b, rfl, rfl, h⟩ := compareOption_endless h
                  exact Or.inr ⟨_, a, b, .additional, h⟩
                · exact Or.inl ⟨_, _, .other, h⟩
      | _ => cases h
  | ref serial target =>
      cases y with
      | ref serial' target' => exact absurd h (Verdict.ofBool_ne_endless _)
      | _ => cases h

theorem all_true (x : Node n) : x.All fun _ => True :=
  .intro trivial fun y _ => all_true y
termination_by sizeOf x
decreasing_by exact sizeOf_child_lt ‹_›

/-- The comparison of equal nodes ends. -/
theorem compare_ne_endless {x y : Node n} (same : x.Eqv y) (flipped : Bool) :
    compare flipped x y ≠ .endless := by
  intro endless
  induction all_true x generalizing y flipped with
  | intro _ _ ih =>
      rcases compare_endless endless with ⟨v, w, kept, endless⟩ | ⟨flipped, a, b, beside, endless⟩
      · have equal := kept.innerEq same
        cases flipped with
        | false =>
            cases endless.symm.trans ((Value.compare_eq_same v w).mpr equal)
        | true => exact Value.compare_back_ne_endless v w equal endless
      · exact ih a beside.mem.1 (beside.eqv same) flipped endless

/-- The values that a node keeps itself. -/
def keptValues : Node n → List Value
  | .scalar _ type format => [type, format]
  | .enumeration _ values type => type :: values
  | .object _ _ _ _ other => [other]
  | _ => []

theorem KeepBeside.mem {x y : Node n} {v w : Value} (h : x.KeepBeside y v w) :
    v ∈ x.keptValues ∧ w ∈ y.keptValues := by
  cases h with
  | value mem =>
      have mems := List.of_mem_zip mem
      exact ⟨List.mem_cons_of_mem _ mems.1, List.mem_cons_of_mem _ mems.2⟩
  | _ => simp [keptValues]

/-- A comparison that never ends is, somewhere inside, one of two kept values that never ends. -/
theorem exists_kept_endless {P Q : Node n → Prop} {x y : Node n} {flipped : Bool} (hx : x.All P)
    (hy : y.All Q) (endless : compare flipped x y = .endless) :
    ∃ a b, P a ∧ Q b ∧ ∃ v ∈ a.keptValues, ∃ w ∈ b.keptValues,
      ∃ flipped', compareKept flipped' v w = .endless := by
  induction hx generalizing y flipped with
  | @intro x self inside ih =>
      rcases compare_endless endless with ⟨v, w, kept, endless⟩ | ⟨flipped, a, b, beside, endless⟩
      · exact ⟨x, y, self, hy.self, v, kept.mem.1, w, kept.mem.2, _, endless⟩
      · exact ih a beside.mem.1 (hy.inside b beside.mem.2) endless

/-! ## Equality -/

theorem compareKept_eq_same {flipped : Bool} {v w : Value} (hv : v.Distinct) (hw : w.Distinct) :
    compareKept flipped v w = .same ↔ v.innerEq w = true := by
  cases flipped with
  | false => exact Value.compare_eq_same v w
  | true =>
      exact (Value.compare_eq_same w v).trans ⟨Value.innerEq_symm hw hv, Value.innerEq_symm hv hw⟩

theorem compareKeptItems_eq_same {flipped : Bool} {vs ws : List Value} (hv : ∀ v ∈ vs, v.Distinct)
    (hw : ∀ w ∈ ws, w.Distinct) :
    compareKeptItems flipped vs ws = .same ↔ Value.looseEqItems vs ws = true := by
  cases flipped with
  | false => exact Value.compareItems_eq_same vs ws
  | true =>
      exact (Value.compareItems_eq_same ws vs).trans ⟨literals_symm hw hv, literals_symm hv hw⟩

theorem compareItems_eq_same {flipped : Bool} {xs ys : List (Node n)}
    (h : ∀ x ∈ xs, ∀ y ∈ ys, (compare flipped x y = .same ↔ x.Eqv y)) :
    compareItems flipped xs ys = .same ↔ List.Forall₂ Eqv xs ys := by
  induction xs generalizing ys with
  | nil => cases ys <;> simp [compareItems]
  | cons x xs ih =>
      cases ys with
      | nil => simp [compareItems]
      | cons y ys =>
          rw [compareItems, Verdict.and_eq_same, List.forall₂_cons,
            h x (List.mem_cons_self ..) y (List.mem_cons_self ..),
            ih fun a ha b hb => h a (List.mem_cons_of_mem _ ha) b (List.mem_cons_of_mem _ hb)]

theorem compareOption_eq_same {flipped : Bool} {x y : Option (Node n)}
    (h : ∀ a ∈ x.toList, ∀ b ∈ y.toList, (compare flipped a b = .same ↔ a.Eqv b)) :
    compareOption flipped x y = .same ↔ Option.Rel Eqv x y := by
  cases x with
  | none => cases y <;> simp [compareOption]
  | some a =>
      cases y with
      | none => simp [compareOption]
      | some b =>
          rw [compareOption, Option.rel_some_some]
          exact h a (List.mem_singleton_self a) b (List.mem_singleton_self b)

theorem compareNamed_eq_same {flipped : Bool} {ps qs : List (String × Node n)}
    {names : List String} : compareNamed (comparers flipped ps) qs names = .same ↔
      ∀ name ∈ names, ∃ x y, Keyed.find? name ps = some x ∧ Keyed.find? name qs = some y ∧
        compare flipped x y = .same := by
  rw [comparers_eq]
  induction names with
  | nil => simp [compareNamed]
  | cons name names ih =>
      rw [compareNamed, Keyed.find?_mapEntries, List.forall_mem_cons, ← ih]
      cases Keyed.find? name ps <;> cases Keyed.find? name qs <;> simp

/-- The properties of either object may be gone through. -/
theorem compareProperties_eq_same (flipped : Bool) {flipped' : Bool}
    {ps qs : List (String × Node n)} (nodup : (Keyed.keys ps).Nodup)
    (nodup' : (Keyed.keys qs).Nodup)
    (h : ∀ p ∈ ps, ∀ q ∈ qs, (compare flipped' p.2 q.2 = .same ↔ p.2.Eqv q.2)) :
    (ps.length = qs.length ∧ compareNamed (comparers flipped' ps) qs
        (Keyed.keys (if flipped then qs else ps)) = .same) ↔ Keyed.Agree Eqv ps qs := by
  rw [compareNamed_eq_same]
  constructor
  · rintro ⟨length, found⟩
    cases flipped with
    | false =>
        refine (Keyed.agree_iff nodup nodup').mpr ⟨length, fun p hp => ?_⟩
        obtain ⟨x, y, hx, hy, same⟩ := found p.1 (List.mem_map_of_mem hp)
        cases hx.symm.trans (Keyed.find?_of_mem nodup hp)
        exact ⟨y, hy, (h p hp (p.1, y) (Keyed.mem_of_find? hy)).mp same⟩
    | true =>
        have back : Keyed.Agree (fun y x => x.Eqv y) qs ps := by
          refine (Keyed.agree_iff nodup' nodup).mpr ⟨length.symm, fun q hq => ?_⟩
          obtain ⟨x, y, hx, hy, same⟩ := found q.1 (List.mem_map_of_mem hq)
          cases hy.symm.trans (Keyed.find?_of_mem nodup' hq)
          exact ⟨x, hx, (h (q.1, x) (Keyed.mem_of_find? hx) q hq).mp same⟩
        exact back.symm_of_mem fun _ _ _ _ same => same
  · intro agree
    refine ⟨((Keyed.agree_iff nodup nodup').mp agree).1, fun name mem => ?_⟩
    have mem : name ∈ Keyed.keys ps := by
      cases flipped with
      | false => exact mem
      | true => exact (agree.mem_keys name).mpr mem
    obtain ⟨x, hx⟩ := Keyed.exists_of_mem_keys mem
    obtain ⟨y, hy, same⟩ := agree.of_find? hx
    exact ⟨x, y, hx, hy,
      (h (name, x) (Keyed.mem_of_find? hx) (name, y) (Keyed.mem_of_find? hy)).mpr same⟩

/-- The comparison finds exactly equal nodes to be the same. -/
theorem compare_eq_same {x y : Node n} (hx : x.All IsProper) (hy : y.All IsProper)
    (flipped : Bool) : compare flipped x y = .same ↔ x.Eqv y := by
  induction hx generalizing y flipped with
  | @intro x self inside ih =>
      cases x with
      | scalar key type format =>
          cases y with
          | scalar key' type' format' =>
              rw [compare, Verdict.and_eq_same, compareKept_eq_same self.2.1 hy.self.2.1,
                compareKept_eq_same self.2.2 hy.self.2.2, Eqv, looseEq, Bool.and_eq_true]
          | _ => simp [compare, looseEq]
      | enumeration id values type =>
          cases y with
          | enumeration id' values' type' =>
              rw [compare, Verdict.and_eq_same, compareKeptItems_eq_same self.2.1 hy.self.2.1,
                compareKept_eq_same self.2.2 hy.self.2.2, Eqv, looseEq, Bool.and_eq_true]
          | _ => simp [compare, looseEq]
      | array id items =>
          cases y with
          | array id' items' =>
              rw [compare, Eqv, looseEq, looseEqOption_iff]
              exact compareOption_eq_same fun a ha b hb => ih a ha (hy.inside b hb) flipped
          | _ => simp [compare, looseEq]
      | composite id kind branches =>
          cases y with
          | composite id' kind' branches' =>
              have items : compareItems flipped branches branches' = .same ↔
                  List.Forall₂ Eqv branches branches' :=
                compareItems_eq_same fun a ha b hb => ih a ha (hy.branch b hb) flipped
              rw [compare, Verdict.and_eq_same, Verdict.ofBool_eq_same, Eqv, looseEq,
                Bool.and_eq_true, looseEqItems_iff, items]
          | _ => simp [compare, looseEq]
      | object key properties required additional other =>
          cases y with
          | object key' properties' required' additional' other' =>
              have props := compareProperties_eq_same flipped self.1 hy.self.1 fun p hp q hq =>
                ih p.2 (List.mem_append_left _ (List.mem_map_of_mem hp)) (hy.property q hq) !flipped
              have extra : compareOption flipped additional additional' = .same ↔
                  Option.Rel Eqv additional additional' := compareOption_eq_same fun a ha b hb =>
                ih a (List.mem_append_right _ ha) (hy.extra b hb) flipped
              have rest : compareKept flipped other other' = .same ↔ other.innerEq other' = true :=
                compareKept_eq_same self.2 hy.self.2
              rw [eqv_object self.1 hy.self.1, ← props, ← extra, ← rest]
              simp only [compare, Verdict.and_eq_same, Verdict.ofBool_eq_same, beq_iff_eq, and_assoc]
          | _ => simp [compare, looseEq]
      | ref serial target =>
          cases y with
          | ref serial' target' => rw [compare, Verdict.ofBool_eq_same, Eqv, looseEq]
          | _ => simp [compare, looseEq]

theorem compareOnce_eq_same {x y : Node n} (hx : x.All IsProper) (hy : y.All IsProper) :
    x.compareOnce y = .same ↔ x.sameOrEqual y = true := by
  rw [compareOnce, sameOrEqual, Bool.or_eq_true, decide_eq_true_eq]
  split
  · rename_i same
    exact iff_of_true rfl (Or.inl same)
  · rename_i differ
    rw [compare_eq_same hx hy false, or_iff_right differ]

/-! ## Shapes -/

theorem compareItems_shape {flipped : Bool} {xs : List (Node n)}
    (h : ∀ x ∈ xs, ∀ y : Node n, compare flipped x.shape y.shape = compare flipped x y)
    (ys : List (Node n)) :
    compareItems flipped (xs.map shape) (ys.map shape) = compareItems flipped xs ys := by
  induction xs generalizing ys with
  | nil => cases ys <;> rfl
  | cons x xs ih =>
      obtain ⟨head, rest⟩ := List.forall_mem_cons.mp h
      cases ys with
      | nil => rfl
      | cons y ys =>
          rw [List.map_cons, List.map_cons, compareItems, compareItems, head y, ih rest ys]

theorem compareOption_shape {flipped : Bool} {x : Option (Node n)}
    (h : ∀ a ∈ x.toList, ∀ y : Node n, compare flipped a.shape y.shape = compare flipped a y)
    (y : Option (Node n)) :
    compareOption flipped (x.map shape) (y.map shape) = compareOption flipped x y := by
  cases x with
  | none => cases y <;> rfl
  | some a =>
      cases y with
      | none => rfl
      | some b => exact h a (List.mem_singleton_self a) b

theorem compareNamed_shape {flipped : Bool} {ps : List (String × Node n)}
    (h : ∀ p ∈ ps, ∀ y : Node n, compare flipped p.2.shape y.shape = compare flipped p.2 y)
    (qs : List (String × Node n)) (names : List String) :
    compareNamed (comparers flipped (Keyed.mapEntries shape ps)) (Keyed.mapEntries shape qs) names
      = compareNamed (comparers flipped ps) qs names := by
  rw [comparers_eq, comparers_eq]
  induction names with
  | nil => rfl
  | cons name names ih =>
      rw [compareNamed, compareNamed, ih]
      simp only [Keyed.find?_mapEntries]
      cases hx : Keyed.find? name ps with
      | none => rfl
      | some x =>
          cases Keyed.find? name qs with
          | none => rfl
          | some y =>
              simp only [Option.map_some]
              rw [h (name, x) (Keyed.mem_of_find? hx) y]

/-- The comparison does not ask where nodes come from, unless they are references. -/
theorem compare_shape {x : Node n} (hx : x.All IsPlain) (flipped : Bool) (y : Node n) :
    compare flipped x.shape y.shape = compare flipped x y := by
  induction hx generalizing flipped y with
  | @intro x plain inside ih =>
      cases x with
      | ref serial target => exact absurd trivial plain.1
      | scalar key type format => cases y <;> simp [compare]
      | enumeration id values type => cases y <;> simp [compare]
      | array id items =>
          cases y with
          | array id' items' =>
              simp only [shape_array, compare]
              exact compareOption_shape (fun a ha y => ih a ha flipped y) items'
          | _ => simp [compare]
      | composite id kind branches =>
          cases y with
          | composite id' kind' branches' =>
              simp only [shape_composite, compare]
              have inner : ∀ x ∈ branches, ∀ y : Node n,
                  compare flipped x.shape y.shape = compare flipped x y :=
                fun x hx y => ih x hx flipped y
              rw [compareItems_shape inner]
          | _ => simp [compare]
      | object key properties required additional other =>
          cases y with
          | object key' properties' required' additional' other' =>
              simp only [shape_object, compare, Keyed.length_mapEntries]
              rw [compareNamed_shape fun p hp y => ih p.2
                  (List.mem_append_left _ (List.mem_map_of_mem hp)) (!flipped) y,
                compareOption_shape fun a ha y => ih a (List.mem_append_right _ ha) flipped y]
              cases flipped <;> simp
          | _ => simp [compare]

end Node

namespace NodeTable

variable {n : Nat} {t : NodeTable n}

/-- Whether a comparison ends is a matter of shape. -/
theorem compareOnce_shape (ht : t.Sound []) {x y : Node n} (hx : t.Yields x) (hy : t.Yields y)
    (plain : x.All Node.IsPlain) (definable : x.Definable) :
    x.compareOnce y = .endless ↔ Node.compare false x.shape y.shape = .endless := by
  rw [Node.compare_shape plain, Node.compareOnce]
  split
  · rename_i same
    have equal := looseEq_of_identity ht hx hy plain definable same
    exact iff_of_false nofun (Node.compare_ne_endless equal false)
  · rfl

end NodeTable

end ResourceGraph
