import ResourceGraph.Proofs.Raw.Content
import ResourceGraph.Proofs.Schema.Comparison
import ResourceGraph.Proofs.Schema.Origin

/-!
# Nodes of equal contents

Raw objects of the same content have layouts that are alike, part by part, and so have their nodes.
The values that alike nodes keep are not found to be different, but their comparison may never end.
The required names may be others, where they come from an object.
-/

namespace ResourceGraph

/-! ## Layouts -/

namespace Layout

/-- Layouts of one kind with related parts, whose values are not found to be different. -/
inductive Level {n : Nat} (R : RawValue n → RawValue n → Prop) : Layout n → Layout n → Prop
  | composite (kind : CompositeKind) {bs bs'} (branches : List.Forall₂ R bs bs') :
      Level R (.composite kind bs) (.composite kind bs')
  | enumeration {vs vs' type type'} (values : Value.compareItems vs vs' ≠ .different)
      (typed : type.compare type' ≠ .different) :
      Level R (.enumeration vs type) (.enumeration vs' type')
  | array {items items'} (inside : Option.Rel R items items') :
      Level R (.array items) (.array items')
  | object {ps ps' required required' extra extra' other other'} (properties : Keyed.Agree R ps ps')
      (additional : Option.Rel R extra extra') (rest : other.compare other' ≠ .different) :
      Level R (.object ps required extra other) (.object ps' required' extra' other')
  | scalar {type type' format format'} (typed : type.compare type' ≠ .different)
      (formatted : format.compare format' ≠ .different) :
      Level R (.scalar type format) (.scalar type' format')

variable {g : RawGraph} {i j : Fin g.size}

theorem typeOf_same (same : g.Same (.obj i) (.obj j)) : g.Same (typeOf g i) (typeOf g j) := by
  have rel := same.get "type"
  have level := rel.level
  unfold typeOf
  generalize g.get i "type" = v at rel level ⊢
  generalize g.get j "type" = w at rel level ⊢
  cases level with
  | @arr vs ws items =>
      induction items with
      | nil => exact .of_level .null
      | @cons v w vs ws head _ ih =>
          dsimp only
          rw [List.find?_cons, List.find?_cons, head.isWord "null"]
          cases w.isWord "null" with
          | true => exact ih (.of_level (.arr ‹_›))
          | false => exact head
  | _ => exact rel

theorem propertiesOf_same (same : g.Same (.obj i) (.obj j)) :
    Keyed.Agree g.Same (propertiesOf g i) (propertiesOf g j) := by
  have level := (same.get "properties").level
  unfold propertiesOf
  generalize g.get i "properties" = v at level ⊢
  generalize g.get j "properties" = w at level ⊢
  cases level with
  | obj members => exact members
  | _ => exact fun _ => .none

theorem objectOf_level (same : g.Same (.obj i) (.obj j)) :
    (objectOf g i).Level g.Same (objectOf g j) := by
  have props := propertiesOf_same same
  have rel := same.get "additionalProperties"
  have level := rel.level
  unfold objectOf
  generalize g.get i "additionalProperties" = v at rel level ⊢
  generalize g.get j "additionalProperties" = w at rel level ⊢
  cases level with
  | obj members => exact .object props (.some rel) nofun
  | _ => exact .object props .none (rel.fill none none)

theorem hasKey_same (same : g.Same (.obj i) (.obj j)) (k : String) :
    Keyed.hasKey k (g.members i) = Keyed.hasKey k (g.members j) := by
  cases same.level with
  | obj members =>
      rw [Bool.eq_iff_iff, Keyed.hasKey_iff, Keyed.hasKey_iff]
      exact members.mem_keys k

theorem plainOf_level (same : g.Same (.obj i) (.obj j)) :
    (plainOf g i).Level g.Same (plainOf g j) := by
  have typed := typeOf_same same
  have level := (same.get "enum").level
  unfold plainOf
  dsimp only
  generalize g.get i "enum" = v at level ⊢
  generalize g.get j "enum" = w at level ⊢
  cases level with
  | arr items => exact .enumeration (RawGraph.compare_unfoldItems items) (typed.fill none none)
  | _ =>
      dsimp only
      rw [typed.isWord "array", typed.isWord "object", hasKey_same same]
      split
      · have rel := same.get "items"
        have level := rel.level
        generalize g.get i "items" = v at rel level ⊢
        generalize g.get j "items" = w at rel level ⊢
        cases level with
        | null => exact .array .none
        | _ => exact .array (.some rel)
      · split
        · exact objectOf_level same
        · exact .scalar (typed.fill none none) ((same.get "format").fill none none)

/-- The branches of equal composites. -/
def Branches (g : RawGraph) (p q : CompositeKind × List (RawValue g.size)) : Prop :=
  p.1 = q.1 ∧ List.Forall₂ g.Same p.2 q.2

theorem branches_same {v w : RawValue g.size} (kind : CompositeKind)
    {a b : Option (CompositeKind × List (RawValue g.size))} (rest : Option.Rel (Branches g) a b) :
    g.Level g.Same v w →
    Option.Rel (Branches g) (match v with | .arr (b :: bs) => some (kind, b :: bs) | _ => a)
      (match w with | .arr (b :: bs) => some (kind, b :: bs) | _ => b) := by
  intro level
  cases level with
  | arr items =>
      cases items with
      | nil => exact rest
      | cons head tail => exact .some ⟨rfl, .cons head tail⟩
  | _ => exact rest

theorem alternatives?_same (same : g.Same (.obj i) (.obj j)) :
    Option.Rel (Branches g) (alternatives? g i) (alternatives? g j) :=
  have second := branches_same .oneOf .none (same.get "oneOf").level
  branches_same .anyOf second (same.get "anyOf").level

/-- Raw objects of the same content have layouts that are alike. -/
theorem ofObject_level (same : g.Same (.obj i) (.obj j)) :
    (ofObject g i).Level g.Same (ofObject g j) := by
  have level := (same.get "allOf").level
  have alternatives := alternatives?_same same
  have plain := plainOf_level same
  unfold ofObject
  generalize g.get i "allOf" = v at level ⊢
  generalize g.get j "allOf" = w at level ⊢
  generalize alternatives? g i = a at alternatives ⊢
  generalize alternatives? g j = b at alternatives ⊢
  cases level with
  | arr items => exact .composite .allOf items
  | _ =>
      cases alternatives with
      | none => exact plain
      | @some p q branches =>
          obtain ⟨kind, bs⟩ := p
          obtain ⟨kind', bs'⟩ := q
          obtain ⟨rfl, branches⟩ : kind = kind' ∧ _ := branches
          exact .composite kind branches

end Layout

/-! ## Nodes -/

/-- Nodes of one kind with related nodes below, whose values are not found to be different. -/
inductive Node.Level {n : Nat} (R : Node n → Node n → Prop) : Node n → Node n → Prop
  | composite {id id'} (kind : CompositeKind) {bs bs'} (branches : List.Forall₂ R bs bs') :
      Level R (.composite id kind bs) (.composite id' kind bs')
  | enumeration {id id' vs vs' type type'} (values : Value.compareItems vs vs' ≠ .different)
      (typed : type.compare type' ≠ .different) :
      Level R (.enumeration id vs type) (.enumeration id' vs' type')
  | array {id id' items items'} (inside : Option.Rel R items items') :
      Level R (.array id items) (.array id' items')
  | object {key key' ps ps' required required' extra extra' other other'}
      (properties : Keyed.Agree R ps ps') (additional : Option.Rel R extra extra')
      (rest : other.compare other' ≠ .different) :
      Level R (.object key ps required extra other) (.object key' ps' required' extra' other')
  | scalar {key key' type type' format format'} (typed : type.compare type' ≠ .different)
      (formatted : format.compare format' ≠ .different) :
      Level R (.scalar key type format) (.scalar key' type' format')

theorem Keyed.agree_of_forall₂ {α β : Type} {R : α → β → Prop} {es : Keyed.Entries α}
    {fs : Keyed.Entries β} (h : List.Forall₂ (fun p q => p.1 = q.1 ∧ R p.2 q.2) es fs) :
    Keyed.Agree R es fs := by
  intro k
  induction h with
  | nil => exact .none
  | @cons p q _ _ head _ ih =>
      rw [Keyed.find?_cons, Keyed.find?_cons, head.1]
      split
      · exact .some head.2
      · exact ih

section

variable {n : Nat} {D : RawValue n → Node n → Prop} {R : RawValue n → RawValue n → Prop}

/-- Nodes made for related values. -/
def Made (D : RawValue n → Node n → Prop) (R : RawValue n → RawValue n → Prop) (x y : Node n) :
    Prop := ∃ v w, D v x ∧ D w y ∧ R v w

theorem made_option {v w : Option (RawValue n)} {x y : Option (Node n)} (hx : Option.Rel D v x)
    (hy : Option.Rel D w y) (h : Option.Rel R v w) : Option.Rel (Made D R) x y := by
  cases hx with
  | none =>
      cases h
      cases hy
      exact .none
  | some hx =>
      cases h with
      | some same =>
          cases hy with
          | some hy => exact .some ⟨_, _, hx, hy, same⟩

theorem made_list {vs ws : List (RawValue n)} {xs ys : List (Node n)} (hx : List.Forall₂ D vs xs)
    (hy : List.Forall₂ D ws ys) (h : List.Forall₂ R vs ws) : List.Forall₂ (Made D R) xs ys := by
  have made := forall₂_trans_of_mem (T := fun v y => ∃ w, D w y ∧ R v w) h hy
    fun v _ w _ y _ same hy => ⟨w, hy, same⟩
  exact forall₂_trans_of_mem hx.flip made fun x _ v _ y _ hx ⟨w, hy, same⟩ => ⟨v, w, hx, hy, same⟩

/-- Layouts that are alike have nodes that are alike. -/
theorem Layout.Level.made {i j : Fin n} {l l' : Layout n} {x y : Node n} (h : l.Level R l')
    (hx : l.Makes D i x) (hy : l'.Makes D j y) : x.Level (Made D R) y := by
  cases h with
  | composite kind branches =>
      cases hx with
      | composite _ hx =>
          cases hy with
          | composite _ hy => exact .composite kind (made_list hx hy branches)
  | enumeration values typed =>
      cases hx
      cases hy
      exact .enumeration values typed
  | array inside =>
      cases hx with
      | array hx =>
          cases hy with
          | array hy => exact .array (made_option hx hy inside)
  | object properties additional rest =>
      cases hx with
      | object _ hps _ hextra =>
          cases hy with
          | object _ hqs _ hextra' =>
              refine .object ?_ (made_option hextra hextra' additional) rest
              have hps := (Keyed.agree_of_forall₂ hps).symm_of_mem (Q := flip D)
                fun _ _ _ _ h => h
              have made := properties.trans_of_mem (T := fun v y => ∃ w, D w y ∧ R v w)
                (Keyed.agree_of_forall₂ hqs) fun v _ w _ y _ same hy => ⟨w.2, hy, same⟩
              exact hps.trans_of_mem made fun x _ v _ y _ hx ⟨w, hy, same⟩ => ⟨v.2, w, hx, hy, same⟩
  | scalar typed formatted =>
      cases hx
      cases hy
      exact .scalar typed formatted

end

/-! ## Tables -/

namespace NodeTable

variable {g : RawGraph} {t : NodeTable g.size}

/-- Nodes of raw values of the same content. -/
abbrev Alike (t : NodeTable g.size) (x y : Node g.size) : Prop := Made (t.Denotes []) g.Same x y

theorem deref_of_not_ref {n : Nat} {t : NodeTable n} {x : Node n} (h : ¬ x.IsRef) :
    t.deref x = some x := by
  cases x with
  | ref serial target => exact (h trivial).elim
  | _ => rfl

/-- What alike nodes lead to is alike, level by level. -/
theorem Alike.deref (sound : t.Sound []) (reflects : t.Reflects g []) {x y x' y' : Node g.size}
    (h : t.Alike x y) (hx : t.deref x = some x') (hy : t.deref y = some y') :
    x'.Level t.Alike y' := by
  obtain ⟨v, w, hv, hw, same⟩ := h
  rcases hv.deref sound with ⟨i, x'', rfl, found, leads⟩ | ⟨leaf, k, rfl⟩
  · rcases hw.deref sound with ⟨j, y'', rfl, found', leads'⟩ | ⟨leaf, -⟩
    · cases leads.symm.trans hx
      cases leads'.symm.trans hy
      exact (Layout.ofObject_level same).made (reflects i _ found) (reflects j _ found')
    · cases same.level with
      | obj => exact (leaf _ rfl).elim
  · rcases hw.deref sound with ⟨j, _, rfl, _⟩ | ⟨-, k', rfl⟩
    · cases same.level with
      | obj => exact (leaf _ rfl).elim
    · cases hx
      cases hy
      exact .scalar nofun nofun

end NodeTable

/-! ## When alike nodes are equal -/

namespace Node

variable {n : Nat}

/-- The names that an object requires. -/
def requires : Node n → List String
  | .object _ _ required _ _ => required
  | _ => []

theorem Eqv.requires {x y : Node n} (h : x.Eqv y) : x.requires = y.requires := by
  cases x with
  | object =>
      cases y with
      | object =>
          simp only [Eqv, looseEq, Bool.and_eq_true, beq_iff_eq] at h
          exact h.1.1.2
      | _ => simp [Eqv, looseEq] at h
  | _ =>
      cases y with
      | object => simp [Eqv, looseEq] at h
      | _ => rfl

theorem innerEq_of_compare {v w : Value} (alike : v.compare w ≠ .different)
    (ends : v.compare w ≠ .endless) : v.innerEq w = true := by
  cases found : v.compare w with
  | same => exact (Value.compare_eq_same v w).mp found
  | different => exact absurd found alike
  | endless => exact absurd found ends

/-- Nodes that are alike are equal if they require the same names, all comparisons of what they keep
end, and what is below them is equal. -/
theorem Level.eqv {R : Node n → Node n → Prop} {x y : Node n} (h : x.Level R y) (hx : x.Distinct)
    (hy : y.Distinct) (required : x.requires = y.requires)
    (ends : ∀ v w, x.KeepBeside y v w → v.compare w ≠ .endless)
    (inside : ∀ a b, x.Beside y a b → R a b → a.Eqv b) : x.Eqv y := by
  cases h with
  | @composite id id' kind bs bs' branches =>
      obtain ⟨length, branches⟩ := List.forall₂_iff_zip.mp branches
      rw [Eqv, looseEq, Bool.and_eq_true, looseEqItems_iff, decide_eq_true_eq]
      exact ⟨rfl, List.forall₂_iff_zip.mpr
        ⟨length, fun {a b} mem => inside a b (.branch mem) (branches mem)⟩⟩
  | enumeration values typed =>
      rw [Eqv, looseEq, Bool.and_eq_true]
      refine ⟨(Value.compareItems_eq_same _ _).mp ?_, innerEq_of_compare typed (ends _ _ .enumType)⟩
      cases found : Value.compareItems _ _ with
      | same => rfl
      | different => exact absurd found values
      | endless =>
          obtain ⟨p, mem, endless⟩ := Value.compareItems_endless found
          exact absurd endless (ends _ _ (.value mem))
  | array items =>
      rw [Eqv, looseEq, looseEqOption_iff]
      cases items with
      | none => exact .none
      | some alike => exact .some (inside _ _ .items alike)
  | object properties additional rest =>
      refine (eqv_object hx hy).mpr ⟨fun k => ?_, required, ?_, ?_⟩
      · have rel := properties k
        cases found : Keyed.find? k _ <;> cases found' : Keyed.find? k _ <;>
          rw [found, found'] at rel <;> cases rel
        · exact .none
        · rename_i alike
          exact .some (inside _ _ (.property found found') alike)
      · cases additional with
        | none => exact .none
        | some alike => exact .some (inside _ _ .additional alike)
      · exact innerEq_of_compare rest (ends _ _ .other)
  | scalar typed formatted =>
      rw [Eqv, looseEq, Bool.and_eq_true]
      exact ⟨innerEq_of_compare typed (ends _ _ .type), innerEq_of_compare formatted (ends _ _ .format)⟩

theorem eq_of_looseEq_ref {x y : Node n} (ref : x.IsRef ∨ y.IsRef) (h : x.looseEq y = true) :
    x = y := by
  cases x with
  | ref serial target =>
      cases y with
      | ref serial' target' =>
          simp only [looseEq, Bool.and_eq_true, beq_iff_eq] at h
          rw [h.1, h.2]
      | _ => simp [looseEq] at h
  | _ =>
      cases y with
      | ref serial target => simp [looseEq] at h
      | _ => exact ref.elim False.elim False.elim

theorem looseEq_ref {x : Node n} (ref : x.IsRef) : x.looseEq x = true := by
  cases x with
  | ref serial target => simp [looseEq]
  | _ => cases ref

end Node

end ResourceGraph
