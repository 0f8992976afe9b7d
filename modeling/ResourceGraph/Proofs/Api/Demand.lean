import ResourceGraph.Proofs.Api.Sharing
import ResourceGraph.Proofs.Schema.Equivalence

/-!
# What a compilation asks for

A compilation claims names for sources, and asks again for names that are claimed. What it asks for
is read off the shapes of the nodes: it fails only where the names that it asks for are taken by
other sources. A request that finds its name claimed by an equal source does not go on; everything
that it would have asked for further down was asked for by that source, under the same names.
-/

namespace ResourceGraph

variable {n : Nat}

/-! ## Sources up to equality -/

namespace Node

theorem All.shape {P : Node 1 → Prop} {x : Node n} (h : x.All fun y => P y.shape) :
    x.shape.All P := by
  induction h with
  | @intro x self _ ih =>
      apply All.intro self
      intro y hy
      rw [children_shape] at hy
      obtain ⟨z, hz, rfl⟩ := List.mem_map.mp hy
      exact ih z hz

theorem isProper_shape {x : Node n} : x.shape.IsProper ↔ x.IsProper := by
  cases x <;> simp [IsProper, Distinct, IsLiteral]

end Node

namespace Source

/-- The values and nodes of the source have distinct names. -/
def Proper : Source 1 → Prop
  | .absent => True
  | .literal items => ∀ v ∈ items, v.Distinct
  | .node x => x.All Node.IsProper

variable {s s' s'' : Source 1}

theorem sameShape_self (h : s.Proper) : sameShape s s = true := by
  cases s with
  | absent => rfl
  | literal items => exact Value.looseEqItems_self fun v hv => Value.innerEq_self (h v hv)
  | node x => exact Node.looseEq_self h

theorem sameShape_symm (hs : s.Proper) (hs' : s'.Proper) (h : sameShape s s' = true) :
    sameShape s' s = true := by
  cases s <;> cases s' <;> first | cases h | skip
  · rfl
  · exact Node.literals_symm hs hs' h
  · exact Node.Eqv.symm hs hs' h

theorem sameShape_trans (hs : s.Proper) (hs' : s'.Proper) (hs'' : s''.Proper)
    (h : sameShape s s' = true) (h' : sameShape s' s'' = true) : sameShape s s'' = true := by
  cases s <;> cases s' <;> first | cases h | skip
  · exact h'
  · cases s'' <;> first | cases h' | skip
    exact Node.literals_trans hs hs' hs'' h h'
  · cases s'' <;> first | cases h' | skip
    exact Node.Eqv.trans hs hs' hs'' h h'

/-- A source that stands in the table and is equal to itself. -/
structure Fit (t : NodeTable n) (s : Source n) : Prop where
  stands : s.Stands t
  proper : s.shape.Proper

theorem fit_node {t : NodeTable n} (ht : t.Sound []) {x : Node n} (h : t.Stands x)
    (definable : x.Definable) : Fit t (.node x) := by
  refine ⟨⟨h, definable⟩, Node.All.shape ?_⟩
  have settled := h.yields.settled ht
  cases h.plain with
  | intro self inside =>
      apply Node.All.intro
      · exact Node.isProper_shape.mpr ⟨settled.distinct, self.2⟩
      · intro y hy
        apply ((settled.inside y hy).and (inside y hy)).mono
        intro z hz
        exact Node.isProper_shape.mpr ⟨hz.1.distinct, hz.2.2⟩

theorem fit_text {t : NodeTable n} (kind typeName : String) :
    Fit t (.literal [.str kind, .str typeName]) := by
  refine ⟨trivial, ?_⟩
  intro v hv
  rcases List.mem_pair.mp hv with rfl | rfl <;> exact .str _

theorem Fit.extends {t t' : NodeTable n} (ht : t.Sound []) (hle : t.Extends t') {s : Source n}
    (h : s.Fit t) : s.Fit t' := by
  refine ⟨?_, h.proper⟩
  cases s with
  | node x => exact ⟨h.stands.1.extends ht hle, h.stands.2⟩
  | _ => trivial

theorem Fit.same {t : NodeTable n} (ht : t.Sound []) {s s' : Source n} (hs : s.Fit t)
    (hs' : s'.Fit t) : s.same s' = sameShape s.shape s'.shape :=
  same_shape ht hs.stands hs'.stands

end Source

/-! ## Indexes -/

/-- What each name stands for: the kind of its definition, and the shape of its source. -/
abbrev Index := String → Option (String × Source 1)

def Registry.index (r : Registry n) : Index :=
  fun name => (Keyed.find? name r.sources).map fun s => (s.1, s.2.shape)

namespace Index

/-- The second index has the entries of the first. -/
def Below (I J : Index) : Prop := ∀ name e, I name = some e → J name = some e

/-- The name stands for an equal source. -/
def Supports (I : Index) (kind name : String) (s : Source 1) : Prop :=
  ∃ s', I name = some (kind, s') ∧ s'.sameShape s = true

/-- What an element asks for is there, where `name` is the name of the definition that it may
need. -/
inductive WantsType (I : Index) (name : String) : Option (Node 1) → Prop
  | missing : WantsType I name none
  | array (id items) : WantsType I name (some (.array id items))
  | scalar {key type format scalar}
      (mapped : Node.scalarName (some (.scalar key type format : Node 1)) = .ok scalar) :
      WantsType I name (some (.scalar key type format))
  | emptyEnumeration (id type) : WantsType I name (some (.enumeration id [] type))
  | enumeration {id values type} (legal : name ∉ reservedTypeNames)
      (supports : I.Supports "enum" name (.node (.enumeration id values type))) :
      WantsType I name (some (.enumeration id values type))
  | object {key properties required additional other} (legal : name ∉ reservedTypeNames)
      (supports : I.Supports "type" name
        (.node (.object key properties required additional other))) :
      WantsType I name (some (.object key properties required additional other))

/-- What a property of the type `parent` asks for is there. -/
inductive WantsProperty (I : Index) (parent : String) (p : String × Node 1) : Prop
  | untyped {id} (list : p.2.collapse = some (.array id none))
  | items {id items} (list : p.2.collapse = some (.array id (some items)))
      (wants : I.WantsType (Naming.typeName (Naming.sanitizeFieldName p.1 ++ "Item") parent)
        items.collapse)
  | plain (single : ∀ id items, p.2.collapse ≠ some (.array id items))
      (wants : I.WantsType (Naming.typeName (Naming.sanitizeFieldName p.1) parent) p.2.collapse)

/-- What the properties of a source ask for. -/
def WantsInside (I : Index) (name : String) : Source 1 → Prop
  | .node (.object _ properties _ _ _) => ∀ p ∈ properties, I.WantsProperty name p
  | _ => True

/-- What the sources ask for is there. -/
structure Closed (I : Index) : Prop where
  proper : ∀ name kind s, I name = some (kind, s) → s.Proper
  inside : ∀ name kind s, I name = some (kind, s) → I.WantsInside name s

/-- The type of the element is known, if it is a scalar. -/
def Mapped : Option (Node 1) → Prop
  | some (.scalar key type format) =>
    ∃ type', Node.scalarName (some (.scalar key type format : Node 1)) = .ok type'
  | _ => True

variable {I J : Index}

theorem WantsProperty.mapped {parent : String} {p : String × Node 1}
    (h : I.WantsProperty parent p) : Mapped p.2.collapse := by
  cases h with
  | untyped list => simp [list, Mapped]
  | items list wants => simp [list, Mapped]
  | plain single wants =>
      generalize p.2.collapse = x at wants
      cases wants with
      | scalar mapped => exact ⟨_, mapped⟩
      | _ => trivial

theorem Below.refl (I : Index) : I.Below I := fun _ _ h => h

theorem Below.trans {K : Index} (h : I.Below J) (h' : J.Below K) : I.Below K :=
  fun name e he => h' name e (h name e he)

theorem Supports.mono (h : I.Below J) {kind name : String} {s : Source 1}
    (hs : I.Supports kind name s) : J.Supports kind name s := by
  obtain ⟨s', found, same⟩ := hs
  exact ⟨s', h _ _ found, same⟩

theorem WantsType.mono (h : I.Below J) {name : String} {x : Option (Node 1)}
    (hx : I.WantsType name x) : J.WantsType name x := by
  cases hx with
  | missing => exact .missing
  | array id items => exact .array id items
  | scalar mapped => exact .scalar mapped
  | emptyEnumeration id type => exact .emptyEnumeration id type
  | enumeration legal supports => exact .enumeration legal (supports.mono h)
  | object legal supports => exact .object legal (supports.mono h)

theorem WantsProperty.mono (h : I.Below J) {parent : String} {p : String × Node 1}
    (hp : I.WantsProperty parent p) : J.WantsProperty parent p := by
  cases hp with
  | untyped list => exact .untyped list
  | items list wants => exact .items list (wants.mono h)
  | plain single wants => exact .plain single (wants.mono h)

theorem WantsInside.mono (h : I.Below J) {name : String} {s : Source 1}
    (hs : I.WantsInside name s) : J.WantsInside name s := by
  unfold WantsInside at hs ⊢
  split
  · exact fun p hp => (hs p hp).mono h
  · trivial

/-- A name that supports a source supports the sources that are equal to it. -/
theorem Closed.supports_congr (hI : I.Closed) {kind name : String} {s s' : Source 1}
    (hs : s.Proper) (hs' : s'.Proper) (same : s.sameShape s' = true)
    (h : I.Supports kind name s) : I.Supports kind name s' := by
  obtain ⟨s₀, found, same₀⟩ := h
  exact ⟨s₀, found, Source.sameShape_trans (hI.proper _ _ _ found) hs hs' same₀ same⟩

/-- Equal elements ask for the same. -/
theorem Closed.wantsType_congr (hI : I.Closed) {name : String} {x y : Option (Node 1)}
    (hx : ∀ z, x = some z → z.All Node.IsProper) (hy : ∀ z, y = some z → z.All Node.IsProper)
    (same : Option.Rel Node.Eqv x y) (h : I.WantsType name x) : I.WantsType name y := by
  cases same with
  | none => exact .missing
  | @some x y same =>
      have transfer {kind : String} : I.Supports kind name (.node x) → I.Supports kind name (.node y) :=
        hI.supports_congr (hx x rfl) (hy y rfl) same
      cases h with
      | array id items =>
          cases y with
          | array id' items' => exact .array id' items'
          | _ => simp [Node.Eqv, Node.looseEq] at same
      | scalar mapped =>
          cases y with
          | scalar key' type' format' =>
              simp only [Node.Eqv, Node.looseEq, Bool.and_eq_true] at same
              exact .scalar ((Node.scalarName_congr same.1 same.2).symm.trans mapped)
          | _ => simp [Node.Eqv, Node.looseEq] at same
      | emptyEnumeration id type =>
          cases y with
          | enumeration id' values' type' =>
              simp only [Node.Eqv, Node.looseEq, Bool.and_eq_true] at same
              cases values' with
              | nil => exact .emptyEnumeration id' type'
              | cons v values' => simp [Value.looseEqItems] at same
          | _ => simp [Node.Eqv, Node.looseEq] at same
      | enumeration legal supports =>
          cases y with
          | enumeration id' values' type' => exact .enumeration legal (transfer supports)
          | _ => simp [Node.Eqv, Node.looseEq] at same
      | object legal supports =>
          cases y with
          | object key' properties' required' additional' other' =>
              exact .object legal (transfer supports)
          | _ => simp [Node.Eqv, Node.looseEq] at same

theorem Closed.wantsProperty_congr (hI : I.Closed) {parent : String} {p q : String × Node 1}
    (hp : p.2.All Node.IsProper) (hq : q.2.All Node.IsProper) (named : p.1 = q.1)
    (same : p.2.Eqv q.2) (h : I.WantsProperty parent p) : I.WantsProperty parent q := by
  have resolved := Node.collapse_congr hp hq same
  have proper : ∀ z, p.2.collapse = some z → z.All Node.IsProper :=
    fun z hz => Node.collapse_proper hp hz
  have proper' : ∀ z, q.2.collapse = some z → z.All Node.IsProper :=
    fun z hz => Node.collapse_proper hq hz
  cases h with
  | untyped list =>
      rw [list] at resolved
      generalize hy : q.2.collapse = y at resolved
      cases resolved with
      | @some _ y same =>
          cases y with
          | array id' items' =>
              cases items' with
              | none => exact .untyped hy
              | some items' => simp [Node.Eqv, Node.looseEq, Node.looseEqOption] at same
          | _ => simp [Node.Eqv, Node.looseEq] at same
  | items list wants =>
      rw [list] at resolved
      generalize hy : q.2.collapse = y at resolved
      cases resolved with
      | @some _ y same =>
          cases y with
          | array id' items' =>
              cases items' with
              | none => simp [Node.Eqv, Node.looseEq, Node.looseEqOption] at same
              | some items' =>
                  simp only [Node.Eqv, Node.looseEq, Node.looseEqOption] at same
                  have hitems := (proper _ list).items
                  have hitems' := (proper' _ hy).items
                  apply WantsProperty.items hy
                  rw [← named]
                  exact hI.wantsType_congr (fun z hz => Node.collapse_proper hitems hz)
                    (fun z hz => Node.collapse_proper hitems' hz)
                    (Node.collapse_congr hitems hitems' same) wants
          | _ => simp [Node.Eqv, Node.looseEq] at same
  | plain single wants =>
      apply WantsProperty.plain
      · intro id' items' hy
        rw [hy] at resolved
        generalize hx : p.2.collapse = x at resolved
        cases resolved with
        | @some x _ same =>
            cases x with
            | array id items => exact single id items hx
            | _ => simp [Node.Eqv, Node.looseEq] at same
      · rw [← named]
        exact hI.wantsType_congr proper proper' resolved wants

/-- Where a source is supported, what it asks for is there: an equal source asked for it. -/
theorem Closed.inside_of_supports (hI : I.Closed) {kind name : String} {s : Source 1}
    (hs : s.Proper) (h : I.Supports kind name s) : I.WantsInside name s := by
  obtain ⟨s₀, found, same⟩ := h
  have proper := hI.proper _ _ _ found
  have inside := hI.inside _ _ _ found
  cases s with
  | node x =>
      cases x with
      | object key properties required additional other =>
          cases s₀ with
          | node x₀ =>
              cases x₀ with
              | object key₀ properties₀ required₀ additional₀ other₀ =>
                  obtain ⟨props, -⟩ := (Node.eqv_object proper.self.1 hs.self.1).mp same
                  intro q hq
                  obtain ⟨y, hy, same⟩ :=
                    props.of_find?_right (Keyed.find?_of_mem hs.self.1 hq)
                  have hp := Keyed.mem_of_find? hy
                  exact hI.wantsProperty_congr (proper.property _ hp) (hs.property q hq) rfl same
                    (inside _ hp)
              | _ => simp [Source.sameShape, Node.looseEq] at same
          | _ => cases same
      | _ => trivial
  | _ => trivial

end Index

end ResourceGraph
