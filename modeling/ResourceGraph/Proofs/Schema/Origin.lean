import ResourceGraph.Proofs.Schema.Equivalence
import ResourceGraph.Proofs.Schema.Readable

/-!
# What a node is for

Every node inside a table is the node of some raw value, and so is every property of an object that
branches are merged to. A raw value means for what its node resolves to.
-/

namespace ResourceGraph

/-- What is below a node is the node of something below the layout of the node. -/
theorem Layout.Makes.child {n : Nat} {D : RawValue n → Node n → Prop} {i : Fin n} {l : Layout n}
    {x : Node n} (h : l.Makes D i x) {y : Node n} (mem : y ∈ x.children) :
    ∃ v ∈ l.parts, D v y := by
  cases h with
  | composite kind branches => exact exists_of_forall₂_right branches mem
  | enumeration | scalar => cases mem
  | array items =>
      cases items with
      | none => cases mem
      | some hy => exact ⟨_, List.mem_singleton_self _, List.mem_singleton.mp mem ▸ hy⟩
  | object other properties required additional =>
      rcases List.mem_append.mp mem with mem | mem
      · obtain ⟨q, hq, rfl⟩ := List.mem_map.mp mem
        obtain ⟨p, hp, -, hd⟩ := exists_of_forall₂_right properties hq
        exact ⟨p.2, List.mem_append_left _ (List.mem_map_of_mem hp), hd⟩
      · cases additional with
        | none => cases mem
        | some hy =>
            exact ⟨_, List.mem_append_right _ (List.mem_singleton_self _),
              List.mem_singleton.mp mem ▸ hy⟩

namespace Layout

/-- The values of a layout have distinct names. -/
def IsLiteral {n : Nat} : Layout n → Prop
  | .enumeration values type => (∀ v ∈ values, v.Distinct) ∧ type.Distinct
  | .object _ _ _ other => other.Distinct
  | .scalar type format => type.Distinct ∧ format.Distinct
  | _ => True

theorem ofObject_literal {g : RawGraph} (i : Fin g.size) : (ofObject g i).IsLiteral := by
  unfold ofObject
  split
  · trivial
  · split
    · trivial
    · unfold plainOf
      dsimp only
      split
      · exact ⟨g.unfoldItems_distinct, g.unfold_distinct _⟩
      · split
        · split <;> trivial
        · split
          · unfold objectOf
            split
            · exact .null
            · exact g.unfold_distinct _
          · exact ⟨g.unfold_distinct _, g.unfold_distinct _⟩

theorem Makes.literal {n : Nat} {D : RawValue n → Node n → Prop} {i : Fin n} {l : Layout n}
    {x : Node n} (h : l.Makes D i x) (literal : l.IsLiteral) : x.IsLiteral := by
  cases h with
  | composite | array => trivial
  | enumeration | object | scalar => exact literal

end Layout

namespace NodeTable

section

variable {n : Nat} (t : NodeTable n)

/-- The node of some raw value. -/
def Denoted (x : Node n) : Prop := ∃ raw, t.Denotes [] raw x

/-- What the node of the raw value resolves to. -/
def Means (raw : RawValue n) (x : Node n) : Prop :=
  ∃ z, t.Denotes [] raw z ∧ t.resolve z = some x

end

variable {g : RawGraph} {t t' : NodeTable g.size}

theorem Denotes.known (sound : t.Sound []) {raw : RawValue g.size} {x : Node g.size}
    (h : t.Denotes [] raw x) : x.All (t.Knows []) := by
  cases h with
  | found h => exact (sound _ _ h).2
  | back serial h => exact .intro h (by simp [Node.children])
  | leaf h serial => exact .intro ⟨nofun, trivial, trivial⟩ (by simp [Node.children])

theorem closed_denoted (sound : t.Sound []) (reflects : t.Reflects g []) : t.Closed t.Denoted where
  deref := by
    rintro x y ⟨raw, h⟩ is
    rcases h.deref sound with ⟨i, z, rfl, found, leads⟩ | ⟨leaf, k, rfl⟩
    · cases leads.symm.trans is
      exact ⟨_, .found found⟩
    · cases is
      exact ⟨_, h⟩
  inside := by
    rintro x y ⟨raw, h⟩ mem
    cases h with
    | found h =>
        obtain ⟨v, -, hv⟩ := (reflects _ _ h).child mem
        exact ⟨v, hv⟩
    | back => cases mem
    | leaf => cases mem

theorem Means.yields (sound : t.Sound []) {raw : RawValue g.size} {x : Node g.size}
    (h : t.Means raw x) : t.Yields x :=
  let ⟨z, denotes, resolved⟩ := h
  ⟨z, denotes.known sound, resolved⟩

theorem Means.extends (sound : t.Sound []) (hle : t.Extends t') {raw : RawValue g.size}
    {x : Node g.size} (h : t.Means raw x) : t'.Means raw x :=
  let ⟨z, denotes, resolved⟩ := h
  ⟨z, denotes.mono hle, (resolve_extends sound hle (denotes.known sound)).trans resolved⟩

/-- What a raw value means for has the nodes of raw values inside. -/
theorem Means.inside (sound : t.Sound []) (reflects : t.Reflects g []) {raw : RawValue g.size}
    {x : Node g.size} (h : t.Means raw x) : ∀ y ∈ x.children, t.Denoted y := by
  obtain ⟨z, denotes, resolved⟩ := h
  have closed := closed_denoted sound reflects
  rcases closed.resolve ⟨raw, denotes⟩ resolved with own | ⟨c, properties, required, rfl, inside⟩
  · exact fun y => closed.inside own
  · intro y mem
    obtain ⟨p, hp, rfl⟩ : ∃ p ∈ properties, p.2 = y := by simpa [Node.children] using mem
    exact inside p hp

theorem Means.items (sound : t.Sound []) (reflects : t.Reflects g []) {raw : RawValue g.size}
    {i : Fin g.size} {items : Node g.size} (h : t.Means raw (.array i (some items))) :
    t.Denoted items :=
  h.inside sound reflects items (List.mem_singleton_self _)

theorem Means.property (sound : t.Sound []) (reflects : t.Reflects g []) {raw : RawValue g.size}
    {key : ObjectKey g.size} {properties : List (String × Node g.size)} {required : List String}
    {additional : Option (Node g.size)} {other : Value}
    (h : t.Means raw (.object key properties required additional other)) :
    ∀ p ∈ properties, t.Denoted p.2 := fun _ hp =>
  h.inside sound reflects _ (List.mem_append_left _ (List.mem_map_of_mem hp))

/-- A scalar is that of an object with such a layout, or there is no object. -/
theorem Means.scalar (sound : t.Sound []) (reflects : t.Reflects g []) {raw : RawValue g.size}
    {key : ScalarKey g.size} {type format : Value} (h : t.Means raw (.scalar key type format)) :
    (∃ i x, t.find? i = some x ∧ Layout.ofObject g i = .scalar type format) ∨
      type = .null ∧ format = .null := by
  obtain ⟨z, denotes, resolved⟩ := h
  have closed := closed_denoted sound reflects
  rcases closed.resolve ⟨raw, denotes⟩ resolved with own | ⟨_, _, _, made, -⟩
  · obtain ⟨raw, own⟩ := own
    cases own with
    | @found i x found =>
        have made := reflects _ _ found
        generalize hl : Layout.ofObject g i = l at made
        cases made
        exact Or.inl ⟨i, _, found, hl⟩
    | leaf => exact Or.inr ⟨rfl, rfl⟩
  · cases made

/-! ## Proper values -/

theorem Closed.all {n : Nat} {t : NodeTable n} {P : Node n → Prop} (closed : t.Closed P)
    {x : Node n} (hx : P x) : x.All P :=
  .intro hx fun y mem =>
    have := Node.sizeOf_child_lt mem
    closed.all (closed.inside hx mem)
termination_by sizeOf x

theorem Denoted.literal (reflects : t.Reflects g []) {x : Node g.size} (h : t.Denoted x) :
    x.IsLiteral := by
  obtain ⟨raw, h⟩ := h
  cases h with
  | @found i _ h => exact (reflects i _ h).literal (Layout.ofObject_literal i)
  | back => trivial
  | leaf => exact ⟨.null, .null⟩

/-- A requested node has distinct properties and proper values all through. -/
theorem Means.proper (sound : t.Sound []) (reflects : t.Reflects g []) {raw : RawValue g.size}
    {x : Node g.size} (h : t.Means raw x) : x.All Node.IsProper := by
  have closed := closed_denoted sound reflects
  have proper {y : Node g.size} (hy : t.Denoted y) : y.All Node.IsProper := by
    obtain ⟨v, denotes⟩ := id hy
    exact ((denotes.known sound).and (closed.all hy)).mono fun z hz =>
      ⟨hz.1.distinct, hz.2.literal reflects⟩
  have distinct := ((h.yields sound).settled sound).distinct
  obtain ⟨z, denotes, resolved⟩ := h
  rcases closed.resolve ⟨raw, denotes⟩ resolved with own | ⟨c, properties, required, rfl, inside⟩
  · exact proper own
  · refine .intro ⟨distinct, .null⟩ fun y mem => ?_
    obtain ⟨p, hp, rfl⟩ : ∃ p ∈ properties, p.2 = y := by simpa [Node.children] using mem
    exact proper (inside p hp)

end NodeTable

end ResourceGraph
