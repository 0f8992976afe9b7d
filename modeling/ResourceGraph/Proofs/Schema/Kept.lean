import ResourceGraph.Proofs.Raw.Content
import ResourceGraph.Proofs.Schema.Comparison
import ResourceGraph.Proofs.Schema.Origin

/-!
# What nodes keep of their objects

The values that a node keeps are what the keywords of an object unfold to. So where the comparison of
two nodes never ends, there are two objects under such keywords whose comparison exceeds every limit.
-/

namespace ResourceGraph

namespace Layout

/-- The values of an object that its node keeps. -/
def kept (g : RawGraph) (i : Fin g.size) : List (RawValue g.size) :=
  [g.get i "type", g.get i "format", g.get i "enum", g.get i "additionalProperties"]

/-- The values in a layout. -/
def values {n : Nat} : Layout n → List Value
  | .enumeration values type => type :: values
  | .object _ _ _ other => [other]
  | .scalar type format => [type, format]
  | _ => []

theorem Makes.keptValues {n : Nat} {D : RawValue n → Node n → Prop} {i : Fin n} {l : Layout n}
    {x : Node n} (h : l.Makes D i x) : x.keptValues = l.values := by
  cases h <;> rfl

theorem refs_typeOf {g : RawGraph} {i a : Fin g.size} (h : a ∈ (typeOf g i).refs) :
    a ∈ (g.get i "type").refs := by
  unfold typeOf at h
  split at h
  · rename_i candidates hc
    rw [hc]
    cases found : candidates.find? fun c => !c.isWord "null" with
    | none => rw [found] at h; cases h
    | some v =>
        rw [found] at h
        exact Raw.mem_refsOf.mpr ⟨v, List.mem_of_find?_eq_some found, h⟩
  · exact h

end Layout

namespace RawGraph

variable {g : RawGraph} {i : Fin g.size}

/-- The second object is a value that the node of the first one keeps, or an item of it. -/
def Keeps (g : RawGraph) (i a : Fin g.size) : Prop := ∃ v ∈ Layout.kept g i, a ∈ v.refs

/-- The value is unfolded, and the objects in it are of a kind. -/
def Unfolds (g : RawGraph) (P : Fin g.size → Prop) (v : Value) : Prop :=
  ∃ w p, v = Raw.fill (g.unfoldObject p) w ∧ ∀ a ∈ w.refs, P a

theorem Unfolds.null {P : Fin g.size → Prop} : g.Unfolds P .null := ⟨.null, none, rfl, nofun⟩

theorem Unfolds.mono {P Q : Fin g.size → Prop} {v : Value} (h : g.Unfolds P v)
    (hPQ : ∀ a, P a → Q a) : g.Unfolds Q v :=
  let ⟨w, p, unfolds, inside⟩ := h
  ⟨w, p, unfolds, fun a ha => hPQ a (inside a ha)⟩

/-- The comparison of two unfolded values is endless only for two objects in them. -/
theorem Unfolds.endless {P Q : Fin g.size → Prop} {v w : Value} (hv : g.Unfolds P v)
    (hw : g.Unfolds Q w) (h : v.compare w = .endless) : ∃ a b, P a ∧ Q b ∧ g.compare a b = .endless := by
  obtain ⟨v, p, rfl, left⟩ := hv
  obtain ⟨w, q, rfl, right⟩ := hw
  obtain ⟨a, ha, b, hb, endless⟩ := endless_of_fill p q v w h
  exact ⟨a, b, left a ha, right b hb, endless⟩

theorem unfolds_keyword {k : String} (h : g.get i k ∈ Layout.kept g i) :
    g.Unfolds (g.Keeps i) (g.unfold (g.get i k)) :=
  ⟨_, none, rfl, fun _ ha => ⟨_, h, ha⟩⟩

theorem unfolds_type : g.Unfolds (g.Keeps i) (g.unfold (Layout.typeOf g i)) :=
  ⟨_, none, rfl, fun _ ha => ⟨_, by simp [Layout.kept], Layout.refs_typeOf ha⟩⟩

theorem unfolds_items {j : Fin g.size} {k : String} {index : Nat} {P : Fin g.size → Prop}
    {items : List (RawValue g.size)} (h : ∀ a ∈ Raw.refsOf items, P a) :
    ∀ v ∈ g.unfoldItems j k index items, g.Unfolds P v := by
  induction items generalizing index with
  | nil => simp [unfoldItems]
  | cons v rest ih =>
      refine List.forall_mem_cons.mpr ⟨⟨v, _, rfl, fun a ha => h a (List.mem_append_left _ ha)⟩, ?_⟩
      exact ih fun a ha => h a (List.mem_append_right _ ha)

end RawGraph

/-- The values in the layout of an object are what its keywords unfold to. -/
theorem Layout.ofObject_values {g : RawGraph} {i : Fin g.size} :
    ∀ v ∈ (ofObject g i).values, g.Unfolds (g.Keeps i) v := by
  unfold ofObject
  split
  · nofun
  · split
    · nofun
    · unfold plainOf
      dsimp only
      split
      · rename_i items enum
        refine List.forall_mem_cons.mpr ⟨g.unfolds_type, g.unfolds_items fun a ha => ?_⟩
        exact ⟨g.get i "enum", by simp [kept], enum ▸ ha⟩
      · split
        · split <;> nofun
        · split
          · unfold objectOf
            split
            · exact List.forall_mem_singleton.mpr .null
            · exact List.forall_mem_singleton.mpr (g.unfolds_keyword (by simp [kept]))
          · refine List.forall_mem_cons.mpr ⟨g.unfolds_type, List.forall_mem_singleton.mpr ?_⟩
            exact g.unfolds_keyword (by simp [kept])

namespace NodeTable

variable {g : RawGraph} {t : NodeTable g.size}

/-- The object is kept by the node of an object that has been read. -/
def Keeps (t : NodeTable g.size) (a : Fin g.size) : Prop :=
  ∃ i x, t.find? i = some x ∧ g.Keeps i a

theorem Denoted.keptValues (reflects : t.Reflects g []) {x : Node g.size} (h : t.Denoted x) :
    ∀ v ∈ x.keptValues, g.Unfolds t.Keeps v := by
  obtain ⟨raw, h⟩ := h
  cases h with
  | @found i _ found =>
      rw [(reflects i _ found).keptValues]
      exact fun v mem => (Layout.ofObject_values v mem).mono fun a keeps => ⟨i, x, found, keeps⟩
  | back => nofun
  | leaf => simp [Node.keptValues, RawGraph.Unfolds.null]

/-- All values that a requested node keeps are unfolded. -/
theorem Means.keptValues (sound : t.Sound []) (reflects : t.Reflects g []) {raw : RawValue g.size}
    {x : Node g.size} (h : t.Means raw x) :
    x.All fun y => ∀ v ∈ y.keptValues, g.Unfolds t.Keeps v := by
  have closed := closed_denoted sound reflects
  have inside {y : Node g.size} (hy : t.Denoted y) :
      y.All fun z => ∀ v ∈ z.keptValues, g.Unfolds t.Keeps v :=
    (closed.all hy).mono fun z hz => hz.keptValues reflects
  obtain ⟨z, denotes, resolved⟩ := h
  rcases closed.resolve ⟨raw, denotes⟩ resolved with own | ⟨c, properties, required, rfl, props⟩
  · exact inside own
  · refine .intro (List.forall_mem_singleton.mpr .null) fun y mem => ?_
    obtain ⟨p, hp, rfl⟩ : ∃ p ∈ properties, p.2 = y := by simpa [Node.children] using mem
    exact inside (props p hp)

/-- The comparison of requested nodes is endless only for two objects that have been kept. -/
theorem Means.endless (sound : t.Sound []) (reflects : t.Reflects g []) {v w : RawValue g.size}
    {x y : Node g.size} (hx : t.Means v x) (hy : t.Means w y) (h : x.compareOnce y = .endless) :
    ∃ a b, t.Keeps a ∧ t.Keeps b ∧ g.compare a b = .endless := by
  rw [Node.compareOnce] at h
  split at h
  · cases h
  · obtain ⟨a, b, ha, hb, v, hv, w, hw, flipped, endless⟩ := Node.exists_kept_endless
      (hx.keptValues sound reflects) (hy.keptValues sound reflects) h
    cases flipped with
    | false => exact (ha v hv).endless (hb w hw) endless
    | true => exact (hb w hw).endless (ha v hv) endless

end NodeTable

end ResourceGraph
