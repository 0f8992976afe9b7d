import ResourceGraph.Proofs.Schema.Cutoff

/-!
# What makes nodes of equal contents different

Nodes that are read from values of the same content are equal, unless in one place of the two there
is a reference that the other has not, other names are required, values are kept whose comparison
never ends, or resolution was cut off so that a property was read from other content.
-/

namespace ResourceGraph

namespace NodeTable

variable {g : RawGraph} {t : NodeTable g.size}

/-- The node stands for a value in which a composite comes back to itself. -/
def Looped (t : NodeTable g.size) (x : Node g.size) : Prop :=
  ∃ v, t.Means v x ∧ ¬ g.Unlooped v

/-- What makes nodes different that are read from values of the same content. -/
inductive Differs (t : NodeTable g.size) : Node g.size → Node g.size → Prop
  /-- One is a reference, and the other is not the same reference. -/
  | reference {x y : Node g.size} (ref : x.IsRef ∨ y.IsRef) (other : x ≠ y) : Differs t x y
  /-- They require other names. -/
  | required {x y : Node g.size} (different : x.requires ≠ y.requires) : Differs t x y
  /-- The comparison of two values that they keep never ends. -/
  | endless {x y : Node g.size} {v w : Value} (kept : x.KeepBeside y v w)
      (endless : v.compare w = .endless) : Differs t x y
  /-- Resolution was cut off where a composite comes back to itself, and left one property to other
  nodes, which were not read from the same content. -/
  | cutoff {x y a b : Node g.size} (loops : t.Looped x ∨ t.Looped y) (beside : x.Beside y a b)
      (apart : ¬ t.Alike a b) (unequal : ¬ a.Eqv b) : Differs t x y
  /-- There is such a difference below them. -/
  | inside {x y a b : Node g.size} (beside : x.Beside y a b) (differs : Differs t a b) :
      Differs t x y

/-- Nodes that differ are not equal. -/
theorem Differs.not_eqv {x y : Node g.size} (h : t.Differs x y) : ¬ x.Eqv y := by
  induction h with
  | reference ref other => exact fun same => other (Node.eq_of_looseEq_ref ref same)
  | required different => exact fun same => different same.requires
  | endless kept endless =>
      intro same
      cases endless.symm.trans ((Value.compare_eq_same _ _).mpr (kept.innerEq same))
  | cutoff _ beside _ unequal => exact fun same => unequal (beside.eqv same)
  | inside beside _ ih => exact fun same => ih (beside.eqv same)

/-- Nodes that are alike below are equal if they do not differ and what is alike below them is
equal. -/
theorem eqv_of_level {x y : Node g.size} (level : x.Level t.Alike y) (hx : x.Distinct)
    (hy : y.Distinct) (agree : ¬ t.Differs x y)
    (inside : ∀ a b, x.Beside y a b → t.Alike a b → ¬ t.Differs a b → a.Eqv b) : x.Eqv y := by
  refine level.eqv hx hy ?_ (fun v w kept endless => agree (.endless kept endless))
    fun a b beside alike => inside a b beside alike fun differs => agree (.inside beside differs)
  by_contra different
  exact agree (.required different)

/-- Alike nodes are equal if they do not differ. -/
theorem Alike.eqv (sound : t.Sound []) (reflects : t.Reflects g []) {x y : Node g.size}
    (h : t.Alike x y) (hx : x.All Node.Distinct) (hy : y.All Node.Distinct)
    (agree : ¬ t.Differs x y) : x.Eqv y := by
  induction hx generalizing y with
  | @intro x distinct _ ih =>
      by_cases ref : x.IsRef ∨ y.IsRef
      · by_cases same : x = y
        · subst same
          exact Node.looseEq_ref (ref.elim id id)
        · exact absurd (.reference ref same) agree
      · obtain ⟨notRef, notRef'⟩ := not_or.mp ref
        have level := h.deref sound reflects (deref_of_not_ref notRef) (deref_of_not_ref notRef')
        exact eqv_of_level level distinct hy.self agree fun a b beside alike agree =>
          ih a beside.mem.1 alike (hy.inside b beside.mem.2) agree

/-- Objects that are merged are equal if they do not differ. -/
theorem MergedAlike.eqv (sound : t.Sound []) (reflects : t.Reflects g []) {x y : Node g.size}
    (h : MergedAlike x y) (loops : t.Looped x ∨ t.Looped y) (hx : x.All Node.Distinct)
    (hy : y.All Node.Distinct) (agree : ¬ t.Differs x y) : x.Eqv y := by
  obtain ⟨c, ps, required, rfl⟩ := h.merged
  obtain ⟨c', ps', required', rfl⟩ := h.merged'
  refine (Node.eqv_object hx.self hy.self).mpr ⟨fun k => ?_, ?_, .none, rfl⟩
  · have names : k ∈ Keyed.keys ps ↔ k ∈ Keyed.keys ps' := h.names k
    cases found : Keyed.find? k ps with
    | none =>
        cases found' : Keyed.find? k ps' with
        | none => exact .none
        | some b =>
            obtain ⟨a, listed⟩ :=
              Keyed.exists_of_mem_keys (names.mpr (Keyed.mem_keys_of_find? found'))
            cases found.symm.trans listed
    | some a =>
        obtain ⟨b, found'⟩ := Keyed.exists_of_mem_keys (names.mp (Keyed.mem_keys_of_find? found))
        have beside : Node.Beside (.object (.merged c) ps required none .null)
            (.object (.merged c') ps' required' none .null) a b := .property found found'
        rw [found']
        refine .some ?_
        by_cases alike : t.Alike a b
        · exact alike.eqv sound reflects (hx.inside a beside.mem.1) (hy.inside b beside.mem.2)
            fun differs => agree (.inside beside differs)
        · by_contra unequal
          exact agree (.cutoff loops beside alike unequal)
  · by_contra different
    exact agree (.required different)

/-- Nodes that values of the same content stand for are equal exactly if they do not differ. -/
theorem Means.eqv_iff (sound : t.Sound []) (reflects : t.Reflects g []) {v w : RawValue g.size}
    {x y : Node g.size} (hx : t.Means v x) (hy : t.Means w y) (same : g.Same v w) :
    x.Eqv y ↔ ¬ t.Differs x y := by
  have distinct {z : Node g.size} {u : RawValue g.size} (hz : t.Means u z) :
      z.All Node.Distinct := (hz.proper sound reflects).mono fun _ proper => proper.1
  refine ⟨fun same differs => differs.not_eqv same, fun agree => ?_⟩
  rcases hx.level_or_merged sound reflects hy same with level | ⟨looped, merged⟩
  · refine eqv_of_level level (distinct hx).self (distinct hy).self agree fun a b beside alike => ?_
    exact alike.eqv sound reflects ((distinct hx).inside a beside.mem.1)
      ((distinct hy).inside b beside.mem.2)
  · exact merged.eqv sound reflects (looped.imp (fun h => ⟨v, hx, h⟩) fun h => ⟨w, hy, h⟩)
      (distinct hx) (distinct hy) agree

end NodeTable

end ResourceGraph
