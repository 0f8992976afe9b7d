import ResourceGraph.Proofs.Schema.Alike
import ResourceGraph.Proofs.Schema.Origin

/-!
# Where references lead

A reference inside the node of a raw object leads to an object inside that contains itself. So the
nodes of values without cycles have no references, and the tree that a value unfolds to tells the
shape of its node, whatever else is in the table.
-/

namespace ResourceGraph

open Relation

variable {g : RawGraph}

/-! ## What a layout contains -/

namespace Layout

variable {i j : Fin g.size}

theorem contains_get {k : String} {v : RawValue g.size} (get : g.get i k = v) (hj : j ∈ v.refs) :
    g.Contains i j := by
  subst get
  unfold RawGraph.get at hj
  cases found : Keyed.find? k (g.members i) with
  | none =>
      rw [found] at hj
      cases hj
  | some v =>
      rw [found] at hj
      exact ⟨(k, v), Keyed.mem_of_find? found, hj⟩

theorem contains_branch {k : String} {branches : List (RawValue g.size)}
    (get : g.get i k = .arr branches) {v : RawValue g.size} (mem : v ∈ branches)
    (hj : j ∈ v.refs) : g.Contains i j :=
  contains_get get (Raw.mem_refsOf.mpr ⟨v, mem, hj⟩)

theorem contains_objectOf {v : RawValue g.size} (mem : v ∈ (objectOf g i).parts) (hj : j ∈ v.refs) :
    TransGen g.Contains i j := by
  have property {p : String × RawValue g.size} (mem : p ∈ propertiesOf g i) (hj : j ∈ p.2.refs) :
      TransGen g.Contains i j := by
    unfold propertiesOf at mem
    split at mem
    · rename_i m hm
      exact .tail (.single (contains_get hm (List.mem_singleton_self m))) ⟨p, mem, hj⟩
    · cases mem
  unfold objectOf at mem
  split at mem
  · rename_i m hm
    rcases List.mem_append.mp mem with mem | mem
    · obtain ⟨p, hp, rfl⟩ := List.mem_map.mp mem
      exact property hp hj
    · obtain rfl := List.mem_singleton.mp mem
      exact .single (contains_get hm hj)
  · rw [parts, Option.toList_none, List.append_nil] at mem
    obtain ⟨p, hp, rfl⟩ := List.mem_map.mp mem
    exact property hp hj

/-- An object contains what is inside the parts of its layout. -/
theorem contains_part {v : RawValue g.size} (mem : v ∈ (ofObject g i).parts) (hj : j ∈ v.refs) :
    TransGen g.Contains i j := by
  unfold ofObject at mem
  split at mem
  · rename_i branches hb
    exact .single (contains_branch hb mem hj)
  · split at mem
    · rename_i kind branches ha
      unfold alternatives? at ha
      split at ha
      · rename_i b bs hb
        cases ha
        exact .single (contains_branch hb mem hj)
      · split at ha
        · rename_i b bs hb
          cases ha
          exact .single (contains_branch hb mem hj)
        · cases ha
    · unfold plainOf at mem
      dsimp only at mem
      split at mem
      · cases mem
      · split at mem
        · split at mem
          · cases mem
          · obtain rfl := List.mem_singleton.mp mem
            exact .single (contains_get rfl hj)
        · split at mem
          · exact contains_objectOf mem hj
          · cases mem

end Layout

/-! ## References lead to cycles -/

/-- A reference inside the node of the value leads to an object inside that contains itself. -/
def Node.Loops (v : RawValue g.size) (y : Node g.size) : Prop :=
  ∀ serial j, y = .ref serial j → g.Reaches v j ∧ TransGen g.Contains j j

theorem Node.Loops.mono {v w : RawValue g.size} (h : ∀ j, g.Reaches v j → g.Reaches w j)
    {x : Node g.size} (hx : x.All (Loops v)) : x.All (Loops w) :=
  hx.mono fun _ loops serial j same => (loops serial j same).imp_left (h j)

def NodeTable.Loops (t : NodeTable g.size) : Prop :=
  ∀ i x, t.find? i = some x → x.All (Node.Loops (.obj i))

theorem NodeTable.loops_empty : Loops (g := g) .empty := fun i x found => by
  rw [find?_empty] at found
  cases found

namespace Parsing

variable {α β : Type} {D : α → Prop} {D' : β → Prop}

/-- A reading that gives references to cycles only. -/
def Looping (D : α → Prop) (x : Parsing g.size α) : Prop :=
  ∀ t a t', t.Loops → outcome x t = (.ok a, t') → t'.Loops ∧ D a

theorem looping_pure {a : α} (h : D a) : Looping (g := g) D (pure a) := by
  rintro t b t' loops run
  cases run
  exact ⟨loops, h⟩

theorem looping_serial {f : Nat → α} (h : ∀ k, D (f k)) :
    Looping (g := g) D (do return f (← nextSerial)) := by
  rintro t b t' loops run
  cases run
  exact ⟨loops, h _⟩

theorem looping_lift (x : Except SchemaError α) : Looping (g := g) (fun _ => True) (liftM x) := by
  rintro t b t' loops run
  obtain ⟨-, rfl⟩ := lift_eq_ok.mp run
  exact ⟨loops, trivial⟩

theorem Looping.bind {x : Parsing g.size α} {f : α → Parsing g.size β} (hx : Looping D x)
    (hf : ∀ a, D a → Looping D' (f a)) : Looping D' (x >>= f) := by
  rintro t b t'' loops run
  obtain ⟨a, t', first, second⟩ := bind_eq_ok.mp run
  obtain ⟨loops', ha⟩ := hx t a t' loops first
  exact hf a ha t' b t'' loops' second

mutual

theorem parse_looping (within : List (Fin g.size)) (raw : RawValue g.size)
    (above : ∀ a ∈ within, ∀ i ∈ raw.refs, TransGen g.Contains a i) :
    Looping (fun x => x.All (Node.Loops raw)) (parse g within raw) := by
  by_cases leaf : ∀ i, raw = .obj i → False
  · rw [parse]
    · exact looping_serial (f := fun k => Node.scalar (.serial k) .null .null) fun k =>
        .intro nofun (by simp [Node.children])
    · exact leaf
  · obtain ⟨i, rfl⟩ : ∃ i, raw = .obj i := by simpa using leaf
    rintro t x t' loops run
    cases found : t.find? i with
    | some y =>
        rw [parse_found found] at run
        cases run
        exact ⟨loops, loops i _ found⟩
    | none =>
        by_cases hi : i ∈ within
        · rw [parse_back found hi] at run
          refine looping_serial (f := (Node.ref · i)) (fun k => ?_) t x t' loops run
          refine .intro (fun serial j same => ?_) (by simp [Node.children])
          cases same
          exact ⟨.self i, above i hi i (List.mem_singleton_self i)⟩
        · have := unseenFin_cons_lt hi
          rw [parse_fresh found hi] at run
          have inside : ∀ v ∈ (Layout.ofObject g i).parts, ∀ a ∈ i :: within, ∀ j ∈ v.refs,
              TransGen g.Contains a j := fun v mem a ha j hj => by
            have down := Layout.contains_part mem hj
            rcases List.mem_cons.mp ha with rfl | ha
            · exact down
            · exact (above a ha i (List.mem_singleton_self i)).trans down
          have reach : ∀ v ∈ (Layout.ofObject g i).parts, ∀ j, g.Reaches v j →
              g.Reaches (.obj i) j := fun v mem j ⟨k, hk, path⟩ =>
            ⟨i, List.mem_singleton_self i, (Layout.contains_part mem hk).to_reflTransGen.trans path⟩
          have layout := parseLayout_looping i (i :: within) _ inside reach
          rcases ran : outcome (parseLayout g i (i :: within) (Layout.ofObject g i)) t
            with ⟨e | y, t₁⟩
          · rw [ran] at run
            cases run
          · rw [ran] at run
            cases run
            obtain ⟨loops', hy⟩ := layout t _ t₁ loops ran
            refine ⟨fun j z hz => ?_, hy⟩
            rw [NodeTable.find?_store] at hz
            split at hz
            · rename_i same
              cases hz
              exact same ▸ hy
            · exact loops' j z hz
termination_by (unseenFin within, 0)
decreasing_by all_goals decreasing_with omega

theorem parseLayout_looping (i : Fin g.size) (within : List (Fin g.size)) (layout : Layout g.size)
    (above : ∀ v ∈ layout.parts, ∀ a ∈ within, ∀ j ∈ v.refs, TransGen g.Contains a j)
    (reach : ∀ v ∈ layout.parts, ∀ j, g.Reaches v j → g.Reaches (.obj i) j) :
    Looping (fun x => x.All (Node.Loops (.obj i))) (parseLayout g i within layout) := by
  have part {v : RawValue g.size} (mem : v ∈ layout.parts) {x : Node g.size}
      (hx : x.All (Node.Loops v)) : x.All (Node.Loops (.obj i)) := Node.Loops.mono (reach v mem) hx
  match layout with
  | .composite kind branches =>
      rw [parseLayout]
      refine (parseItems_looping within branches above).bind fun xs hxs => looping_pure ?_
      exact .intro nofun fun x mem => let ⟨v, hv, hx⟩ := hxs x mem; part hv hx
  | .enumeration values type | .array none | .scalar type format =>
      rw [parseLayout]
      exact looping_pure (.intro nofun (by simp [Node.children]))
  | .array (some items) =>
      rw [parseLayout]
      have mem : items ∈ (Layout.array (some items)).parts := List.mem_singleton_self items
      refine (parse_looping within items (above items mem)).bind fun x hx => looping_pure ?_
      exact .intro nofun fun y hy => List.mem_singleton.mp hy ▸ part mem hx
  | .object properties required additional other =>
      have prop {p : String × RawValue g.size} (mem : p ∈ properties) :
          p.2 ∈ (Layout.object properties required additional other).parts :=
        List.mem_append_left _ (List.mem_map_of_mem mem)
      have rest (extra : Option (Node g.size))
          (hextra : ∀ x ∈ extra.toList, x.All (Node.Loops (.obj i))) :
          Looping (fun x => x.All (Node.Loops (.obj i))) (do
            let properties ← parseMembers g within properties
            let required ← (required : Parsing g.size (List String))
            return Node.object (.parsed i) properties required extra other) := by
        refine (parseMembers_looping within properties fun p mem => above p.2 (prop mem)).bind
          fun ps hps => ?_
        refine (looping_lift required).bind fun req _ => looping_pure ?_
        refine .intro nofun fun x hx => ?_
        rcases List.mem_append.mp hx with hx | hx
        · obtain ⟨q, hq, rfl⟩ := List.mem_map.mp hx
          obtain ⟨p, hp, hq⟩ := hps q hq
          exact part (prop hp) hq
        · exact hextra x hx
      cases additional with
      | none =>
          rw [parseLayout.eq_def]
          exact (looping_pure (D := fun extra => ∀ x ∈ extra.toList, x.All (Node.Loops (.obj i)))
            (by simp)).bind rest
      | some raw =>
          have mem : raw ∈ (Layout.object properties required (some raw) other).parts :=
            List.mem_append_right _ (List.mem_singleton_self raw)
          rw [parseLayout.eq_def]
          have extra : Looping (fun extra => ∀ x ∈ extra.toList, x.All (Node.Loops (.obj i)))
              (some <$> parse g within raw) := by
            rw [map_eq_pure_bind]
            exact (parse_looping within raw (above raw mem)).bind fun x hx =>
              looping_pure fun y hy => List.mem_singleton.mp hy ▸ part mem hx
          exact extra.bind rest
termination_by (unseenFin within, 2 + sizeOf layout)
decreasing_by all_goals simp_wf; omega

theorem parseItems_looping (within : List (Fin g.size)) (items : List (RawValue g.size))
    (above : ∀ v ∈ items, ∀ a ∈ within, ∀ j ∈ v.refs, TransGen g.Contains a j) :
    Looping (fun xs => ∀ x ∈ xs, ∃ v ∈ items, x.All (Node.Loops v))
      (parseItems g within items) := by
  match items with
  | [] =>
      rw [parseItems]
      exact looping_pure (by simp)
  | raw :: rest =>
      obtain ⟨hraw, hrest⟩ := List.forall_mem_cons.mp above
      rw [parseItems]
      refine (parse_looping within raw hraw).bind fun x hx => ?_
      refine (parseItems_looping within rest hrest).bind fun xs hxs => looping_pure ?_
      exact List.forall_mem_cons.mpr ⟨⟨raw, List.mem_cons_self .., hx⟩, fun y hy =>
        let ⟨v, hv, hy⟩ := hxs y hy
        ⟨v, List.mem_cons_of_mem _ hv, hy⟩⟩
termination_by (unseenFin within, 1 + sizeOf items)
decreasing_by all_goals decreasing_with omega

theorem parseMembers_looping (within : List (Fin g.size)) (ms : List (String × RawValue g.size))
    (above : ∀ p ∈ ms, ∀ a ∈ within, ∀ j ∈ p.2.refs, TransGen g.Contains a j) :
    Looping (fun ps => ∀ q ∈ ps, ∃ p ∈ ms, q.2.All (Node.Loops p.2))
      (parseMembers g within ms) := by
  match ms with
  | [] =>
      rw [parseMembers]
      exact looping_pure (by simp)
  | (k, raw) :: rest =>
      obtain ⟨hraw, hrest⟩ := List.forall_mem_cons.mp above
      rw [parseMembers]
      refine (parse_looping within raw hraw).bind fun x hx => ?_
      refine (parseMembers_looping within rest hrest).bind fun ps hps => looping_pure ?_
      exact List.forall_mem_cons.mpr ⟨⟨(k, raw), List.mem_cons_self .., hx⟩, fun q hq =>
        let ⟨p, hp, hq⟩ := hps q hq
        ⟨p, List.mem_cons_of_mem _ hp, hq⟩⟩
termination_by (unseenFin within, 1 + sizeOf ms)
decreasing_by all_goals decreasing_with omega

end

theorem run_loops {t t' : NodeTable g.size} (loops : t.Loops) {raw : RawValue g.size}
    {x : Node g.size} (read : run g raw t = (.ok x, t')) : t'.Loops :=
  (parse_looping [] raw (by simp) t x t' loops read).1

end Parsing

/-! ## Nodes of trees -/

theorem mapM_eq_ok {α β ε : Type} {f : α → Except ε β} {as : List α} {bs : List β}
    (h : List.Forall₂ (fun a b => f a = .ok b) as bs) : as.mapM f = .ok bs := by
  induction h with
  | nil => rfl
  | cons head _ ih =>
      rw [List.mapM_cons, head, ih]
      rfl

/-- A node has the shape that the plan of its layout says if the parts have. -/
theorem Layout.Makes.shape {D : RawValue g.size → Node g.size → Prop} {i : Fin g.size}
    {l : Layout g.size} {x : Node g.size} (makes : l.Makes D i x)
    (agree : ∀ v ∈ l.parts, ∀ y ∈ x.children, D v y → (g.unfold v).reading = .ok y.shape) :
    l.plan.shapeBy Value.reading = .ok x.shape := by
  cases makes with
  | @composite kind branches xs inside =>
      have read : (branches.map g.unfold).mapM Value.reading = .ok (xs.map Node.shape) := by
        refine mapM_eq_ok ?_
        rw [List.forall₂_map_left_iff, List.forall₂_map_right_iff]
        exact forall₂_imp_of_mem inside agree
      rw [plan, Plan.shapeBy, read, Node.shape_composite]
      rfl
  | enumeration values type =>
      rw [Node.shape_enumeration]
      rfl
  | array inside =>
      rw [Node.shape_array]
      cases inside with
      | none => rfl
      | some denotes =>
          have read := agree _ (List.mem_singleton_self _) _ (List.mem_singleton_self _) denotes
          rw [Option.map_some, plan, Option.map_some, Plan.shapeBy, read]
          rfl
  | @object properties ps required req additional extra other inside hreq hextra =>
      have read : (Keyed.mapEntries g.unfold properties).mapM
          (fun p => (do return (p.1, ← p.2.reading) : Except SchemaError (String × Node 1)))
            = .ok (Keyed.mapEntries Node.shape ps) := by
        refine mapM_eq_ok ?_
        rw [Keyed.mapEntries, Keyed.mapEntries, List.forall₂_map_left_iff,
          List.forall₂_map_right_iff]
        refine forall₂_imp_of_mem inside fun p hp q hq same => ?_
        have read := agree p.2 (List.mem_append_left _ (List.mem_map_of_mem hp)) q.2
          (List.mem_append_left _ (List.mem_map_of_mem hq)) same.2
        dsimp only
        rw [read, same.1]
        rfl
      have rest : Plan.optional Value.reading (additional.map g.unfold)
          = .ok (extra.map Node.shape) := by
        cases hextra with
        | none => rfl
        | some denotes =>
            have read := agree _ (List.mem_append_right _ (List.mem_singleton_self _)) _
              (List.mem_append_right _ (List.mem_singleton_self _)) denotes
            rw [Option.map_some, Plan.optional, read]
            rfl
      rw [plan, Plan.shapeBy, rest, Node.shape_object, hreq]
      show (List.mapM (m := Except SchemaError) _ _ >>= _) = _
      rw [read]
      rfl
  | scalar type format =>
      rw [Node.shape_scalar]
      rfl

namespace NodeTable

variable {t : NodeTable g.size}

/-- The tree of a value without cycles tells the shape of its node. -/
theorem Denotes.reading (reflects : t.Reflects g []) {v : RawValue g.size} {z : Node g.size}
    (acyclic : g.Acyclic v) (hz : t.Grounded z) (h : t.Denotes [] v z) :
    (g.unfold v).reading = .ok z.shape := by
  cases h with
  | leaf leaf serial =>
      rw [Parsing.reading_leaf leaf, Node.shape_scalar]
  | back => exact (hz.self.2.1 trivial).elim
  | @found i _ found =>
      have tree : (g.unfold (.obj i)).reading
          = (Layout.ofObject g i).plan.shapeBy Value.reading := by
        rw [← Layout.ofObject_unfold acyclic]
        obtain ⟨members, hm⟩ := g.exists_unfold_obj acyclic
        rw [hm, reading_obj]
      rw [tree]
      refine (reflects i z found).shape fun w mem y inside denotes => ?_
      have := Node.sizeOf_child_lt inside
      exact Denotes.reading reflects (Layout.ofObject_acyclic acyclic w mem)
        (hz.child y inside).1 denotes
termination_by sizeOf z

variable {v w : RawValue g.size} {x y z : Node g.size}

/-- The node of a value without cycles has no references. -/
theorem Denotes.grounded (sound : t.Sound []) (reflects : t.Reflects g []) (loops : t.Loops)
    (acyclic : g.Acyclic v) (h : t.Denotes [] v z) (concrete : ¬ z.IsRef) : t.Grounded z := by
  have literal := ((closed_denoted sound reflects).all ⟨v, h⟩).mono fun y hy => hy.literal reflects
  have irreferential : z.All fun y => ¬ y.IsRef := by
    cases h with
    | leaf => exact .intro id (by simp [Node.children])
    | back => exact (concrete trivial).elim
    | @found i _ found =>
        refine (loops i z found).mono fun y hy is => ?_
        cases y with
        | ref serial j =>
            obtain ⟨reached, cycle⟩ := hy serial j rfl
            exact acyclic j reached cycle
        | _ => exact is
  exact ((h.known sound).and (irreferential.and literal)).mono fun y hy => hy

/-- The tree of a value without cycles tells the shape of what the value means for. -/
theorem Means.shape (sound : t.Sound []) (reflects : t.Reflects g []) (loops : t.Loops)
    (acyclic : g.Acyclic v) (h : t.Means v x) :
    x.All Node.IsPlain ∧ ∃ s, (g.unfold v).reading = .ok s ∧ s.collapse = some x.shape := by
  obtain ⟨z, denotes, resolved⟩ := h
  obtain ⟨z, grounded, denotes, resolved⟩ :
      ∃ z, t.Grounded z ∧ t.Denotes [] v z ∧ t.resolve z = some x := by
    cases denotes with
    | leaf leaf serial => exact ⟨_, Denotes.grounded sound reflects loops acyclic
        (.leaf leaf serial) id, .leaf leaf serial, resolved⟩
    | found found => exact ⟨z, Denotes.grounded sound reflects loops acyclic (.found found)
        (sound.not_ref found), .found found, resolved⟩
    | @back serial i inside =>
        obtain ⟨y, found⟩ := inside.resolve_left nofun
        have concrete : ¬ y.IsRef := sound.not_ref found
        refine ⟨y, Denotes.grounded sound reflects loops acyclic (.found found) concrete,
          .found found, ?_⟩
        rw [resolve, deref_of_not_ref concrete]
        rw [resolve] at resolved
        exact found ▸ resolved
  refine ⟨resolve_plain grounded resolved, z.shape, denotes.reading reflects acyclic grounded, ?_⟩
  rw [← resolve_shape grounded, resolved, Option.map_some]

/-- Values without cycles that unfold to the same tree mean for equal nodes. -/
theorem Means.eqv_of_unfold (sound : t.Sound []) (reflects : t.Reflects g []) (loops : t.Loops)
    (hx : t.Means v x) (hy : t.Means w y) (left : g.Acyclic v) (right : g.Acyclic w)
    (same : g.unfold v = g.unfold w) : x.Eqv y := by
  obtain ⟨plain, s, read, shape⟩ := hx.shape sound reflects loops left
  obtain ⟨-, s', read', shape'⟩ := hy.shape sound reflects loops right
  rw [← same, read] at read'
  cases read'
  have shapes : x.shape = y.shape := Option.some.inj (shape.symm.trans shape')
  rw [Node.Eqv, ← Node.looseEq_shape plain, ← shapes, Node.looseEq_shape plain]
  exact Node.looseEq_self (hx.proper sound reflects)

end NodeTable

end ResourceGraph
