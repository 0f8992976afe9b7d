import ResourceGraph.Proofs.Schema.Plan
import ResourceGraph.Proofs.Schema.Shape

/-!
# Reading a tree

What reading an object gives, up to where it comes from, is told by the tree that it unfolds to, if
no object in it contains itself. Whether parts of it have been read before, here or elsewhere, makes
no difference.
-/

namespace ResourceGraph

/-! ## What is inside a value -/

/-- The first value is a proper part of the second. -/
structure Value.Inside (w v : Value) : Prop where
  smaller : sizeOf w < sizeOf v
  distinct : v.Distinct → w.Distinct

namespace Value

theorem Inside.trans {u w v : Value} (h : u.Inside w) (h' : w.Inside v) : u.Inside v :=
  ⟨Nat.lt_trans h.smaller h'.smaller, fun hv => h.distinct (h'.distinct hv)⟩

theorem inside_arr {items : List Value} {w : Value} (mem : w ∈ items) : w.Inside (.arr items) := by
  refine ⟨?_, fun h => ?_⟩
  · have := List.sizeOf_lt_of_mem mem
    simp only [arr.sizeOf_spec]
    omega
  · cases h with
    | arr inside => exact inside w mem

theorem inside_obj {members : List (String × Value)} {p : String × Value} (mem : p ∈ members) :
    p.2.Inside (.obj members) := by
  refine ⟨?_, fun h => ?_⟩
  · have := List.sizeOf_lt_of_mem mem
    cases p
    simp only [Prod.mk.sizeOf_spec, obj.sizeOf_spec] at this ⊢
    omega
  · cases h with
    | obj nodup inside => exact inside p mem

theorem inside_get (members : List (String × Value)) (k : String) :
    ((Value.obj members).get k).Inside (.obj members) := by
  show ((Keyed.find? k members).getD .null).Inside _
  cases found : Keyed.find? k members with
  | none => exact ⟨by cases members <;> (simp; try omega), fun _ => .null⟩
  | some v => exact inside_obj (Keyed.mem_of_find? found)

end Value

/-! ## Parts of a plan -/

namespace Plan

/-- The values below. -/
def parts : Plan → List Value
  | .composite _ branches => branches
  | .array items => items.toList
  | .object properties _ additional _ => properties.map (·.2) ++ additional.toList
  | _ => []

/-- The values of a plan that stay values have distinct names. -/
def IsLiteral : Plan → Prop
  | .enumeration values type => (∀ v ∈ values, v.Distinct) ∧ type.Distinct
  | .object _ _ _ other => other.Distinct
  | .scalar type format => type.Distinct ∧ format.Distinct
  | _ => True

/-- The parts are inside the value, and what is kept of it is proper if it is. -/
structure Describes (p : Plan) (v : Value) : Prop where
  inside : ∀ w ∈ p.parts, w.Inside v
  literal : v.Distinct → p.IsLiteral

variable {members : List (String × Value)}

theorem typeOf_distinct (h : (Value.obj members).Distinct) : (typeOf (.obj members)).Distinct := by
  unfold typeOf
  have distinct := (Value.inside_get members "type").distinct h
  split
  · rename_i candidates hc
    rw [hc] at distinct
    cases found : candidates.find? fun c => !c.isWord "null" with
    | none => exact .null
    | some c => exact (Value.inside_arr (List.mem_of_find?_eq_some found)).distinct distinct
  · exact distinct

theorem objectOf_describes : (objectOf (.obj members)).Describes (.obj members) := by
  have props : ∀ p ∈ membersOf ((Value.obj members).get "properties"),
      p.2.Inside (.obj members) := by
    intro p hp
    have inside := Value.inside_get members "properties"
    cases hv : (Value.obj members).get "properties" with
    | obj ps =>
        rw [hv] at hp inside
        exact (Value.inside_obj hp).trans inside
    | _ =>
        rw [hv] at hp
        cases hp
  have additional := Value.inside_get members "additionalProperties"
  unfold objectOf
  split
  · rename_i ms hm
    refine ⟨fun w hw => ?_, fun _ => .null⟩
    rcases List.mem_append.mp hw with hw | hw
    · obtain ⟨p, hp, rfl⟩ := List.mem_map.mp hw
      exact props p hp
    · obtain rfl := List.mem_singleton.mp hw
      exact hm ▸ additional
  · refine ⟨fun w hw => ?_, additional.distinct⟩
    rw [parts, Option.toList_none, List.append_nil] at hw
    obtain ⟨p, hp, rfl⟩ := List.mem_map.mp hw
    exact props p hp

theorem typedOf_describes : (typedOf (.obj members)).Describes (.obj members) := by
  unfold typedOf
  split
  · have inside := Value.inside_get members "items"
    split
    · exact ⟨by simp [parts], fun _ => trivial⟩
    · refine ⟨fun w hw => ?_, fun _ => trivial⟩
      obtain rfl := List.mem_singleton.mp hw
      exact inside
  · split
    · exact objectOf_describes
    · exact ⟨by simp [parts], fun h =>
        ⟨typeOf_distinct h, (Value.inside_get members "format").distinct h⟩⟩

theorem plainOf_describes : (plainOf (.obj members)).Describes (.obj members) := by
  unfold plainOf
  split
  · rename_i values hv
    have inside := Value.inside_get members "enum"
    rw [hv] at inside
    exact ⟨by simp [parts], fun h => ⟨fun v hm => (Value.inside_arr hm).distinct (inside.distinct h),
      typeOf_distinct h⟩⟩
  · exact typedOf_describes

theorem composite_describes {kind : CompositeKind} {k : String} {branches : List Value}
    (h : (Value.obj members).get k = .arr branches) :
    (Plan.composite kind branches).Describes (.obj members) := by
  refine ⟨fun w hw => ?_, fun _ => trivial⟩
  exact (Value.inside_arr hw).trans (h ▸ Value.inside_get members k)

/-- The plan of an object describes it. -/
theorem ofObject_describes : (ofObject (.obj members)).Describes (.obj members) := by
  unfold ofObject
  split
  · rename_i branches hb
    exact composite_describes hb
  · split
    · rename_i kind branches ha
      unfold alternatives? at ha
      split at ha
      · rename_i b bs hb
        cases ha
        exact composite_describes hb
      · split at ha
        · rename_i b bs hb
          cases ha
          exact composite_describes hb
        · cases ha
    · exact plainOf_describes

def optional (read : Value → Except SchemaError (Node 1)) :
    Option Value → Except SchemaError (Option (Node 1))
  | none => .ok none
  | some v => some <$> read v

/-- The shape of a plan whose parts are read. -/
def shapeBy (read : Value → Except SchemaError (Node 1)) : Plan → Except SchemaError (Node 1)
  | .composite kind branches => return .composite 0 kind (← branches.mapM read)
  | .enumeration values type => return .enumeration 0 values type
  | .array none => return .array 0 none
  | .array (some items) => return .array 0 (some (← read items))
  | .object properties required additional other => do
    let additional ← optional read additional
    let properties ← properties.mapM fun p => return (p.1, ← read p.2)
    let required ← required
    return .object (.parsed 0) properties required additional other
  | .scalar type format => return .scalar (.serial 0) type format

end Plan

/-! ## The shape of a tree -/

/-- Reads a tree to a depth. -/
def shapeTo : Nat → Value → Except SchemaError (Node 1)
  | depth + 1, .obj members => (Plan.ofObject (.obj members)).shapeBy (shapeTo depth)
  | _, _ => .ok (.scalar (.serial 0) .null .null)

/-- The shape of the node of a tree, or why it has none. -/
noncomputable def Value.reading (v : Value) : Except SchemaError (Node 1) := shapeTo (sizeOf v) v

theorem mapM_congr {α β ε : Type} {f f' : α → Except ε β} {as : List α}
    (h : ∀ a ∈ as, f a = f' a) : as.mapM f = as.mapM f' := by
  induction as with
  | nil => rfl
  | cons a rest ih =>
      obtain ⟨ha, hrest⟩ := List.forall_mem_cons.mp h
      rw [List.mapM_cons, List.mapM_cons, ha, ih hrest]

theorem Plan.shapeBy_congr {read read' : Value → Except SchemaError (Node 1)} {p : Plan}
    (h : ∀ w ∈ p.parts, read w = read' w) : p.shapeBy read = p.shapeBy read' := by
  cases p with
  | composite kind branches =>
      have branches : branches.mapM read = branches.mapM read' := mapM_congr h
      rw [shapeBy, shapeBy, branches]
  | enumeration values type => rfl
  | array items =>
      cases items with
      | none => rfl
      | some items => rw [shapeBy, shapeBy, h items (List.mem_singleton_self _)]
  | object properties required additional other =>
      have props : ∀ p ∈ properties, (do return (p.1, ← read p.2) : Except SchemaError _)
          = (do return (p.1, ← read' p.2)) := fun p hp => by
        rw [h p.2 (List.mem_append_left _ (List.mem_map_of_mem hp))]
      have extra : optional read additional = optional read' additional := by
        cases additional with
        | none => rfl
        | some v =>
            rw [optional, optional, h v (List.mem_append_right _ (List.mem_singleton_self v))]
      rw [shapeBy, shapeBy, mapM_congr props, extra]
  | scalar type format => rfl

/-- A depth that is large enough makes no difference. -/
theorem shapeTo_eq {v : Value} {d d' : Nat} (h : sizeOf v ≤ d) (h' : sizeOf v ≤ d') :
    shapeTo d v = shapeTo d' v := by
  induction d generalizing v d' with
  | zero => cases v <;> simp at h
  | succ d ih =>
      cases v with
      | obj members =>
          cases d' with
          | zero => simp at h'
          | succ d' =>
              refine Plan.shapeBy_congr fun w hw => ?_
              have := (Plan.ofObject_describes.inside w hw).smaller
              exact ih (by omega) (by omega)
      | _ => cases d' <;> rfl

theorem reading_obj (members : List (String × Value)) :
    (Value.obj members).reading = (Plan.ofObject (.obj members)).shapeBy Value.reading := by
  have large : sizeOf (Value.obj members) ≤ sizeOf (Value.obj members) + 1 := Nat.le_succ _
  rw [Value.reading, shapeTo_eq (Nat.le_refl _) large]
  refine Plan.shapeBy_congr fun w hw => ?_
  exact shapeTo_eq (Nat.le_of_lt (Plan.ofObject_describes.inside w hw).smaller) (Nat.le_refl _)

/-- What is no object is read as a scalar of nothing. -/
theorem Value.reading_leaf {v : Value} (h : ∀ members, v = .obj members → False) :
    v.reading = .ok (.scalar (.serial 0) .null .null) := by
  rw [Value.reading]
  generalize sizeOf v = depth
  cases v with
  | obj members => exact (h members rfl).elim
  | _ => cases depth <;> rfl

/-! ## Trees are plain -/

theorem except_bind_eq_ok {α β ε : Type} {x : Except ε α} {f : α → Except ε β} {b : β} :
    x >>= f = .ok b ↔ ∃ a, x = .ok a ∧ f a = .ok b := by
  cases x with
  | ok a => exact ⟨fun h => ⟨a, rfl, h⟩, by rintro ⟨_, he, h⟩; cases he; exact h⟩
  | error e => exact ⟨nofun, fun ⟨_, h, _⟩ => nomatch h⟩

/-- What a list is read to comes from its members. -/
theorem exists_of_mapM_eq_ok {α β ε : Type} {f : α → Except ε β} {as : List α} {bs : List β}
    (h : as.mapM f = .ok bs) : ∀ b ∈ bs, ∃ a ∈ as, f a = .ok b := by
  induction as generalizing bs with
  | nil =>
      cases h
      simp
  | cons a rest ih =>
      rw [List.mapM_cons] at h
      obtain ⟨b, hb, h⟩ := except_bind_eq_ok.mp h
      obtain ⟨bs', hbs, h⟩ := except_bind_eq_ok.mp h
      cases h
      refine List.forall_mem_cons.mpr ⟨⟨a, List.mem_cons_self .., hb⟩, fun c hc => ?_⟩
      obtain ⟨a', ha', hf⟩ := ih hbs c hc
      exact ⟨a', List.mem_cons_of_mem a ha', hf⟩

theorem Plan.shapeBy_plain {read : Value → Except SchemaError (Node 1)} {p : Plan} {s : Node 1}
    (literal : p.IsLiteral)
    (inside : ∀ w ∈ p.parts, ∀ x, read w = .ok x → x.All Node.IsPlain)
    (h : p.shapeBy read = .ok s) : s.All Node.IsPlain := by
  cases p with
  | composite kind branches =>
      obtain ⟨xs, hxs, h⟩ := except_bind_eq_ok.mp h
      cases h
      refine .intro ⟨id, trivial⟩ fun y hy => ?_
      obtain ⟨w, hw, hy⟩ := exists_of_mapM_eq_ok hxs y hy
      exact inside w hw y hy
  | enumeration values type =>
      cases h
      exact .intro ⟨id, literal⟩ (by simp [Node.children])
  | array items =>
      cases items with
      | none =>
          cases h
          exact .intro ⟨id, trivial⟩ (by simp [Node.children])
      | some items =>
          obtain ⟨x, hx, h⟩ := except_bind_eq_ok.mp h
          cases h
          refine .intro ⟨id, trivial⟩ fun y hy => ?_
          obtain rfl := List.mem_singleton.mp hy
          exact inside items (List.mem_singleton_self _) y hx
  | object properties required additional other =>
      obtain ⟨additional', hadditional, h⟩ := except_bind_eq_ok.mp h
      obtain ⟨properties', hproperties, h⟩ := except_bind_eq_ok.mp h
      obtain ⟨required', -, h⟩ := except_bind_eq_ok.mp h
      cases h
      refine .intro ⟨id, literal⟩ fun y hy => ?_
      rcases List.mem_append.mp hy with hy | hy
      · obtain ⟨p, hp, rfl⟩ := List.mem_map.mp hy
        obtain ⟨q, hq, hread⟩ := exists_of_mapM_eq_ok hproperties p hp
        obtain ⟨x, hx, hread⟩ := except_bind_eq_ok.mp hread
        cases hread
        exact inside q.2 (List.mem_append_left _ (List.mem_map_of_mem hq)) x hx
      · cases additional with
        | none =>
            cases hadditional
            cases hy
        | some v =>
            rw [optional, map_eq_pure_bind] at hadditional
            obtain ⟨x, hx, hadditional⟩ := except_bind_eq_ok.mp hadditional
            cases hadditional
            obtain rfl := List.mem_singleton.mp hy
            exact inside v (List.mem_append_right _ (List.mem_singleton_self v)) y hx
  | scalar type format =>
      cases h
      exact .intro ⟨id, literal⟩ (by simp [Node.children])

/-- The shape of a tree has no references and proper values. -/
theorem Value.reading_plain {v : Value} (distinct : v.Distinct) {s : Node 1}
    (h : v.reading = .ok s) : s.All Node.IsPlain := by
  induction size : sizeOf v using Nat.strongRecOn generalizing v s with
  | _ k ih =>
      by_cases leaf : ∀ members, v = .obj members → False
      · rw [Value.reading_leaf leaf] at h
        cases h
        exact .intro ⟨id, .null, .null⟩ (by simp [Node.children])
      · obtain ⟨members, rfl⟩ : ∃ members, v = .obj members := by simpa using leaf
        rw [reading_obj] at h
        refine Plan.shapeBy_plain (Plan.ofObject_describes.literal distinct) (fun w hw x hx => ?_) h
        have inside := Plan.ofObject_describes.inside w hw
        exact ih _ (size ▸ inside.smaller) (inside.distinct distinct) hx rfl

/-! ## Parts of a layout -/

namespace Layout

variable {g : RawGraph} {i : Fin g.size}

/-- The raw values below. -/
def parts {n : Nat} : Layout n → List (RawValue n)
  | .composite _ branches => branches
  | .array items => items.toList
  | .object properties _ additional _ => properties.map (·.2) ++ additional.toList
  | _ => []

theorem parts_plan (l : Layout g.size) : l.plan.parts = l.parts.map g.unfold := by
  cases l with
  | array items => cases items <;> rfl
  | object properties required additional other =>
      cases additional <;> simp [plan, parts, Plan.parts]
  | _ => rfl

theorem objectOf_acyclic (h : g.Acyclic (.obj i)) : ∀ v ∈ (objectOf g i).parts, g.Acyclic v := by
  have props : ∀ p ∈ propertiesOf g i, g.Acyclic p.2 := by
    intro p hp
    have acyclic := h.get "properties"
    unfold propertiesOf at hp
    split at hp
    · rename_i j hj
      rw [hj] at acyclic
      exact acyclic.member p hp
    · cases hp
  have additional := h.get "additionalProperties"
  intro v hv
  unfold objectOf at hv
  split at hv
  · rename_i j hj
    rcases List.mem_append.mp hv with hv | hv
    · obtain ⟨p, hp, rfl⟩ := List.mem_map.mp hv
      exact props p hp
    · obtain rfl := List.mem_singleton.mp hv
      exact hj ▸ additional
  · rw [parts, Option.toList_none, List.append_nil] at hv
    obtain ⟨p, hp, rfl⟩ := List.mem_map.mp hv
    exact props p hp

theorem plainOf_acyclic (h : g.Acyclic (.obj i)) : ∀ v ∈ (plainOf g i).parts, g.Acyclic v := by
  intro v hv
  have items := h.get "items"
  unfold plainOf at hv
  dsimp only at hv
  split at hv
  · cases hv
  · split at hv
    · split at hv
      · cases hv
      · obtain rfl := List.mem_singleton.mp hv
        exact items
    · split at hv
      · exact objectOf_acyclic h v hv
      · cases hv

theorem ofObject_acyclic (h : g.Acyclic (.obj i)) : ∀ v ∈ (ofObject g i).parts, g.Acyclic v := by
  have branch {k : String} {branches : List (RawValue g.size)} (hb : g.get i k = .arr branches) :
      ∀ v ∈ branches, g.Acyclic v := (hb ▸ h.get k).item
  intro v hv
  unfold ofObject at hv
  split at hv
  · rename_i branches hb
    exact branch hb v hv
  · split at hv
    · rename_i kind branches ha
      unfold alternatives? at ha
      split at ha
      · rename_i b bs hb
        cases ha
        exact branch hb v hv
      · split at ha
        · rename_i b bs hb
          cases ha
          exact branch hb v hv
        · cases ha
    · exact plainOf_acyclic h v hv

theorem sizeOf_part_lt (h : g.Acyclic (.obj i)) {v : RawValue g.size}
    (hv : v ∈ (ofObject g i).parts) : sizeOf (g.unfold v) < sizeOf (g.unfold (.obj i)) := by
  have mem : g.unfold v ∈ (Plan.ofObject (g.unfold (.obj i))).parts := by
    rw [ofObject_unfold h, parts_plan]
    exact List.mem_map_of_mem hv
  obtain ⟨members, hm⟩ := g.exists_unfold_obj h
  rw [hm] at mem ⊢
  exact (Plan.ofObject_describes.inside _ mem).smaller

end Layout

/-! ## Reading with a table -/

/-- The nodes in a table are those of their trees. -/
def NodeTable.Reads (g : RawGraph) (t : NodeTable g.size) : Prop :=
  ∀ i x, t.find? i = some x → (g.unfold (.obj i)).reading = .ok x.shape

namespace Parsing

variable {g : RawGraph} {α β γ : Type}

/-- A reading gives what is expected, up to a view of its result. -/
def Gives (g : RawGraph) (t : NodeTable g.size) (x : Parsing g.size α) (view : α → β)
    (expected : Except SchemaError β) : Prop :=
  match outcome x t with
  | (.ok a, t') => expected = .ok (view a) ∧ t'.Reads g
  | (.error e, _) => expected = .error e

theorem Gives.pure {t : NodeTable g.size} (ht : t.Reads g) (a : α) (view : α → β) :
    Gives g t (Pure.pure a) view (.ok (view a)) := ⟨rfl, ht⟩

theorem Gives.lift {t : NodeTable g.size} (ht : t.Reads g) (x : Except SchemaError α) :
    Gives g t (liftM x) id x := by
  cases x with
  | ok a => exact ⟨rfl, ht⟩
  | error e => rfl

theorem Gives.bind {δ : Type} {t : NodeTable g.size} {x : Parsing g.size α} {view : α → β}
    {expected : Except SchemaError β} {f : α → Parsing g.size γ} {view' : γ → δ}
    {expected' : β → Except SchemaError δ} (hx : Gives g t x view expected)
    (hf : ∀ a t', expected = .ok (view a) → t'.Reads g →
      Gives g t' (f a) view' (expected' (view a))) :
    Gives g t (x >>= f) view' (expected >>= expected') := by
  unfold Gives at hx ⊢
  rw [outcome_bind]
  rcases hr : outcome x t with ⟨a | a, t'⟩
  · rw [hr] at hx
    rw [hx]
    rfl
  · rw [hr] at hx
    rw [hx.1]
    exact hf a t' hx.1 hx.2

theorem Gives.map {δ : Type} {t : NodeTable g.size} {x : Parsing g.size α} {view : α → β}
    {expected : Except SchemaError β} {f : α → γ} {view' : γ → δ} {f' : β → δ}
    (hx : Gives g t x view expected) (hf : ∀ a, view' (f a) = f' (view a)) :
    Gives g t (f <$> x) view' (f' <$> expected) := by
  rw [map_eq_pure_bind, map_eq_pure_bind]
  refine hx.bind fun a t' _ ht' => ?_
  show Gives g t' (Pure.pure (f a)) view' (.ok (f' (view a)))
  rw [← hf]
  exact .pure ht' _ _

/-- An object that has been read is not read again. -/
theorem outcome_get {n : Nat} (t : NodeTable n) :
    outcome (get : Parsing n (NodeTable n)) t = (.ok t, t) := rfl

theorem parse_found {within : List (Fin g.size)} {i : Fin g.size} {t : NodeTable g.size}
    {x : Node g.size} (h : t.find? i = some x) :
    outcome (parse g within (.obj i)) t = (.ok x, t) := by
  rw [parse, outcome_bind, outcome_get]
  dsimp only
  rw [h]
  rfl

/-- An object that is neither read nor being read gets the node of its layout. -/
theorem parse_fresh {within : List (Fin g.size)} {i : Fin g.size} {t : NodeTable g.size}
    (h : t.find? i = none) (hi : i ∉ within) :
    outcome (parse g within (.obj i)) t
      = match outcome (parseLayout g i (i :: within) (Layout.ofObject g i)) t with
        | (.ok node, t') => (.ok node, t'.store i node)
        | (.error e, t') => (.error e, t') := by
  rw [parse, outcome_bind, outcome_get]
  dsimp only
  rw [h]
  dsimp only
  rw [dif_neg hi, outcome_bind]
  rcases outcome (parseLayout g i (i :: within) (Layout.ofObject g i)) t with ⟨a | a, t'⟩ <;> rfl

theorem parse_leaf {within : List (Fin g.size)} {raw : RawValue g.size} {t : NodeTable g.size}
    (h : ∀ i, raw = .obj i → False) :
    outcome (parse g within raw) t
      = (.ok (.scalar (.serial t.serial) .null .null), { t with serial := t.serial + 1 }) := by
  rw [parse]
  · rfl
  · exact h

theorem Reads.store {t : NodeTable g.size} (ht : t.Reads g) {i : Fin g.size} {x : Node g.size}
    (h : (g.unfold (.obj i)).reading = .ok x.shape) : (t.store i x).Reads g := by
  intro j y hy
  rw [NodeTable.find?_store] at hy
  split at hy
  · rename_i same
    cases hy
    exact same ▸ h
  · exact ht j y hy

theorem reading_leaf {raw : RawValue g.size} (h : ∀ i, raw = .obj i → False) :
    (g.unfold raw).reading = .ok (.scalar (.serial 0) .null .null) := by
  refine Value.reading_leaf fun members hm => ?_
  cases raw with
  | obj i => exact h i rfl
  | arr items =>
      rw [g.unfold_arr] at hm
      cases hm
  | _ => simp at hm

/-- A reader gives nodes with the shapes of their trees, for values that are smaller than the objects
`within`. -/
def GivesTrees (g : RawGraph) (within : List (Fin g.size))
    (read : RawValue g.size → Parsing g.size (Node g.size)) : Prop :=
  ∀ {raw : RawValue g.size} {t : NodeTable g.size}, g.Acyclic raw →
    (∀ j ∈ within, sizeOf (g.unfold raw) < sizeOf (g.unfold (.obj j))) → t.Reads g →
    Gives g t (read raw) Node.shape (g.unfold raw).reading

section

variable {within : List (Fin g.size)} {read : RawValue g.size → Parsing g.size (Node g.size)}
  {t : NodeTable g.size}

theorem GivesTrees.items (gives : GivesTrees g within read) {items : List (RawValue g.size)}
    (acyclic : ∀ v ∈ items, g.Acyclic v)
    (outside : ∀ v ∈ items, ∀ j ∈ within, sizeOf (g.unfold v) < sizeOf (g.unfold (.obj j)))
    (ht : t.Reads g) :
    Gives g t (itemsWith read items) (List.map Node.shape)
      ((items.map g.unfold).mapM Value.reading) := by
  induction items generalizing t with
  | nil => exact .pure ht [] (List.map Node.shape)
  | cons raw rest ih =>
      obtain ⟨hraw, hrest⟩ := List.forall_mem_cons.mp acyclic
      obtain ⟨oraw, orest⟩ := List.forall_mem_cons.mp outside
      rw [itemsWith, List.map_cons, List.mapM_cons]
      refine (gives hraw oraw ht).bind fun x t₁ _ ht₁ => ?_
      refine (ih hrest orest ht₁).bind fun xs t₂ _ ht₂ => ?_
      exact .pure ht₂ (x :: xs) (List.map Node.shape)

theorem GivesTrees.members (gives : GivesTrees g within read)
    {ms : List (String × RawValue g.size)} (acyclic : ∀ p ∈ ms, g.Acyclic p.2)
    (outside : ∀ p ∈ ms, ∀ j ∈ within, sizeOf (g.unfold p.2) < sizeOf (g.unfold (.obj j)))
    (ht : t.Reads g) :
    Gives g t (membersWith read ms) (Keyed.mapEntries Node.shape)
      ((Keyed.mapEntries g.unfold ms).mapM fun p => return (p.1, ← p.2.reading)) := by
  induction ms generalizing t with
  | nil => exact .pure ht [] (Keyed.mapEntries Node.shape)
  | cons m rest ih =>
      obtain ⟨k, raw⟩ := m
      obtain ⟨hraw, hrest⟩ := List.forall_mem_cons.mp acyclic
      obtain ⟨oraw, orest⟩ := List.forall_mem_cons.mp outside
      rw [membersWith, Keyed.mapEntries_cons, List.mapM_cons, bind_assoc]
      refine (gives hraw oraw ht).bind fun x t₁ _ ht₁ => ?_
      rw [pure_bind]
      refine (ih hrest orest ht₁).bind fun xs t₂ _ ht₂ => ?_
      exact .pure ht₂ ((k, x) :: xs) (Keyed.mapEntries Node.shape)

theorem GivesTrees.layout (gives : GivesTrees g within read) {i : Fin g.size}
    {layout : Layout g.size} (acyclic : ∀ v ∈ layout.parts, g.Acyclic v)
    (outside : ∀ v ∈ layout.parts, ∀ j ∈ within,
      sizeOf (g.unfold v) < sizeOf (g.unfold (.obj j)))
    (ht : t.Reads g) :
    Gives g t (layoutWith read i layout) Node.shape (layout.plan.shapeBy Value.reading) := by
  match layout with
  | .composite kind branches =>
      have acyclic : ∀ v ∈ branches, g.Acyclic v := acyclic
      have outside : ∀ v ∈ branches, _ := outside
      refine (gives.items acyclic outside ht).bind fun xs t' _ ht' => ?_
      rw [← Node.shape_composite i kind xs]
      exact .pure ht' _ Node.shape
  | .enumeration values type => exact .pure ht _ Node.shape
  | .array none => exact .pure ht _ Node.shape
  | .array (some items) =>
      have mem : items ∈ (Layout.array (some items)).parts := List.mem_singleton_self items
      refine (gives (acyclic _ mem) (outside _ mem) ht).bind fun x t' _ ht' => ?_
      have node := Gives.pure ht' (Node.array i (some x)) Node.shape
      rwa [Node.shape_array] at node
  | .scalar type format => exact .pure ht _ Node.shape
  | .object properties required additional other =>
      have props : ∀ p ∈ properties, p.2 ∈ (Layout.object properties required additional other).parts :=
        fun p hp => List.mem_append_left _ (List.mem_map_of_mem hp)
      have rest {t : NodeTable g.size} (ht : t.Reads g) (additional : Option (Node g.size)) :
          Gives g t (do
            let properties ← membersWith read properties
            let required ← (required : Parsing g.size (List String))
            return .object (.parsed i) properties required additional other) Node.shape (do
              let properties ← (Keyed.mapEntries g.unfold properties).mapM fun p =>
                return (p.1, ← p.2.reading)
              let required ← required
              return .object (.parsed 0) properties required (additional.map Node.shape) other) := by
        refine (gives.members (fun p hp => acyclic _ (props p hp))
          (fun p hp => outside _ (props p hp)) ht).bind fun properties t₁ _ ht₁ => ?_
        refine (Gives.lift ht₁ required).bind fun required t₂ _ ht₂ => ?_
        have node := Gives.pure ht₂
          (Node.object (.parsed i) properties required additional other) Node.shape
        rwa [Node.shape_object] at node
      cases additional with
      | none => exact rest ht none
      | some raw =>
          have mem : raw ∈ (Layout.object properties required (some raw) other).parts :=
            List.mem_append_right _ (List.mem_singleton_self raw)
          have extra : Gives g t (some <$> read raw) (Option.map Node.shape)
              (some <$> (g.unfold raw).reading) :=
            (gives (acyclic _ mem) (outside _ mem) ht).map fun _ => rfl
          exact extra.bind fun additional t' _ ht' => rest ht' additional

end

/-- Without cycles the node of a value has the shape of its tree. -/
theorem parse_gives (within : List (Fin g.size)) : GivesTrees g within (parse g within) := by
  induction within using entering_induction with
  | step within ih =>
      intro raw t acyclic outside ht
      by_cases leaf : ∀ i, raw = .obj i → False
      · rw [Gives, parse_leaf leaf]
        exact ⟨reading_leaf leaf, ht⟩
      · obtain ⟨i, rfl⟩ : ∃ i, raw = .obj i := by simpa using leaf
        have hi : i ∉ within := fun hi => Nat.lt_irrefl _ (outside i hi)
        cases found : t.find? i with
        | some x =>
            rw [Gives, parse_found found]
            exact ⟨ht i x found, ht⟩
        | none =>
            have inner : ∀ v ∈ (Layout.ofObject g i).parts, ∀ j ∈ i :: within,
                sizeOf (g.unfold v) < sizeOf (g.unfold (.obj j)) := by
              intro v hv
              have smaller := Layout.sizeOf_part_lt acyclic hv
              exact List.forall_mem_cons.mpr
                ⟨smaller, fun j hj => Nat.lt_trans smaller (outside j hj)⟩
            have gives : GivesTrees g (i :: within) _ := ih i hi
            have layout := gives.layout (i := i) (Layout.ofObject_acyclic acyclic) inner ht
            have tree : (Layout.ofObject g i).plan.shapeBy Value.reading
                = (g.unfold (.obj i)).reading := by
              rw [← Layout.ofObject_unfold acyclic]
              obtain ⟨members, hm⟩ := g.exists_unfold_obj acyclic
              rw [hm, reading_obj]
            rw [tree, ← parseLayout_eq, Gives] at layout
            rw [Gives, parse_fresh found hi]
            rcases hr : outcome (parseLayout g i (i :: within) (Layout.ofObject g i)) t
              with ⟨a | a, t'⟩
            · rw [hr] at layout
              exact layout
            · rw [hr] at layout
              exact ⟨layout.1, Reads.store layout.2 layout.1⟩

/-- A reading ends as the tree says. -/
theorem run_gives {raw : RawValue g.size} {t : NodeTable g.size} (acyclic : g.Acyclic raw)
    (ht : t.Reads g) : Gives g t (parse g [] raw) Node.shape (g.unfold raw).reading :=
  parse_gives [] acyclic (by simp) ht

end Parsing

end ResourceGraph
