import ResourceGraph.Proofs.Schema.References

/-!
# The objects that are expanded

A reading that notes every raw object whose keywords it reads, and that reads the same. What it
notes are exactly the objects that get a node, each of them once, over any number of readings with
one table.
-/

namespace ResourceGraph

variable {n : Nat}

/-- A reading that notes the objects it expands. -/
abbrev Tracing (n : Nat) (α : Type) :=
  ExceptT SchemaError (StateM (NodeTable n × List (Fin n))) α

namespace Tracing

/-- A reading that expands nothing. -/
def silent {α : Type} (x : Parsing n α) : Tracing n α :=
  fun (t, es) => ((Parsing.outcome x t).1, ((Parsing.outcome x t).2, es))

def note (i : Fin n) : Tracing n Unit := modify fun (t, es) => (t, es ++ [i])

variable (g : RawGraph)

mutual

def parse (within : List (Fin g.size)) (raw : RawValue g.size) : Tracing g.size (Node g.size) :=
  match raw with
  | .obj i => do
    match (← silent get).find? i with
    | some node => return node
    | none =>
      if h : i ∈ within then return .ref (← silent Parsing.nextSerial) i
      else
        have := unseenFin_cons_lt h
        note i
        let node ← parseLayout i (i :: within) (Layout.ofObject g i)
        silent (modify (·.store i node))
        return node
  | _ => return .scalar (.serial (← silent Parsing.nextSerial)) .null .null
termination_by (unseenFin within, 0)

def parseLayout (i : Fin g.size) (within : List (Fin g.size)) (layout : Layout g.size) :
    Tracing g.size (Node g.size) :=
  match layout with
  | .composite kind branches => return .composite i kind (← parseItems within branches)
  | .enumeration values type => return .enumeration i values type
  | .array none => return .array i none
  | .array (some items) => return .array i (some (← parse within items))
  | .object properties required additional otherAdditional => do
    let additional ←
      match additional with
      | none => pure none
      | some raw => some <$> parse within raw
    let properties ← parseMembers within properties
    let required ← silent (required : Parsing g.size (List String))
    return .object (.parsed i) properties required additional otherAdditional
  | .scalar type format => return .scalar (.parsed i) type format
termination_by (unseenFin within, 2 + sizeOf layout)
decreasing_by all_goals simp_wf; omega

def parseItems (within : List (Fin g.size)) (items : List (RawValue g.size)) :
    Tracing g.size (List (Node g.size)) :=
  match items with
  | [] => return []
  | raw :: rest => return (← parse within raw) :: (← parseItems within rest)
termination_by (unseenFin within, 1 + sizeOf items)

def parseMembers (within : List (Fin g.size)) (ms : List (String × RawValue g.size)) :
    Tracing g.size (List (String × Node g.size)) :=
  match ms with
  | [] => return []
  | (k, raw) :: rest => return (k, ← parse within raw) :: (← parseMembers within rest)
termination_by (unseenFin within, 1 + sizeOf ms)

end

/-! ## The same readings -/

/-- How a reading ends, with the objects noted. -/
abbrev outcome {α : Type} (x : Tracing n α) (t : NodeTable n) (es : List (Fin n)) :
    Except SchemaError α × (NodeTable n × List (Fin n)) := ExceptT.run x (t, es)

/-- Without its notes a reading is the other one. -/
def Erases {α : Type} (x : Tracing n α) (y : Parsing n α) : Prop :=
  ∀ t es, ((outcome x t es).1, (outcome x t es).2.1) = Parsing.outcome y t

theorem erases_silent {α : Type} (y : Parsing n α) : Erases (silent y) y := fun _ _ => rfl

theorem erases_pure {α : Type} (a : α) : Erases (n := n) (pure a) (pure a) := fun _ _ => rfl

theorem outcome_bind {α β : Type} (x : Tracing n α) (f : α → Tracing n β) (t : NodeTable n)
    (es : List (Fin n)) : outcome (x >>= f) t es = match outcome x t es with
      | (.ok a, (t', es')) => outcome (f a) t' es'
      | (.error e, s) => (.error e, s) := by
  show outcome (ExceptT.bind x f) t es = _
  simp only [outcome, ExceptT.run, ExceptT.bind, ExceptT.mk, bind, StateT.bind]
  rcases x (t, es) with ⟨r, s⟩
  cases r <;> rfl

theorem Erases.bind {α β : Type} {x : Tracing n α} {y : Parsing n α} {f : α → Tracing n β}
    {h : α → Parsing n β} (hx : Erases x y) (hf : ∀ a, Erases (f a) (h a)) :
    Erases (x >>= f) (y >>= h) := by
  intro t es
  rw [Parsing.outcome_bind, ← hx t es, outcome_bind]
  rcases outcome x t es with ⟨a | a, t', es'⟩
  · rfl
  · exact hf a t' es'

theorem Erases.map {α β : Type} {x : Tracing n α} {y : Parsing n α} (hx : Erases x y) (f : α → β) :
    Erases (f <$> x) (f <$> y) := by
  rw [map_eq_pure_bind, map_eq_pure_bind]
  exact hx.bind fun a => erases_pure (f a)

/-- A note changes nothing of the reading after it. -/
theorem Erases.note {α : Type} {i : Fin n} {x : Tracing n α} {y : Parsing n α} (hx : Erases x y) :
    Erases (note i >>= fun _ => x) y := fun t es => hx t (es ++ [i])

variable {g}

mutual

theorem parse_erases (within : List (Fin g.size)) (raw : RawValue g.size) :
    Erases (parse g within raw) (Parsing.parse g within raw) := by
  cases raw with
  | obj i =>
      rw [parse, Parsing.parse]
      refine (erases_silent _).bind fun t => ?_
      cases t.find? i with
      | some x => exact erases_pure x
      | none =>
          dsimp only
          split
          · exact (erases_silent _).bind fun k => erases_pure _
          · rename_i hi
            have := unseenFin_cons_lt hi
            exact ((parseLayout_erases i _ _).bind fun x =>
              (erases_silent _).bind fun _ => erases_pure x).note
  | _ =>
      rw [parse, Parsing.parse]
      · exact (erases_silent _).bind fun k => erases_pure _
      all_goals exact fun i => nofun
termination_by (unseenFin within, 0)
decreasing_by all_goals decreasing_with omega

theorem parseLayout_erases (i : Fin g.size) (within : List (Fin g.size)) (layout : Layout g.size) :
    Erases (parseLayout g i within layout) (Parsing.parseLayout g i within layout) := by
  match layout with
  | .composite kind branches =>
      rw [parseLayout, Parsing.parseLayout]
      exact (parseItems_erases within branches).bind fun xs => erases_pure _
  | .enumeration values type =>
      rw [parseLayout, Parsing.parseLayout]
      exact erases_pure _
  | .array none =>
      rw [parseLayout, Parsing.parseLayout]
      exact erases_pure _
  | .array (some items) =>
      rw [parseLayout, Parsing.parseLayout]
      exact (parse_erases within items).bind fun x => erases_pure _
  | .object properties required additional other =>
      rw [parseLayout.eq_def, Parsing.parseLayout.eq_def]
      have rest (extra : Option (Node g.size)) :=
        (parseMembers_erases within properties).bind fun ps =>
          (erases_silent (liftM required)).bind fun req =>
            erases_pure (Node.object (.parsed i) ps req extra other)
      cases additional with
      | none => exact (erases_pure none).bind rest
      | some raw => exact ((parse_erases within raw).map some).bind rest
  | .scalar type format =>
      rw [parseLayout, Parsing.parseLayout]
      exact erases_pure _
termination_by (unseenFin within, 2 + sizeOf layout)
decreasing_by all_goals simp_wf; omega

theorem parseItems_erases (within : List (Fin g.size)) (items : List (RawValue g.size)) :
    Erases (parseItems g within items) (Parsing.parseItems g within items) := by
  match items with
  | [] =>
      rw [parseItems, Parsing.parseItems]
      exact erases_pure []
  | raw :: rest =>
      rw [parseItems, Parsing.parseItems]
      exact (parse_erases within raw).bind fun x =>
        (parseItems_erases within rest).bind fun xs => erases_pure (x :: xs)
termination_by (unseenFin within, 1 + sizeOf items)
decreasing_by all_goals decreasing_with omega

theorem parseMembers_erases (within : List (Fin g.size)) (ms : List (String × RawValue g.size)) :
    Erases (parseMembers g within ms) (Parsing.parseMembers g within ms) := by
  match ms with
  | [] =>
      rw [parseMembers, Parsing.parseMembers]
      exact erases_pure []
  | (k, raw) :: rest =>
      rw [parseMembers, Parsing.parseMembers]
      exact (parse_erases within raw).bind fun x =>
        (parseMembers_erases within rest).bind fun xs => erases_pure ((k, x) :: xs)
termination_by (unseenFin within, 1 + sizeOf ms)
decreasing_by all_goals decreasing_with omega

end

/-! ## What is noted -/

/-- The objects `new` are those that have got a node; none is being read, and none is there twice. -/
structure Expands (within : List (Fin n)) (t t' : NodeTable n) (new : List (Fin n)) : Prop where
  keeps : t.Extends t'
  nodup : new.Nodup
  outside : ∀ i ∈ new, i ∉ within
  exactly : ∀ i, i ∈ new ↔ t.find? i = none ∧ ∃ x, t'.find? i = some x

namespace Expands

variable {within : List (Fin n)} {t t' t'' : NodeTable n} {new new' : List (Fin n)}

theorem nothing (h : t'.nodes = t.nodes) : Expands within t t' [] := by
  have same (i : Fin n) : t'.find? i = t.find? i := congrArg (·[i]) h
  refine ⟨fun i x hx => (same i).trans hx, List.nodup_nil, by simp, fun i => ⟨by simp, ?_⟩⟩
  rintro ⟨none, x, hx⟩
  rw [same, none] at hx
  cases hx

theorem append (h : Expands within t t' new) (h' : Expands within t' t'' new') :
    Expands within t t'' (new ++ new') := by
  refine ⟨h.keeps.trans h'.keeps, ?_, ?_, fun i => ?_⟩
  · refine List.nodup_append.mpr ⟨h.nodup, h'.nodup, fun i hi j hj same => ?_⟩
    obtain ⟨-, x, hx⟩ := (h.exactly i).mp hi
    obtain ⟨none, -⟩ := (h'.exactly j).mp hj
    rw [← same, hx] at none
    cases none
  · intro i hi
    exact (List.mem_append.mp hi).elim (h.outside i) (h'.outside i)
  · rw [List.mem_append, h.exactly, h'.exactly]
    constructor
    · rintro (⟨none, x, hx⟩ | ⟨none, later⟩)
      · exact ⟨none, x, h'.keeps i x hx⟩
      · refine ⟨?_, later⟩
        cases before : t.find? i with
        | none => rfl
        | some x => exact absurd (h.keeps i x before) (none ▸ nofun)
    · rintro ⟨none, later⟩
      cases between : t'.find? i with
      | none => exact Or.inr ⟨rfl, later⟩
      | some x => exact Or.inl ⟨none, x, rfl⟩

/-- An object that is read to the end is noted before all that is read inside it. -/
theorem store {i : Fin n} (h : Expands (i :: within) t t' new) (none : t.find? i = none)
    (hi : i ∉ within) (x : Node n) : Expands within t (t'.store i x) (i :: new) := by
  have own : i ∉ new := fun mem => h.outside i mem (List.mem_cons_self ..)
  refine ⟨fun j y hy => ?_, List.nodup_cons.mpr ⟨own, h.nodup⟩, ?_, fun j => ?_⟩
  · rw [NodeTable.find?_store, if_neg]
    · exact h.keeps j y hy
    · rintro rfl
      rw [none] at hy
      cases hy
  · refine List.forall_mem_cons.mpr ⟨hi, fun j hj mem => ?_⟩
    exact h.outside j hj (List.mem_cons_of_mem i mem)
  · rw [List.mem_cons, h.exactly, NodeTable.find?_store]
    by_cases same : i = j
    · subst same
      simp [none]
    · rw [if_neg same, or_iff_right (Ne.symm same)]

end Expands

/-- A reading that succeeds notes the objects that get a node. -/
def Notes {α : Type} (within : List (Fin n)) (x : Tracing n α) : Prop :=
  ∀ t es a t' es', outcome x t es = (.ok a, (t', es')) →
    ∃ new, es' = es ++ new ∧ Expands within t t' new

theorem notes_pure {α : Type} (within : List (Fin n)) (a : α) :
    Notes within (pure a : Tracing n α) := by
  intro t es b t' es' h
  cases h
  exact ⟨[], (List.append_nil es).symm, .nothing rfl⟩

/-- What leaves the nodes as they are gives none. -/
theorem notes_silent {α : Type} (within : List (Fin n)) {x : Parsing n α}
    (h : ∀ t, (Parsing.outcome x t).2.nodes = t.nodes) : Notes within (silent x) := by
  intro t es a t' es' h'
  obtain ⟨-, rest⟩ := Prod.mk.inj h'
  obtain ⟨rfl, rfl⟩ := Prod.mk.inj rest
  exact ⟨[], (List.append_nil es).symm, .nothing (h t)⟩

theorem Notes.bind {α β : Type} {within : List (Fin n)} {x : Tracing n α} {f : α → Tracing n β}
    (hx : Notes within x) (hf : ∀ a, Notes within (f a)) : Notes within (x >>= f) := by
  intro t es b t'' es'' h
  rw [outcome_bind] at h
  rcases hr : outcome x t es with ⟨a | a, t', es'⟩
  · rw [hr] at h
    cases h
  · rw [hr] at h
    obtain ⟨new, rfl, first⟩ := hx t es a t' es' hr
    obtain ⟨new', rfl, second⟩ := hf a t' _ b t'' es'' h
    exact ⟨new ++ new', List.append_assoc .., first.append second⟩

theorem Notes.map {α β : Type} {within : List (Fin n)} {x : Tracing n α} (hx : Notes within x)
    (f : α → β) : Notes within (f <$> x) := by
  rw [map_eq_pure_bind]
  exact hx.bind fun a => notes_pure within (f a)

theorem notes_serial {α : Type} (within : List (Fin n)) (f : Nat → α) :
    Notes within (do return f (← silent Parsing.nextSerial) : Tracing n α) :=
  (notes_silent within fun _ => rfl).bind fun _ => notes_pure within _

mutual

theorem parse_notes (within : List (Fin g.size)) (raw : RawValue g.size) :
    Notes within (parse g within raw) := by
  cases raw with
  | obj i =>
      intro t es x t' es' h
      rw [parse, outcome_bind] at h
      change outcome (match t.find? i with | some node => _ | none => _) t es = _ at h
      cases found : t.find? i with
      | some y =>
          rw [found] at h
          exact notes_pure within y t es x t' es' h
      | none =>
          rw [found] at h
          dsimp only at h
          split at h
          · exact notes_serial within (.ref · i) t es x t' es' h
          · rename_i hi
            have := unseenFin_cons_lt hi
            rw [outcome_bind] at h
            change outcome (_ >>= _) t (es ++ [i]) = _ at h
            rw [outcome_bind] at h
            rcases hr : outcome (parseLayout g i (i :: within) (Layout.ofObject g i)) t (es ++ [i])
              with ⟨y | y, t₁, es₁⟩
            · rw [hr] at h
              cases h
            · rw [hr] at h
              cases h
              obtain ⟨new, rfl, expands⟩ := parseLayout_notes i _ _ _ _ _ _ _ hr
              exact ⟨i :: new, List.append_assoc .., expands.store found hi _⟩
  | _ =>
      rw [parse]
      · exact notes_serial within fun k => Node.scalar (.serial k) .null .null
      all_goals exact fun i => nofun
termination_by (unseenFin within, 0)
decreasing_by all_goals decreasing_with omega

theorem parseLayout_notes (i : Fin g.size) (within : List (Fin g.size)) (layout : Layout g.size) :
    Notes within (parseLayout g i within layout) := by
  match layout with
  | .composite kind branches =>
      rw [parseLayout]
      exact (parseItems_notes within branches).bind fun xs => notes_pure within _
  | .enumeration values type =>
      rw [parseLayout]
      exact notes_pure within _
  | .array none =>
      rw [parseLayout]
      exact notes_pure within _
  | .array (some items) =>
      rw [parseLayout]
      exact (parse_notes within items).bind fun x => notes_pure within _
  | .object properties required additional other =>
      rw [parseLayout.eq_def]
      have rest (extra : Option (Node g.size)) :=
        (parseMembers_notes within properties).bind fun ps =>
          (notes_silent within (x := liftM required) fun _ => rfl).bind fun req =>
            notes_pure within (Node.object (.parsed i) ps req extra other)
      cases additional with
      | none => exact (notes_pure within none).bind rest
      | some raw => exact ((parse_notes within raw).map some).bind rest
  | .scalar type format =>
      rw [parseLayout]
      exact notes_pure within _
termination_by (unseenFin within, 2 + sizeOf layout)
decreasing_by all_goals simp_wf; omega

theorem parseItems_notes (within : List (Fin g.size)) (items : List (RawValue g.size)) :
    Notes within (parseItems g within items) := by
  match items with
  | [] =>
      rw [parseItems]
      exact notes_pure within []
  | raw :: rest =>
      rw [parseItems]
      exact (parse_notes within raw).bind fun x =>
        (parseItems_notes within rest).bind fun xs => notes_pure within (x :: xs)
termination_by (unseenFin within, 1 + sizeOf items)
decreasing_by all_goals decreasing_with omega

theorem parseMembers_notes (within : List (Fin g.size)) (ms : List (String × RawValue g.size)) :
    Notes within (parseMembers g within ms) := by
  match ms with
  | [] =>
      rw [parseMembers]
      exact notes_pure within []
  | (k, raw) :: rest =>
      rw [parseMembers]
      exact (parse_notes within raw).bind fun x =>
        (parseMembers_notes within rest).bind fun xs => notes_pure within ((k, x) :: xs)
termination_by (unseenFin within, 1 + sizeOf ms)
decreasing_by all_goals decreasing_with omega

end

/-! ## A sequence of readings -/

theorem readings_erases (raws : List (RawValue g.size)) :
    Erases (raws.mapM (parse g [])) (raws.mapM (Parsing.parse g [])) := by
  induction raws with
  | nil => exact erases_pure []
  | cons raw rest ih =>
      rw [List.mapM_cons, List.mapM_cons]
      exact (parse_erases [] raw).bind fun x => ih.bind fun xs => erases_pure (x :: xs)

theorem readings_notes (raws : List (RawValue g.size)) : Notes [] (raws.mapM (parse g [])) := by
  induction raws with
  | nil => exact notes_pure [] []
  | cons raw rest ih =>
      rw [List.mapM_cons]
      exact (parse_notes [] raw).bind fun x => ih.bind fun xs => notes_pure [] (x :: xs)

/-- A sequence of readings expands exactly the objects that have a node in the end, each once. -/
theorem readings_expand {raws : List (RawValue g.size)} {nodes : List (Node g.size)}
    {t : NodeTable g.size} (h : Parsing.outcome (raws.mapM (Parsing.parse g [])) .empty
      = (.ok nodes, t)) :
    ∃ trace, outcome (raws.mapM (parse g [])) .empty [] = (.ok nodes, (t, trace)) ∧
      trace.Nodup ∧ ∀ i, i ∈ trace ↔ ∃ x, t.find? i = some x := by
  have erased := readings_erases raws .empty []
  rw [h] at erased
  obtain ⟨node, table⟩ := Prod.mk.inj erased
  have run : outcome (raws.mapM (parse g [])) .empty []
      = (.ok nodes, (t, (outcome (raws.mapM (parse g [])) .empty []).2.2)) :=
    Prod.ext node (Prod.ext table rfl)
  obtain ⟨new, trace, expands⟩ := readings_notes raws _ _ _ _ _ run
  rw [List.nil_append] at trace
  rw [trace] at run
  refine ⟨new, run, expands.nodup, fun i => ?_⟩
  rw [expands.exactly, NodeTable.find?_empty, and_iff_right rfl]

end Tracing

end ResourceGraph
