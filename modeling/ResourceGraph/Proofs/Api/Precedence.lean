import ResourceGraph.Proofs.Api.Alarms
import ResourceGraph.Proofs.Api.Evaluation
import ResourceGraph.Proofs.Api.Sharing
import ResourceGraph.Proofs.Schema.Depth

/-!
# Definitions before their users

Without cycles an object is never equal to one that is under construction around it, since it is not
as deep. So a name that may be used again is defined already, and each object type is added after
the object types of its fields.
-/

namespace ResourceGraph

variable {n : Nat}

/-! ## Depth of sources -/

namespace Source

def depth : Source n → Nat
  | .node x => x.depth
  | _ => 0

/-- Sources that count as the same are of one depth. -/
theorem depth_le_of_same {t : NodeTable n} (sound : t.Sound []) {s s' : Source n}
    (hs : s.Stands t) (hs' : s'.Stands t) (same : s.same s' = true) : s.depth ≤ s'.depth := by
  cases s with
  | node x =>
      cases s' with
      | node y => exact NodeTable.depth_le_of_same sound hs.1.yields hs'.1.yields hs.2 same
      | _ => cases same
  | _ => exact Nat.zero_le _

end Source

/-! ## Records in order -/

namespace Event

/-- The names of the definitions on a record. -/
abbrev defined (es : List (Event n)) : List String := (added es).map (·.1)

theorem defined_mono {es es' : List (Event n)} (h : es <+: es') : defined es ⊆ defined es' :=
  ((h.filterMap added?).map (·.1)).subset

/-- The type of a field is a scalar, or it is defined on the record. -/
def Known (es : List (Event n)) (typeName : String) : Prop :=
  typeName ∈ scalarNames ∨ typeName ∈ defined es

theorem Known.mono {es es' : List (Event n)} (h : es <+: es') {s : String} (known : Known es s) :
    Known es' s :=
  known.imp_right fun mem => defined_mono h mem

/-- An event that relies only on what was defined before: a name that is used again, and the types
of the fields of an object type. -/
def Timely (es : List (Event n)) : Event n → Prop
  | .request name _ _ (.ok true) => name ∈ defined es
  | .type d => d.isInput = false → ∀ f ∈ d.fields, Known es f.typeName
  | _ => True

/-- Every event relies only on what is before it. -/
def Orderly (es : List (Event n)) : Prop := ∀ before e, before ++ [e] <+: es → Timely before e

theorem Orderly.concat {es : List (Event n)} {e : Event n} (h : Orderly es) (timely : Timely es e) :
    Orderly (es ++ [e]) := by
  intro before e' listed
  rcases List.prefix_concat_iff.mp listed with same | listed
  · obtain ⟨rfl, last⟩ := List.append_inj' same rfl
    cases last
    exact timely
  · exact h before e' listed

/-- What a record was continued to: it is as orderly as before, and what was claimed since then is
defined. -/
structure Continues (es es' : List (Event n)) : Prop where
  more : es <+: es'
  orderly : Orderly es → Orderly es'
  closed : ∀ name kind source, .request name kind source (.ok false) ∈ es' →
    .request name kind source (.ok false) ∈ es ∨ name ∈ defined es'

variable {es es' es'' : List (Event n)}

theorem Continues.refl (es : List (Event n)) : Continues es es :=
  ⟨List.prefix_refl es, id, fun _ _ _ => Or.inl⟩

theorem Continues.trans (h : Continues es es') (h' : Continues es' es'') : Continues es es'' where
  more := h.more.trans h'.more
  orderly := h'.orderly ∘ h.orderly
  closed name kind source listed := by
    rcases h'.closed _ _ _ listed with listed | known
    · exact (h.closed _ _ _ listed).imp_right fun known => defined_mono h'.more known
    · exact Or.inr known

/-- An event that claims nothing. -/
theorem Continues.concat {e : Event n} (timely : Timely es e)
    (claims : ∀ name kind source, e ≠ .request name kind source (.ok false)) :
    Continues es (es ++ [e]) where
  more := List.prefix_append _ _
  orderly orderly := orderly.concat timely
  closed name kind source listed := by
    rcases List.mem_append.mp listed with listed | last
    · exact Or.inl listed
    · exact absurd (List.mem_singleton.mp last).symm (claims name kind source)

/-- A claim that is followed by its definition. -/
theorem Continues.claim {name kind : String} {source : Source n}
    (h : Continues (es ++ [.request name kind source (.ok false)]) es')
    (known : name ∈ defined es') : Continues es es' where
  more := (List.prefix_append _ _).trans h.more
  orderly orderly := h.orderly (orderly.concat trivial)
  closed name' kind' source' listed := by
    rcases h.closed _ _ _ listed with listed | known'
    · rcases List.mem_append.mp listed with listed | last
      · exact Or.inl listed
      · cases List.mem_singleton.mp last
        exact Or.inr known
    · exact Or.inr known'

/-! ## What is under construction -/

/-- What was claimed and is not defined stands in the table, and is at least that deep. -/
def Pending (t : NodeTable n) (bound : Nat) (es : List (Event n)) : Prop :=
  ∀ name kind source, .request name kind source (.ok false) ∈ es →
    name ∈ defined es ∨ source.Stands t ∧ bound ≤ source.depth

variable {t : NodeTable n} {bound : Nat} {name kind : String} {source : Source n}

theorem Pending.continues (pending : Pending t bound es) (h : Continues es es') :
    Pending t bound es' := by
  intro name kind source listed
  rcases h.closed _ _ _ listed with listed | known
  · exact (pending _ _ _ listed).imp_left fun known => defined_mono h.more known
  · exact Or.inl known

/-- Nothing is pending on a record that was continued from the beginning. -/
theorem Continues.pending (h : Continues [] es) (t : NodeTable n) (bound : Nat) :
    Pending t bound es :=
  fun name kind source listed => Or.inl ((h.closed name kind source listed).resolve_left nofun)

/-- A claim is as deep as its source. -/
theorem Pending.claim (pending : Pending t bound es) (stands : source.Stands t)
    (lower : source.depth < bound) :
    Pending t source.depth (es ++ [.request name kind source (.ok false)]) := by
  intro name' kind' source' listed
  rcases List.mem_append.mp listed with listed | last
  · rcases pending _ _ _ listed with known | ⟨stands', deep⟩
    · exact Or.inl (defined_mono (List.prefix_append _ _) known)
    · exact Or.inr ⟨stands', Nat.le_trans (Nat.le_of_lt lower) deep⟩
  · cases List.mem_singleton.mp last
    exact Or.inr ⟨stands, Nat.le_refl _⟩

/-- What a name was claimed for is on the record. -/
theorem mem_of_find?_sources
    (h : Keyed.find? name (Registry.replay es).sources = some (kind, source)) :
    .request name kind source (.ok false) ∈ es := by
  induction es using List.reverseRecOn with
  | nil => cases h
  | append_singleton es e ih =>
      rw [Registry.replay_concat] at h
      have unchanged (same : ((Registry.replay es).act e).sources = (Registry.replay es).sources) :
          .request name kind source (.ok false) ∈ es ++ [e] :=
        List.mem_append_left _ (ih (same ▸ h))
      cases e with
      | request name' kind' source' answer =>
          rcases answer with c | known
          · exact unchanged rfl
          · cases known with
            | true => exact unchanged rfl
            | false =>
                change Keyed.find? name (Keyed.insert _ _ _) = _ at h
                rw [Keyed.find?_insert] at h
                split at h
                · rename_i same
                  cases h
                  subst same
                  exact List.mem_append_right _ (List.mem_singleton_self _)
                · exact List.mem_append_left _ (ih h)
      | _ => exact unchanged rfl

/-- A name that may be used for something less deep is defined. -/
theorem Pending.defined (sound : t.Sound []) (pending : Pending t bound es)
    (stands : source.Stands t) (lower : source.depth < bound)
    (h : (Registry.replay es).isClaimed name kind source = .ok true) : name ∈ defined es := by
  obtain ⟨existing, found, same⟩ := Registry.isClaimed_eq_true h
  rcases pending _ _ _ (mem_of_find?_sources found) with known | ⟨stands', deep⟩
  · exact known
  · have := Source.depth_le_of_same sound stands' stands same
    omega

end Event

/-! ## Compiling in order -/

namespace Recording

open Event

variable {α β : Type} {es : List (Event n)}

/-- If the compilation succeeds from the record, it continues it, and to its end the result is as
said. -/
def Leads (es : List (Event n)) (x : Recording n α) (Q : List (Event n) → α → Prop) : Prop :=
  ∀ a es', outcome x es = (.ok a, es') → Continues es es' ∧ Q es' a

variable {x : Recording n α} {Q : List (Event n) → α → Prop}

theorem leads_pure {a : α} (h : Q es a) : Leads es (pure a) Q := by
  intro a' es' ran
  cases ran
  exact ⟨.refl es, h⟩

theorem Leads.mono {R : List (Event n) → α → Prop} (hx : Leads es x Q)
    (h : ∀ es' a, Q es' a → R es' a) : Leads es x R :=
  fun a es' ran => (hx a es' ran).imp_right (h es' a)

theorem Leads.bind {f : α → Recording n β} {R : List (Event n) → β → Prop} (hx : Leads es x Q)
    (hf : ∀ a es', Continues es es' → Q es' a → Leads es' (f a) R) : Leads es (x >>= f) R := by
  intro b es'' ran
  rw [outcome_bind] at ran
  rcases first : outcome x es with ⟨e | a, es'⟩
  · rw [first] at ran
    cases ran
  · rw [first] at ran
    obtain ⟨continues, ha⟩ := hx a es' first
    obtain ⟨further, hb⟩ := hf a es' continues ha b es'' ran
    exact ⟨continues.trans further, hb⟩

theorem leads_look {y : Compiling n α}
    (h : ∀ a r, y.run (Registry.replay es) = .ok (a, r) → Q es a) : Leads es (look y) Q := by
  intro a es' ran
  change ((y.run (Registry.replay es)).map (·.1), es) = _ at ran
  rcases looked : y.run (Registry.replay es) with e | ⟨b, r⟩
  · rw [looked] at ran
    cases ran
  · rw [looked] at ran
    cases ran
    exact ⟨.refl es, h b r looked⟩

/-- Whatever it looks at, it leaves the record as it is. -/
theorem leads_any (y : Compiling n α) : Leads es (look y) fun _ _ => True :=
  leads_look fun _ _ _ => trivial

theorem leads_note {e : Event n} (timely : Timely es e)
    (claims : ∀ name kind source, e ≠ .request name kind source (.ok false)) :
    Leads es (note e) fun es' _ => es' = es ++ [e] := by
  intro u es' ran
  cases ran
  exact ⟨.concat timely claims, rfl⟩

section

variable {t : NodeTable n} {bound : Nat} {name kind : String}

/-- A name is requested for something less deep than what is under construction: it is defined
already, or it is claimed and has to be defined. -/
theorem leads_request (sound : t.Sound []) (pending : Pending t bound es) (source : Source n)
    (stands : source.Stands t) (lower : source.depth < bound) {f : Bool → Recording n α}
    (known : ∀ es', name ∈ defined es' → Leads es' (f true) Q)
    (fresh : ∀ es', es <+: es' → Pending t source.depth es' →
      Leads es' (f false) fun es'' a => name ∈ defined es'' ∧ Q es'' a) :
    Leads es (request name kind source >>= f) Q := by
  intro a es' ran
  rw [outcome_bind, outcome_request] at ran
  rcases answer : (Registry.replay es).answer name kind source with e | claimed
  · rw [answer] at ran
    cases ran
  · rw [answer] at ran
    cases claimed with
    | true =>
        have before := pending.defined sound stands lower (Registry.answer_eq_ok.mp answer)
        have continues : Continues es (es ++ [.request name kind source (.ok true)]) :=
          .concat before nofun
        obtain ⟨further, ha⟩ := known _ (defined_mono continues.more before) a es' ran
        exact ⟨continues.trans further, ha⟩
    | false =>
        obtain ⟨further, named, ha⟩ :=
          fresh _ (List.prefix_append _ _) (pending.claim stands lower) a es' ran
        exact ⟨further.claim named, ha⟩

/-- The type of a compiled field is known. -/
theorem leads_scalarName {x : Option (Node n)} (t : NodeTable n) :
    Leads es (look (Compiling.scalarName t x)) Known := by
  refine leads_look fun s r ran => Or.inl ?_
  exact scalarName_mem (Compiling.scalarName_eq_ok.mp ran).1

/-- A definition goes after what it relies on. -/
theorem leads_define {e : Event n} (timely : Timely es e) (adds : e.added?.map (·.1) = some name) :
    Leads es (note e) fun es' _ => name ∈ defined es' := by
  refine fun u es' ran => (leads_note timely ?_ u es' ran).imp_right fun same => ?_
  · rintro name kind source rfl
    cases adds
  · obtain ⟨named, added, rfl⟩ := Option.map_eq_some_iff.mp adds
    simp [same, added]

theorem leads_type {d : TypeDef}
    (known : d.isInput = false → ∀ f ∈ d.fields, Known es f.typeName) :
    Leads es (note (.type d)) fun es' _ => d.name ∈ defined es' :=
  leads_define known rfl

theorem compileEnum_leads (sound : t.Sound []) (pending : Pending t bound es) {id : Fin n}
    {values : List Value} {type : Value} (stands : t.Stands (.enumeration id values type))
    (lower : (Node.enumeration id values type).depth < bound) (name : String) :
    Leads es (compileEnum id values type name) Known := by
  unfold compileEnum
  split
  · exact leads_pure (Or.inl defaultScalar_mem)
  · refine (leads_any _).bind fun _ es' continues _ => ?_
    refine leads_request sound (pending.continues continues)
      (.node (.enumeration id values type)) ⟨stands, trivial⟩ lower
      (fun es' known => leads_pure (Or.inr known)) fun es' _ _ => ?_
    refine Leads.bind (leads_define trivial (congrArg some (EnumDef.ofValues_name name values)))
      fun _ es'' _ known => ?_
    exact leads_pure ⟨known, Or.inr known⟩

/-- The fields of an object type have known types, also where it gets one in place of none. -/
theorem known_withSomeField {fields : List Field} (known : ∀ f ∈ fields, Known es f.typeName) :
    ∀ f ∈ Compiling.withSomeField fields, Known es f.typeName := by
  unfold Compiling.withSomeField
  split
  · exact List.forall_mem_singleton.mpr (Or.inl defaultScalar_mem)
  · exact known

theorem known_appendField {fields : List Field} {field : Field}
    (known : ∀ f ∈ fields, Known es f.typeName) (also : Known es field.typeName) :
    ∀ f ∈ appendField fields field, Known es f.typeName := by
  unfold appendField
  split
  · exact known
  · exact List.forall_mem_append.mpr ⟨known, List.forall_mem_singleton.mpr also⟩

open Compiling (Encloses)

/-- A compiler of objects inside `visiting` adds object types when the types of their fields are
known. -/
def LeadsObjects (t : NodeTable n) (visiting : Visiting n) (object : Objects n) : Prop :=
  ∀ {es : List (Event n)} {bound : Nat} {z : Node n} {key properties required additional other},
    Pending t bound es → t.Grounded z →
    t.resolve z = some (.object key properties required additional other) →
    Encloses t visiting (sizeOf z) → z.depth < bound → ∀ name,
    Leads es (object key properties required additional other name) fun es' s =>
      s = name ∧ s ∈ defined es'

section

variable {visiting : Visiting n} {object : Objects n} {es : List (Event n)} {bound : Nat}

theorem LeadsObjects.type (leads : LeadsObjects t visiting object) (sound : t.Sound [])
    (pending : Pending t bound es) {z : Node n} (hz : t.Grounded z)
    (encloses : Encloses t visiting (sizeOf z)) (lower : z.depth < bound) (name : String) :
    Leads es (typeWith t object z name) Known := by
  unfold typeWith
  split
  · rename_i resolved
    have depth := Nat.lt_of_le_of_lt (NodeTable.depth_resolve_le hz resolved) lower
    exact compileEnum_leads sound pending ⟨z, hz, resolved⟩ depth name
  · rename_i resolved
    exact (leads pending hz resolved encloses lower name).mono fun es' s known => Or.inr known.2
  · exact leads_scalarName t

theorem LeadsObjects.field (leads : LeadsObjects t visiting object) (sound : t.Sound [])
    (pending : Pending t bound es) {z : Node n} (hz : t.Grounded z)
    (encloses : Encloses t visiting (sizeOf z)) (lower : z.depth < bound) (required : List String)
    (parent name : String) :
    Leads es (fieldWith t object required parent name z) fun es' field =>
      Known es' field.typeName := by
  unfold fieldWith
  dsimp only
  split
  · rename_i resolved
    have depth := Nat.lt_of_le_of_lt (NodeTable.depth_resolve_le hz resolved) lower
    exact (compileEnum_leads sound pending ⟨z, hz, resolved⟩ depth _).bind
      fun type es' _ known => leads_pure known
  · exact leads_pure (Or.inl defaultScalar_mem)
  · rename_i resolved
    obtain ⟨grounded, lt⟩ := NodeTable.resolve_items hz resolved
    have depth := Nat.lt_of_le_of_lt (NodeTable.depth_resolve_le hz resolved) lower
    have inner := Nat.lt_trans (Node.depth_lt (List.mem_singleton_self _)) depth
    exact (leads.type sound pending grounded (encloses.mono (Nat.le_of_lt lt)) inner _).bind
      fun type es' _ known => leads_pure known
  · rename_i resolved
    exact (leads pending hz resolved encloses lower _).bind
      fun type es' _ known => leads_pure (Or.inr known.2)
  · exact (leads_scalarName t).bind fun type es' _ known => leads_pure known

theorem LeadsObjects.fields (leads : LeadsObjects t visiting object) (sound : t.Sound [])
    (pending : Pending t bound es) {properties : List (String × Node n)}
    (inside : ∀ p ∈ properties,
      t.Grounded p.2 ∧ Encloses t visiting (sizeOf p.2) ∧ p.2.depth < bound)
    (required : List String) (parent : String) {fields : List Field}
    (known : ∀ f ∈ fields, Known es f.typeName) :
    Leads es (fieldsWith t object required parent properties fields) fun es' fields =>
      ∀ f ∈ fields, Known es' f.typeName := by
  induction properties generalizing es fields with
  | nil => exact leads_pure known
  | cons p rest ih =>
      obtain ⟨⟨hz, encloses, lower⟩, inside⟩ := List.forall_mem_cons.mp inside
      refine (leads.field sound pending hz encloses lower required parent p.1).bind
        fun field es' continues also => ?_
      exact ih (pending.continues continues) inside
        (known_appendField (fun f hf => (known f hf).mono continues.more) also)

end

/-- An object type is added when the types of its fields are known. -/
theorem compileObject_leads (sound : t.Sound []) (visiting : Visiting n) :
    LeadsObjects t visiting (compileObject t visiting) := by
  induction visiting using Compiling.visiting_induction with
  | step visiting ih =>
      intro es bound z key properties required additional other pending hz resolved encloses lower
        name
      obtain ⟨size, below⟩ := NodeTable.resolve_object hz resolved
      have depth := NodeTable.depth_resolve_le hz resolved
      rw [compileObject_eq, if_neg (encloses.not_mem size)]
      refine (leads_any _).bind fun _ es' continues _ => ?_
      refine leads_request sound (pending.continues continues)
        (.node (.object key properties required additional other)) ⟨⟨z, hz, resolved⟩, trivial⟩
        (Nat.lt_of_le_of_lt depth lower)
        (fun es' known => leads_pure ⟨rfl, known⟩) fun es' _ pending => ?_
      -- the object itself is now the least deep under construction, and its properties are less deep
      have inside : ∀ p ∈ properties, t.Grounded p.2 ∧
          Encloses t ((key, name) :: visiting) (sizeOf p.2) ∧
          p.2.depth < (Node.object key properties required additional other).depth := fun p hp =>
        ⟨(below p hp).1, encloses.cons size (below p hp).2 name,
          Node.depth_lt (List.mem_append_left _ (List.mem_map_of_mem hp))⟩
      have leads : LeadsObjects t ((key, name) :: visiting) _ :=
        ih key name (encloses.not_mem size)
      refine (leads.fields sound pending inside required name (by simp)).bind
        fun fields es₁ _ known => ?_
      refine Leads.bind (leads_type fun _ => known_withSomeField known) fun _ es₂ _ known => ?_
      exact leads_pure ⟨known, rfl, known⟩

theorem compileConnection_leads (sound : t.Sound []) (pending : Pending t bound es)
    (lower : 0 < bound) {typeName : String} (known : typeName ∈ defined es) :
    Leads es (compileConnection typeName) fun _ _ => True := by
  unfold compileConnection
  refine leads_request sound pending (.literal [.str "connection", .str typeName]) trivial lower
    (fun es' _ => leads_pure trivial) fun es' more _ => ?_
  refine Leads.mono (leads_type fun _ => ?_) fun es' _ known => ⟨known, trivial⟩
  have items : Known es' typeName := Or.inr (defined_mono more known)
  simpa [Compiling.connectionFields, Known, scalarNames] using items

theorem compileFilter_leads (sound : t.Sound []) (pending : Pending t bound es)
    (lower : 0 < bound) (properties : List (String × Node n)) (typeName : String) :
    Leads es (compileFilter t properties typeName) fun _ _ => True := by
  unfold compileFilter
  refine leads_request sound pending (.literal [.str "filter", .str typeName]) trivial lower
    (fun es' _ => leads_pure trivial) fun es' more _ => ?_
  refine (leads_any _).bind fun fields es' _ _ => ?_
  exact Leads.mono (leads_type nofun) fun es' _ known => ⟨known, trivial⟩

end

end Recording

/-! ## Resources -/

namespace Compilation

open Event Recording

variable {g : RawGraph} {o : CompileOptions}

theorem recordObject_leads {t : NodeTable g.size} (sound : t.Sound []) {es : List (Event g.size)}
    (continues : Continues [] es) {z : Node g.size} {key : ObjectKey g.size}
    {properties : List (String × Node g.size)} {required : List String}
    {additional : Option (Node g.size)} {other : Value} (hz : t.Grounded z)
    (resolved : t.resolve z = some (.object key properties required additional other))
    (names : ResourceNames) (resource : String) :
    Leads es (recordObject o t names resource key properties required additional other)
      fun _ _ => True := by
  -- nothing is under construction between two resources, so any bound will do
  have pending (es' : List (Event g.size)) (more : Continues es es') :
      Pending t (z.depth + 1) es' := (continues.trans more).pending t _
  unfold recordObject
  refine Leads.bind (compileObject_leads sound [] (pending es (.refl es)) hz resolved
    (by simp [Compiling.Encloses]) (Nat.lt_succ_self _) names.typeName) fun _ es₁ more known => ?_
  obtain ⟨rfl, known⟩ := known
  refine Leads.bind (compileConnection_leads sound (pending es₁ more) (Nat.succ_pos _) known)
    fun _ es₂ more' _ => ?_
  refine Leads.bind (compileFilter_leads sound (pending es₂ (more.trans more')) (Nat.succ_pos _)
    properties names.typeName) fun _ es₃ _ _ => ?_
  exact Leads.mono (leads_note trivial (by simp)) fun _ _ _ => trivial

/-- A compilation between two resources, with its record in order. -/
structure InOrder (c : Compilation g.size) (es : List (Event g.size)) : Prop where
  sound : c.table.Sound []
  reads : c.table.Reads g
  continues : Continues [] es

variable {c c' : Compilation g.size} {es es' : List (Event g.size)} {spec : ResourceSpec g.size}

theorem inOrder_initial : InOrder ({} : Compilation g.size) [] where
  sound := NodeTable.sound_empty []
  reads i x h := by simp at h
  continues := .refl []

theorem InOrder.recordMain (h : InOrder c es) {raw : RawValue g.size} (acyclic : g.Acyclic raw)
    (ran : recordMain o c es spec raw = (.ok c', es')) : InOrder c' es' := by
  unfold Compilation.recordMain at ran
  dsimp only at ran
  split at ran
  · cases ran
    exact ⟨h.sound, h.reads, h.continues⟩
  · split at ran
    · cases ran
    · rename_i node table read
      obtain ⟨-, reads, grounded⟩ := Parsing.run_grounded h.sound h.reads acyclic read
      have sound := (Parsing.run_grown h.sound read).1.sound
      split at ran
      · rename_i key properties required additional other resolved
        have leads := recordObject_leads (o := o) sound h.continues grounded resolved
          (ResourceNames.of o.naming spec.name) spec.name
        split at ran
        · cases ran
        · rename_i u es₁ added
          cases ran
          exact ⟨sound, reads, h.continues.trans (leads _ _ added).1⟩
      · cases ran
        exact ⟨sound, reads, h.continues⟩

theorem InOrder.recordResource (h : InOrder c es) (acyclic : ∀ p ∈ spec.schemas, g.Acyclic p.2)
    (ran : recordResource o c es spec = (.ok c', es')) : InOrder c' es' := by
  unfold Compilation.recordResource at ran
  split at ran
  · cases ran
    exact ⟨h.sound, h.reads, h.continues⟩
  · cases ran
    exact ⟨h.sound, h.reads, h.continues⟩
  · rename_i main
    obtain ⟨p, hp, rfl⟩ := exists_of_mainSchema? main
    exact h.recordMain (acyclic p hp) ran

theorem InOrder.recordResources {specs : List (ResourceSpec g.size)} (h : InOrder c es)
    (acyclic : ∀ spec ∈ specs, ∀ p ∈ spec.schemas, g.Acyclic p.2)
    (ran : recordResources o specs c es = (.ok c', es')) : InOrder c' es' := by
  induction specs generalizing c es with
  | nil =>
      cases ran
      exact h
  | cons spec rest ih =>
      obtain ⟨acyclic, acyclicRest⟩ := List.forall_mem_cons.mp acyclic
      rw [Compilation.recordResources] at ran
      rcases added : Compilation.recordResource o c es spec with ⟨e | c₁, es₁⟩
      · rw [added] at ran
        cases ran
      · rw [added] at ran
        exact ih (h.recordResource acyclic added) acyclicRest ran

end Compilation

/-! ## The order of object types -/

/-- Object types stand in dependency order: where the type of a field is an object type, it is
another one and stands before. -/
def Api.InDependencyOrder (a : Api) : Prop :=
  ∀ before p after, a.types = before ++ p :: after → ∀ f ∈ p.2.fields,
    f.typeName ∈ Keyed.keys a.types → f.typeName ≠ p.1 ∧ f.typeName ∈ Keyed.keys before

theorem Api.types_written_append (es es' : List (Event n)) :
    (written (es ++ es')).types = (written es).types ++ (written es').types := by
  simp only [written, List.filterMap_append, List.map_append]

namespace Event

variable {es : List (Event n)}

/-- An object type of the API is on the record after the ones before it. -/
theorem exists_of_types_written {before after : Keyed.Entries TypeDef} {p : String × TypeDef}
    (h : (Api.written es).types = before ++ p :: after) :
    ∃ earlier later, es = earlier ++ .type p.2 :: later ∧ p.2.name = p.1 ∧ p.2.isInput = false ∧
      (Api.written earlier).types = before := by
  obtain ⟨ds, rest, outputs, rfl, others⟩ := List.map_eq_append_iff.mp h
  obtain ⟨d, ds', rfl, rfl, -⟩ := List.map_eq_cons_iff.mp others
  obtain ⟨first, second, rfl, rfl, rest⟩ := List.filterMap_eq_append_iff.mp outputs
  obtain ⟨skipped, e, later, rfl, none, output, -⟩ := List.filterMap_eq_cons_iff.mp rest
  obtain ⟨rfl, isOutput⟩ : e = .type d ∧ d.isInput = false := by
    cases e with
    | type d' =>
        rw [output?] at output
        split at output
        · cases output
        · rename_i isOutput
          cases output
          exact ⟨rfl, Bool.eq_false_iff.mpr isOutput⟩
    | _ => cases output
  refine ⟨first ++ skipped, later, by simp, rfl, isOutput, ?_⟩
  have nothing : (Api.written skipped).types = [] :=
    congrArg (List.map _) (List.filterMap_eq_nil_iff.mpr none)
  rw [Api.types_written_append, nothing, List.append_nil]
  rfl

/-- Where every event relies only on what is before it, and no name is defined twice, object types
stand in dependency order. -/
theorem Orderly.written (orderly : Orderly es) (distinct : (defined es).Nodup)
    (legal : ∀ s ∈ Keyed.keys (Api.written es).types, s ∉ scalarNames) :
    (Api.written es).InDependencyOrder := by
  intro before p after listed f hf typed
  obtain ⟨earlier, later, rfl, named, isOutput, rfl⟩ := exists_of_types_written listed
  have timely : Timely earlier (.type p.2) := orderly earlier _ ⟨later, (List.append_cons ..).symm⟩
  have known : f.typeName ∈ defined earlier :=
    (timely isOutput f hf).resolve_left (legal _ typed)
  rw [defined, added, List.filterMap_append, List.map_append] at distinct
  have apart (s : String) (hs : s ∈ defined earlier) : s ∉ defined (.type p.2 :: later) :=
    fun hs' => (List.nodup_append.mp distinct).2.2 s hs s hs' rfl
  refine ⟨fun same => apart _ known ?_, ?_⟩
  · rw [same, ← named]
    exact List.mem_cons_self ..
  · rw [Api.types_written_append, Keyed.keys, List.map_append] at typed
    exact (List.mem_append.mp typed).resolve_right fun later =>
      apart _ known (Api.keys_types_written later)

end Event

variable {o : CompileOptions} {s : Specs}

/-- Without cycles the record of a compilation that succeeds is in order. -/
theorem record_orderly (acyclic : s.Acyclic) {api : Api} {log : List LogLine}
    (h : compile o s = .ok (api, log)) : Event.Orderly (record o s).2 := by
  have success : (record o s).1 = .ok (api, log) := (record_replays o s).1.symm.trans h
  rw [record_snd]
  rw [record] at success
  rcases ran : Compilation.recordResources o s.specs {} [] with ⟨e | c, es⟩
  · rw [ran] at success
    cases success
  · exact (Compilation.inOrder_initial.recordResources acyclic ran).continues.orderly
      fun before e listed => by simp at listed

/-- If no schema contains itself and the compilation succeeds, then object types stand in dependency
order: where the type of a field is an object type, it is another one and stands before. And
whenever the compilation asks for a name that it may use again, that name is done. -/
theorem compile_inDependencyOrder (o : CompileOptions) {s : Specs} (acyclic : s.Acyclic) {api : Api}
    {log : List LogLine} (h : compile o s = .ok (api, log)) :
    api.InDependencyOrder ∧ ∃ es, record o s = (compile o s, es) ∧
      ∀ before name kind source answer, before ++ [.request name kind source answer] <+: es →
        (Registry.replay before).answer name kind source = answer ∧
          (answer = .ok true → (Registry.replay before).state? name = some .done) := by
  have success : (record o s).1 = .ok (api, log) := (record_replays o s).1.symm.trans h
  have orderly := record_orderly acyclic h
  obtain ⟨t, -, requests⟩ := record_requests o s
  refine ⟨?_, (record o s).2, Prod.ext (record_replays o s).1.symm rfl, ?_⟩
  · have distinct := (record_tracks success).distinct
    have legal : ∀ name ∈ Keyed.keys api.types, name ∉ scalarNames := by
      obtain ⟨c, -, rfl, run⟩ := Assembly.compile_run h
      have consistent := (run.consistent Assembly.consistent_initial).registry
      have reserved : scalarNames ⊆ reservedTypeNames := by decide
      exact fun name listed scalar =>
        consistent.legal _ _ ((consistent.types name).mp listed).1 (reserved scalar)
    rw [compile_written h] at legal ⊢
    exact orderly.written distinct legal
  · intro before name kind source answer listed
    refine ⟨(requests before name kind source answer listed).1.answered, ?_⟩
    rintro rfl
    have known : name ∈ Event.defined before := orderly before _ listed
    obtain ⟨opened, tracks⟩ := (record_told ((List.prefix_append _ _).trans listed)).tracks
    exact tracks.done name known

/-- Persons with a line of their address, which is their address line as well. -/
def Specs.housed : Specs where
  graph :=
    { size := 6
      objects := #v[
        [("type", .str "object"), ("properties", .obj 1)],
        [("address", .obj 2), ("addressLine", .obj 4)],
        [("type", .str "object"), ("properties", .obj 3)],
        [("line", .obj 4)],
        [("type", .str "object"), ("properties", .obj 5)],
        []]
      nodup := by decide }
  specs := [{ name := "persons", schemas := [("Person", .obj 0)] }]

theorem Specs.housed_acyclic : Specs.housed.Acyclic :=
  fun _ _ _ _ => RawGraph.acyclic_of_forward (by decide) _

theorem compile_housed :
    (compile {} Specs.housed).map (fun c =>
        c.1.types.map fun p => (p.1, p.2.fields.map Field.typeName))
      = .ok [("PersonAddressLine", ["String"]), ("PersonAddress", ["PersonAddressLine"]),
          ("Person", ["PersonAddress", "PersonAddressLine"]),
          ("PersonConnection", ["Person", "Int", "Int", "Int", "Boolean"])] := by
  rw [compile_eq_upTo]
  decide +kernel

theorem housed_inDependencyOrder : Specs.housed.Acyclic ∧
    ∃ api log, compile {} Specs.housed = .ok (api, log) ∧
      api.types.map (fun p => (p.1, p.2.fields.map Field.typeName))
        = [("PersonAddressLine", ["String"]), ("PersonAddress", ["PersonAddressLine"]),
          ("Person", ["PersonAddress", "PersonAddressLine"]),
          ("PersonConnection", ["Person", "Int", "Int", "Int", "Boolean"])] ∧
      api.InDependencyOrder := by
  obtain ⟨⟨api, log⟩, hc, types⟩ := exists_of_map_eq_ok compile_housed
  exact ⟨Specs.housed_acyclic, api, log, hc, types,
    (compile_inDependencyOrder {} Specs.housed_acyclic hc).1⟩

end ResourceGraph
