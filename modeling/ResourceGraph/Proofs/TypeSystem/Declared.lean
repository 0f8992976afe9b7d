import ResourceGraph.Proofs.Api.Making
import ResourceGraph.Proofs.TypeSystem.Reading

/-!
# The type system of a compiled API

When the text of a compiled API can be read, every name in it is proper, and the type system has
each definition of the API under its name. A resource whose type has no name makes the text
unreadable, also where that type is first mentioned before it is defined.
-/

namespace ResourceGraph

open Query TypeSystem Query.Reader

variable {n : Nat}

/-! ## Texts of compiled APIs -/

theorem exists_first {α : Type} {P : α → Prop} {as : List α} (h : ∃ a ∈ as, P a) :
    ∃ good bad more, as = good ++ bad :: more ∧ P bad ∧ ∀ a ∈ good, ¬ P a := by
  induction as with
  | nil => simp at h
  | cons a as ih =>
      by_cases ha : P a
      · exact ⟨[], a, as, rfl, ha, by simp⟩
      · obtain ⟨b, hb, hP⟩ := h
        have later : ∃ b ∈ as, P b := by
          rcases List.mem_cons.mp hb with rfl | hb
          · exact absurd hP ha
          · exact ⟨b, hb, hP⟩
        obtain ⟨good, bad, more, rfl, hbad, hgood⟩ := ih later
        exact ⟨a :: good, bad, more, rfl, hbad, List.forall_mem_cons.mpr ⟨ha, hgood⟩⟩

/-- What is known of a finished compilation. -/
structure Registry.Finished (naming : Naming) (r : Registry n) : Prop where
  consistent : r.Consistent []
  made : r.Made
  named : ∃ t, Assembly.Named naming ⟨t, none, [], r⟩

theorem compile_finished {o : CompileOptions} {s : Specs} {api : Api} {log : List LogLine}
    (h : compile o s = .ok (api, log)) : ∃ c : Compilation s.graph.size,
      Compilation.addResources o s.specs {} = .ok c ∧ c.registry.api = api ∧
      c.registry.Finished o.naming := by
  obtain ⟨c, hc, hapi, run⟩ := Assembly.compile_run h
  exact ⟨c, hc, hapi, (run.consistent Assembly.consistent_initial).registry,
    run.made Registry.made_empty, c.table, run.named (Assembly.named_initial o.naming)⟩

namespace Registry.Finished

variable {naming : Naming} {r : Registry n}

theorem sound (h : r.Finished naming) : ∀ d ∈ r.api.definitions, d.Sound := by
  obtain ⟨t, named⟩ := h.named
  have wellFormed := h.consistent.wellFormed
  intro d hd
  simp only [Api.definitions, List.mem_append, List.mem_map, List.mem_cons, List.not_mem_nil,
    or_false] at hd
  rcases hd with ((⟨p, hp, rfl⟩ | ⟨p, hp, rfl⟩) | ⟨p, hp, rfl⟩) | rfl | rfl
  · exact ⟨wellFormed.someValue p hp, fun v hv => (named.values p hp v hv).2⟩
  · exact ⟨wellFormed.someField p (List.mem_append_left _ hp),
      fun _ f hf => ((h.made.types p hp).2 f hf).1⟩
  · exact ⟨wellFormed.someField p (List.mem_append_right _ hp),
      fun _ f hf => (h.made.inputs p hp).2 f hf⟩
  · exact ⟨by simp [Api.searchResultsType], fun input => by cases input⟩
  · exact ⟨by simp [Api.queryType], fun input => by cases input⟩

/-- An enumeration never has the name of a resource, so its own is proper. -/
theorem enum_named (h : r.Finished naming) {p : String × EnumDef} (hp : p ∈ r.api.enums) :
    Naming.isName p.1 = true := by
  obtain ⟨t, named⟩ := h.named
  have has := (h.consistent.enums p.1).mp (List.mem_map_of_mem hp)
  rcases named.claimed _ _ has with hn | ⟨names, root, -⟩ | ⟨a, ha, hname⟩
  · exact hn
  · cases root
  · exact absurd ((hname ▸ has).kind_unique (h.consistent.resources a ha).1) (by decide)

theorem words (h : r.Finished naming) : ∀ s ∈ r.api.names, IsWord s := by
  obtain ⟨t, named⟩ := h.named
  exact named.forall_names rfl h.consistent (fun _ hn => Or.inr hn)
    fun a ha => named.isWord (Or.inr (Or.inr ⟨a, ha, rfl⟩))

/-- The definition of an object type with an empty name in it cannot be read. -/
theorem fails_type (h : r.Finished naming) {p : String × TypeDef} (hp : p ∈ r.api.types)
    (unnamed : "" ∈ (Definition.type p.2).names) (depth : Nat) (ts : List Token) :
    Fails (typeDefinition (depth + 2) false) ((Definition.type p.2).tokens ++ ts) := by
  obtain ⟨t, named⟩ := h.named
  obtain ⟨output, fields⟩ := h.made.types p hp
  have fieldNamed : ∀ f ∈ p.2.fields, f.name ≠ "" := by
    intro f hf empty
    exact absurd (empty ▸ (named.outputs p hp f hf).1) (by decide)
  by_cases own : p.2.name = ""
  · have first : (Definition.type p.2).names.head? = some "" := congrArg some own
    exact fails_unnamed first ts
  · refine fails_object output own fieldNamed (fun f hf => (fields f hf).1) ?_ ts
    obtain ⟨f, hf, hs⟩ := List.mem_flatMap.mp
      ((List.mem_cons.mp unnamed).resolve_left fun he => own he.symm)
    refine ⟨f, hf, ?_⟩
    rw [Field.names, (fields f hf).1] at hs
    simp only [List.flatMap_nil, List.mem_cons, List.not_mem_nil, or_false] at hs
    exact (hs.resolve_left fun he => fieldNamed f hf he.symm).symm

/-- A resource whose type has no name makes the text of the API unreadable. -/
theorem read_fails (h : r.Finished naming) {a : Resource} (ha : a ∈ r.api.resources)
    (unnamed : a.typeName = "") : ∃ e, Document.read r.api.text = .error e := by
  obtain ⟨t, named⟩ := h.named
  have wellFormed := h.consistent.wellFormed
  have defined : a.typeName ∈ Keyed.keys r.api.types :=
    (h.consistent.types _).mpr ⟨(h.consistent.resources a ha).1, List.not_mem_nil⟩
  obtain ⟨d, hd⟩ := Keyed.exists_of_mem_keys defined
  have hd := Keyed.mem_of_find? hd
  have own : d.name = "" := (wellFormed.typeNames _ (List.mem_append_left _ hd)).trans unnamed
  have bad : ∃ p ∈ r.api.types, "" ∈ (Definition.type p.2).names :=
    ⟨_, hd, by rw [Definition.names, own]; exact List.mem_cons_self ..⟩
  obtain ⟨good, p, more, types, hp, hgood⟩ := exists_first bad
  have split : r.api.definitions
      = (r.api.enums.map (fun e => Definition.enum e.2) ++ good.map fun t => Definition.type t.2)
        ++ Definition.type p.2 ::
          (more.map (fun t => Definition.type t.2) ++ r.api.inputs.map (fun t => Definition.type t.2)
            ++ [Definition.type r.api.searchResultsType, Definition.type r.api.queryType]) := by
    simp [Api.definitions, types]
  refine Api.read_fails h.words split ?_ (h.fails_type (by simp [types]) hp)
  refine fun d hd => ⟨?_, h.sound d (split ▸ List.mem_append_left _ hd)⟩
  rintro s hs rfl
  rcases List.mem_append.mp hd with hd | hd
  · obtain ⟨e, he, rfl⟩ := List.mem_map.mp hd
    rcases List.mem_cons.mp hs with hs | hs
    · have proper := h.enum_named he
      rw [← wellFormed.enumNames e he, ← hs] at proper
      exact absurd proper (by decide)
    · obtain ⟨v, hv, hs⟩ := List.mem_map.mp hs
      exact absurd (hs ▸ (named.values e he v hv).1) (by decide)
  · obtain ⟨q, hq, rfl⟩ := List.mem_map.mp hd
    exact hgood q hq hs

/-- If the text of the API can be read then it reads back. -/
theorem reads_back (h : r.Finished naming) {doc : Document}
    (read : Document.read r.api.text = .ok doc) :
    List.Forall₂ Definition.Declares r.api.definitions doc.types ∧
      ∀ s ∈ r.api.names, Naming.isName s = true := by
  obtain ⟨t, named⟩ := h.named
  have typeNamed : ∀ a ∈ r.api.resources, Naming.isName a.typeName = true := by
    intro a ha
    rcases named.isWord (Or.inr (Or.inr ⟨a, ha, rfl⟩)) with empty | hn
    · obtain ⟨e, failed⟩ := h.read_fails ha empty
      cases read.symm.trans failed
    · exact hn
  have proper := named.forall_names rfl h.consistent (fun _ hn => hn) typeNamed
  obtain ⟨doc', read', declares⟩ := r.api.read_text proper h.sound
  cases read.symm.trans read'
  exact ⟨declares, proper⟩

end Registry.Finished

/-! ## Types of definitions -/

def Definition.name : Definition → String
  | .enum e => e.name
  | .type t => t.name

/-- The type that a definition stands for. -/
def Definition.namedType : Definition → NamedType
  | .enum e => .enum e.name (e.values.map fun v => { name := v.name })
  | .type t =>
    if t.isInput then .input t.name (t.fields.map Field.slot)
    else .object t.name (t.fields.map Field.output)

/-- A name that no type system has on its own. -/
def Free (name : String) : Prop :=
  Scalar.ofName? name = none ∧ introspectionTypes.find? (·.name == name) = none

theorem standard_of_free {name : String} (h : Free name) (t : NamedType) :
    namedType?.standard name t = t := by
  unfold namedType?.standard
  rw [h.1]
  dsimp only
  rw [h.2]
  rfl

theorem Definition.Declares.namedType? {d : Definition} {node : TypeDefinition}
    (h : d.Declares node) (free : Free d.name) :
    TypeSystem.namedType? node = some d.namedType := by
  cases d with
  | enum e =>
      cases node with
      | enum n vs =>
          obtain ⟨name, values⟩ := h
          have free : Free e.name := free
          have members : vs.map (fun v => ({ name := v.text } : EnumMember))
              = e.values.map fun v => { name := v.name } := by
            have same := congrArg (List.map fun s => ({ name := s } : EnumMember)) values
            rwa [List.map_map, List.map_map] at same
          rw [TypeSystem.namedType?, name, members, standard_of_free free]
          rfl
      | _ => cases h
  | type t =>
      cases node with
      | object n fs =>
          obtain ⟨output, name, fields⟩ := h
          have free : Free t.name := free
          rw [TypeSystem.namedType?, name, fields, standard_of_free free, Definition.namedType, output]
          rfl
      | input n fs =>
          obtain ⟨input, name, fields⟩ := h
          have free : Free t.name := free
          rw [TypeSystem.namedType?, name, fields, standard_of_free free, Definition.namedType, input]
          rfl
      | _ => cases h

theorem Definition.namedType_name (d : Definition) : d.namedType.name = d.name := by
  cases d with
  | enum e => rfl
  | type t =>
      rw [namedType]
      split <;> rfl

theorem find?_addMissing (k : String) (es : Keyed.Entries NamedType) (ts : List NamedType) :
    Keyed.find? k (addMissing es ts) = (Keyed.find? k es).or (ts.find? (·.name == k)) := by
  unfold addMissing
  induction ts generalizing es with
  | nil => simp
  | cons t ts ih =>
      rw [List.foldl_cons, ih, List.find?_cons]
      by_cases there : Keyed.hasKey t.name es = true
      · rw [if_pos there]
        by_cases hk : t.name = k
        · obtain ⟨u, hu⟩ := Keyed.exists_of_mem_keys (Keyed.hasKey_iff.mp there)
          rw [← hk, hu]
          rfl
        · rw [beq_false_of_ne hk]
      · rw [if_neg there, Keyed.find?_append, Keyed.find?_cons, Keyed.find?_nil, Option.or_assoc]
        by_cases hk : t.name = k
        · rw [if_pos hk.symm, beq_iff_eq.mpr hk]
          rfl
        · rw [if_neg (Ne.symm hk), beq_false_of_ne hk]
          rfl

/-- Every type with the scalars that it is given together with. -/
def withScalars (ts : List NamedType) : List NamedType := ts.flatMap fun t => t :: scalarsOf t

theorem find?_foldl_addMissing (k : String) (es : Keyed.Entries NamedType)
    (ts : List NamedType) :
    Keyed.find? k (ts.foldl (fun es t => addMissing es (t :: scalarsOf t)) es)
      = (Keyed.find? k es).or ((withScalars ts).find? (·.name == k)) := by
  induction ts generalizing es with
  | nil => simp [withScalars]
  | cons t ts ih =>
      rw [List.foldl_cons, ih, find?_addMissing, withScalars, withScalars, List.flatMap_cons,
        List.find?_append, Option.or_assoc]

/-- A type of its own comes first. -/
theorem type?_ofDefinitions (nodes : List TypeDefinition) (k : String) :
    (ofDefinitions nodes).type? k
      = ((withScalars (nodes.filterMap TypeSystem.namedType?)).find? (·.name == k)).or
        ((.scalar .boolean :: .scalar .string :: introspectionTypes).find? (·.name == k)) := by
  unfold type? ofDefinitions
  dsimp only
  rw [find?_addMissing, find?_foldl_addMissing, Keyed.find?_nil, Option.none_or]

theorem scalar_of_scalarsOf {t x : NamedType} (h : x ∈ scalarsOf t) : ∃ s, x = .scalar s := by
  have scalar {names : List String} (h : x ∈ names.filterMap scalarsOf.scalarType?) :
      ∃ s, x = .scalar s := by
    obtain ⟨name, -, hx⟩ := List.mem_filterMap.mp h
    obtain ⟨s, -, rfl⟩ := Option.map_eq_some_iff.mp hx
    exact ⟨s, rfl⟩
  cases t with
  | object name fields => exact scalar h
  | input name fields => exact scalar h
  | _ => cases h

theorem Free.not_scalar {name : String} (h : Free name) (s : Scalar) : name ≠ s.name := by
  rintro rfl
  cases s <;> exact absurd h.1 (by decide)

/-- What is found by name among types of one's own, which have no name of a scalar. -/
theorem find?_withScalars {ts : List NamedType} (distinct : (ts.map NamedType.name).Nodup)
    {t : NamedType} (ht : t ∈ ts) (free : Free t.name) :
    (withScalars ts).find? (·.name == t.name) = some t := by
  induction ts with
  | nil => cases ht
  | cons u us ih =>
      obtain ⟨hu, distinct⟩ := List.nodup_cons.mp distinct
      rw [withScalars, List.flatMap_cons, List.find?_append, List.find?_cons]
      by_cases same : u.name = t.name
      · rcases List.mem_cons.mp ht with rfl | ht
        · simp
        · exact absurd (List.mem_map.mpr ⟨t, ht, same.symm⟩) hu
      · have unscaled : (scalarsOf u).find? (·.name == t.name) = none := by
          refine List.find?_eq_none.mpr fun x hx hn => ?_
          obtain ⟨s, rfl⟩ := scalar_of_scalarsOf hx
          exact free.not_scalar s (beq_iff_eq.mp hn).symm
        rw [beq_false_of_ne same]
        dsimp only
        rw [unscaled, Option.none_or]
        rcases List.mem_cons.mp ht with rfl | ht
        · exact absurd rfl same
        · exact ih distinct ht

theorem free_of_isName {name : String} (h : Naming.isName name = true)
    (unscaled : name ∉ scalarNames) : Free name := by
  have scalars : ∀ s ∈ Scalar.all, s.name ∈ scalarNames := by decide
  have reserved : ∀ t ∈ introspectionTypes, Naming.isName t.name = false := by decide
  constructor
  · refine List.find?_eq_none.mpr fun s hs hn => unscaled ?_
    exact beq_iff_eq.mp hn ▸ scalars s hs
  · refine List.find?_eq_none.mpr fun t ht hn => ?_
    rw [← beq_iff_eq.mp hn, reserved t ht] at h
    cases h

theorem Api.WellFormed.definition_names {a : Api} (h : a.WellFormed) :
    a.definitions.map Definition.name
      = Keyed.keys a.enums ++ Keyed.keys a.types ++ Keyed.keys a.inputs
        ++ ["SearchResults", "Query"] := by
  have keys {α : Type} {es : Keyed.Entries α} {name : α → String}
      (h : ∀ p ∈ es, name p.2 = p.1) : es.map (fun p => name p.2) = Keyed.keys es :=
    List.map_congr_left h
  simp only [Api.definitions, List.map_append, List.map_map, List.map_cons, List.map_nil]
  rw [← keys h.enumNames, ← keys fun p hp => h.typeNames p (List.mem_append_left _ hp),
    ← keys fun p hp => h.typeNames p (List.mem_append_right _ hp)]
  rfl

theorem Api.WellFormed.definitions_distinct {a : Api} (h : a.WellFormed) :
    (a.definitions.map Definition.name).Nodup := by
  rw [h.definition_names, List.nodup_append]
  refine ⟨h.disjoint, by decide, ?_⟩
  rintro s hs _ ht rfl
  have roots : ∀ s ∈ ["SearchResults", "Query"], s ∈ reservedTypeNames := by decide
  exact h.legal s hs (roots s ht)

namespace Registry.Finished

variable {naming : Naming} {r : Registry n}

/-- No definition has a name that every type system has. -/
theorem free (h : r.Finished naming) (proper : ∀ s ∈ r.api.names, Naming.isName s = true)
    {d : Definition} (hd : d ∈ r.api.definitions) : Free d.name := by
  have wellFormed := h.consistent.wellFormed
  have scalars : ∀ s ∈ scalarNames, s ∈ reservedTypeNames := by decide
  have roots : ∀ s ∈ ["SearchResults", "Query"], s ∉ scalarNames := by decide
  have named : d.name ∈ d.names := by cases d <;> exact List.mem_cons_self ..
  refine free_of_isName (proper _ (List.mem_flatMap.mpr ⟨d, hd, named⟩)) fun hs => ?_
  have listed := List.mem_map_of_mem (f := Definition.name) hd
  rw [wellFormed.definition_names] at listed
  rcases List.mem_append.mp listed with own | root
  · exact wellFormed.legal _ own (scalars _ hs)
  · exact roots _ root hs

end Registry.Finished

theorem filterMap_of_declares {ds : List Definition} {nodes : List TypeDefinition}
    (h : List.Forall₂ Definition.Declares ds nodes) (free : ∀ d ∈ ds, Free d.name) :
    nodes.filterMap TypeSystem.namedType? = ds.map Definition.namedType := by
  induction h with
  | nil => rfl
  | cons head _ ih =>
      obtain ⟨hd, free⟩ := List.forall_mem_cons.mp free
      rw [List.filterMap_cons, head.namedType? hd, List.map_cons, ih free]

/-- The type system has every definition of an API under its name. -/
def TypeSystem.Defines (t : TypeSystem) (a : Api) : Prop :=
  ∀ d ∈ a.definitions, t.type? d.name = some d.namedType

/-- A type system that is read consists of the definitions of a document. -/
theorem TypeSystem.of_read {text : String} {t : TypeSystem} (h : TypeSystem.read text = .ok t) :
    ∃ doc, Document.read text = .ok doc ∧ t = ofDefinitions doc.types := by
  unfold TypeSystem.read at h
  split at h
  · cases h
  · rename_i doc hdoc
    dsimp only at h
    split at h
    · cases h
    · split at h
      · cases h
      · exact ⟨doc, hdoc, (Except.ok.inj h).symm⟩

namespace Registry.Finished

variable {naming : Naming} {r : Registry n} {t : TypeSystem}

theorem type?_definition (h : r.Finished naming)
    (proper : ∀ s ∈ r.api.names, Naming.isName s = true) {nodes : List TypeDefinition}
    (declared : List.Forall₂ Definition.Declares r.api.definitions nodes) :
    ∀ d ∈ r.api.definitions, (ofDefinitions nodes).type? d.name = some d.namedType := by
  intro d hd
  have names : r.api.definitions.map (fun d => d.namedType.name)
      = r.api.definitions.map Definition.name :=
    List.map_congr_left fun d _ => d.namedType_name
  have distinct : ((r.api.definitions.map Definition.namedType).map NamedType.name).Nodup := by
    rw [List.map_map]
    exact names ▸ h.consistent.wellFormed.definitions_distinct
  have free : Free d.namedType.name := d.namedType_name ▸ h.free proper hd
  rw [type?_ofDefinitions, filterMap_of_declares declared fun d hd => h.free proper hd,
    ← d.namedType_name, find?_withScalars distinct (List.mem_map_of_mem hd) free]
  rfl

/-- A type system that the text gives has every definition of the API. -/
theorem defines (h : r.Finished naming) (read : TypeSystem.read r.api.text = .ok t) :
    t.Defines r.api := by
  obtain ⟨doc, hdoc, rfl⟩ := TypeSystem.of_read read
  obtain ⟨declared, proper⟩ := h.reads_back hdoc
  exact h.type?_definition proper declared

end Registry.Finished

end ResourceGraph
