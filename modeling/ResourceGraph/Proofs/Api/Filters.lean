import ResourceGraph.Proofs.Api.Nullability

/-!
# Filters and the types that they are for

A filter has a field for a property that is a scalar, or an enumeration whose name is there. The
type of the resource has a field for each property, so both agree where they take their field from
the same property, unless that is an enumeration without values.
-/

namespace ResourceGraph

open NodeTable

variable {n : Nat}

/-! ## Enumerations of properties -/

/-- The property is an enumeration that has values. -/
def NodeTable.Enumerates (t : NodeTable n) (x : Node n) : Prop :=
  ∃ id v values type, t.resolve x = some (.enumeration id (v :: values) type)

/-- The name of an enumeration after the property and the type around it. -/
def enumerationName (property typeName : String) : String :=
  Naming.typeName (Naming.sanitizeFieldName property) typeName

namespace Assembly

/-- An enumeration that is a property of a complete object type is there, under the name that is
made of both, and it is the type of the field. -/
def Enumerated (s : Assembly n) : Prop :=
  ∀ q ∈ s.registry.api.types, ∀ {key properties required additional other},
    Keyed.find? q.1 s.registry.sources
      = some ("type", .node (.object key properties required additional other)) →
    ∀ p ∈ properties, s.table.Enumerates p.2 →
      s.registry.Has "enum" (enumerationName p.1 q.1) ∧
        ∀ f ∈ q.2.fields, f.sourceName = some p.1 → f.typeName = enumerationName p.1 q.1

variable {g : RawGraph} {o : CompileOptions}

/-- The field of an enumeration, and its definition. -/
theorem enumeration_of_fieldOf {t : NodeTable n} {r : Registry n} {visiting : Visiting n}
    {required : List String} {parent : String} {p : String × Node n} {f : Field}
    (enumerates : t.Enumerates p.2) (h : t.fieldOf visiting required parent p = .ok f)
    (provides : r.Provides (t.element p.2) f.typeName) :
    f.typeName = enumerationName p.1 parent ∧ r.Has "enum" f.typeName := by
  obtain ⟨id, v, values, type, resolved⟩ := enumerates
  obtain ⟨array, element⟩ := element_of_not_array resolved nofun
  obtain ⟨name, reference, rfl⟩ := fieldOf_eq_ok h
  have inner : t.elementName p = Naming.sanitizeFieldName p.1 := by
    rw [elementName, array, if_neg Bool.false_ne_true]
  rw [element] at reference provides
  rw [inner] at reference
  obtain ⟨source, found, -⟩ := provides
  exact ⟨(Except.ok.inj reference).symm, source, found⟩

/-- A field that stands for a property is the field of the property, of the ones with distinct
names. -/
theorem field_of_mem_closing {properties : List (String × Node n)} {fields : List Field}
    {R : String × Node n → Field → Prop} (image : List.Forall₂ R properties fields)
    (source : ∀ p f, R p f → f.sourceName = some p.1) (distinct : (Keyed.keys properties).Nodup)
    {p : String × Node n} (hp : p ∈ properties) {f : Field}
    (hf : f ∈ Compiling.withSomeField (fields.foldl appendField []))
    (own : f.sourceName = some p.1) : R p f := by
  have listed : f ∈ fields := by
    rw [Compiling.withSomeField] at hf
    split at hf
    · cases List.mem_singleton.mp hf
      cases own
    · exact (mem_foldl_appendNew hf).resolve_left List.not_mem_nil
  obtain ⟨p', hp', hR⟩ := exists_of_forall₂_right image listed
  have named : p'.1 = p.1 := Option.some.inj ((source p' f hR).symm.trans own)
  exact List.inj_on_of_nodup_map distinct hp' hp named ▸ hR

theorem Step.enumerated {s s' : Assembly g.size} (h : Step g o s s') (hs : s.Faithful)
    (he : s.Enumerated) : s'.Enumerated := by
  obtain ⟨grows, sound⟩ := h.grows hs.sound
  have kept : ∀ q ∈ s.registry.api.types, ∀ {key properties required additional other},
      Keyed.find? q.1 s'.registry.sources
        = some ("type", .node (.object key properties required additional other)) →
      ∀ p ∈ properties, s'.table.Enumerates p.2 →
        s'.registry.Has "enum" (enumerationName p.1 q.1) ∧
          ∀ f ∈ q.2.fields, f.sourceName = some p.1 → f.typeName = enumerationName p.1 q.1 := by
    intro q hq key properties required additional other claimed p hp enumerates
    obtain ⟨source, found⟩ :=
      ((hs.consistent.registry.types q.1).mp (List.mem_map_of_mem hq)).1
    cases (grows.registry _ _ found).symm.trans claimed
    have known := ((hs.known _ _ _ found).settled hs.sound).property p hp
    rw [Enumerates, resolve_extends hs.sound grows.table known] at enumerates
    obtain ⟨there, fields⟩ := he q hq found p hp enumerates
    exact ⟨there.keeps grows.registry, fields⟩
  cases h with
  | reading | beginning | enumeration | opening | filter | finishing => exact kept
  | connection =>
      refine Registry.forall_mem_insert ?_ kept
      intro key properties required additional other claimed
      cases (Registry.find?_claim ..).symm.trans claimed
  | closing claimed image =>
      refine Registry.forall_mem_insert ?_ kept
      intro key properties required additional other claimed' p hp enumerates
      cases claimed.symm.trans claimed'
      have distinct := ((hs.known _ _ _ claimed).settled hs.sound).distinct
      obtain ⟨f, -, made, provides⟩ := exists_of_forall₂_left image hp
      obtain ⟨named, there⟩ := enumeration_of_fieldOf enumerates made provides
      refine ⟨named ▸ there, fun f' hf' own => ?_⟩
      obtain ⟨made', provides'⟩ := field_of_mem_closing image
        (fun p f field => let ⟨_, _, same⟩ := fieldOf_eq_ok field.1; same ▸ rfl) distinct hp hf' own
      exact (enumeration_of_fieldOf enumerates made' provides').1

theorem enumerated_initial : (initial n).Enumerated := by
  simp [initial, Enumerated]

theorem Run.enumerated {s s' : Assembly g.size} (h : Run g o s s') (hs : s.Faithful)
    (he : s.Enumerated) : s'.Enumerated := by
  have both : s'.Faithful ∧ s'.Enumerated :=
    h.invariant (P := fun s => s.Faithful ∧ s.Enumerated)
      (fun step ⟨hs, he⟩ => ⟨step.faithful hs, step.enumerated hs he⟩) ⟨hs, he⟩
  exact both.2

end Assembly

/-! ## The fields of a filter -/

namespace NodeTable

variable {t : NodeTable n}

/-- A filter has a field for the property: it is a scalar or an enumeration that has values. -/
def Filterable (t : NodeTable n) (x : Node n) : Prop :=
  (∃ key type format, t.resolve x = some (.scalar key type format)) ∨ t.Enumerates x

theorem exists_similar (ht : t.Sound []) {x y : Node n} (hx : x.All (t.Knows []))
    (hy : y.All (t.Knows [])) (h : x.Similar y) {z : Node n} (hz : t.resolve x = some z) :
    ∃ z', t.resolve y = some z' ∧ z.Similar z' := by
  have results := resolve_similar ht hx hy h
  rw [hz] at results
  generalize t.resolve y = ry at results
  cases results with
  | some similar => exact ⟨_, rfl, similar⟩

theorem Enumerates.similar (ht : t.Sound []) {x y : Node n} (hx : x.All (t.Knows []))
    (hy : y.All (t.Knows [])) (h : x.Similar y) (enumerates : t.Enumerates x) :
    t.Enumerates y := by
  obtain ⟨id, v, values, type, resolved⟩ := enumerates
  obtain ⟨z, hz, similar⟩ := exists_similar ht hx hy h resolved
  cases similar with
  | same => exact ⟨id, v, values, type, hz⟩
  | @enumeration _ id' _ values' _ type' equal =>
      cases values' with
      | nil => cases equal.empty_iff.mpr rfl
      | cons v' values' => exact ⟨id', v', values', type', hz⟩

theorem Filterable.similar (ht : t.Sound []) {x y : Node n} (hx : x.All (t.Knows []))
    (hy : y.All (t.Knows [])) (h : x.Similar y) (filterable : t.Filterable x) :
    t.Filterable y := by
  refine filterable.imp ?_ (Enumerates.similar ht hx hy h)
  rintro ⟨key, type, format, resolved⟩
  obtain ⟨z, hz, similar⟩ := exists_similar ht hx hy h resolved
  cases similar with
  | same | scalar => exact ⟨_, _, _, hz⟩

end NodeTable

/-- The type of a property in a filter, where `name` is that of the enumeration. -/
inductive FilterType (r : Registry n) (name : String) : Option (Node n) → String → Prop
  | scalar {key type format s}
      (mapped : Node.scalarName (some (.scalar key type format : Node n)) = .ok s) :
      FilterType r name (some (.scalar key type format)) s
  | enumeration (id values type) (there : r.Has "enum" name) :
      FilterType r name (some (.enumeration id values type)) name

/-- The field of a property in the filter of the type `typeName`. -/
structure FilterImage (t : NodeTable n) (r : Registry n) (typeName : String)
    (p : String × Node n) (f : Field) : Prop where
  name : f.name = Naming.sanitizeFieldName p.1
  source : f.sourceName = some p.1
  plain : f.isList = false
  type : FilterType r (enumerationName p.1 typeName) (t.resolve p.2) f.typeName

/-- Next to the common fields there are fields of properties, and one under the field name of each
property that a filter has a field for. -/
structure Filters (t : NodeTable n) (r : Registry n) (typeName : String)
    (properties : List (String × Node n)) (fields : List Field) : Prop where
  image : ∀ f ∈ fields, f ∈ Compiling.commonFilterFields ∨
    ∃ p ∈ properties, FilterImage t r typeName p f
  covers : ∀ p ∈ properties, t.Filterable p.2 →
    Naming.sanitizeFieldName p.1 ∈ fields.map Field.name

section

variable {t t' : NodeTable n} {r r' : Registry n} {typeName : String} {p q : String × Node n}
  {f : Field} {properties properties' : List (String × Node n)} {fields : List Field}

theorem FilterType.keeps {name s : String} {x : Option (Node n)} (keeps : r.Keeps r')
    (h : FilterType r name x s) : FilterType r' name x s := by
  cases h with
  | scalar mapped => exact .scalar mapped
  | enumeration id values type there => exact .enumeration id values type (there.keeps keeps)

theorem FilterImage.grows (ht : t.Sound []) (grown : t.Extends t') (keeps : r.Keeps r')
    (known : p.2.All (t.Knows [])) (h : FilterImage t r typeName p f) :
    FilterImage t' r' typeName p f where
  name := h.name
  source := h.source
  plain := h.plain
  type := by
    rw [resolve_extends ht grown known]
    exact h.type.keeps keeps

/-- The field of a property is the field of a similar property of the same name. -/
theorem FilterImage.similar (ht : t.Sound []) (hp : p.2.All (t.Knows []))
    (hq : q.2.All (t.Knows [])) (named : p.1 = q.1) (similar : p.2.Similar q.2)
    (h : FilterImage t r typeName p f) : FilterImage t r typeName q f where
  name := named ▸ h.name
  source := named ▸ h.source
  plain := h.plain
  type := by
    have type := h.type
    generalize hz : t.resolve p.2 = z at type
    generalize hs : f.typeName = s at type
    rw [← named]
    cases type with
    | scalar mapped =>
        obtain ⟨z', hz', similar⟩ := exists_similar ht hp hq similar hz
        rw [hz']
        cases similar with
        | same => exact .scalar mapped
        | scalar same => exact .scalar (same.symm.trans mapped)
    | enumeration id values type there =>
        obtain ⟨z', hz', similar⟩ := exists_similar ht hp hq similar hz
        rw [hz']
        cases similar with
        | same | enumeration => exact .enumeration _ _ _ there

theorem Filters.grows (ht : t.Sound []) (grown : t.Extends t') (keeps : r.Keeps r')
    (known : ∀ p ∈ properties, p.2.All (t.Knows []))
    (h : Filters t r typeName properties fields) : Filters t' r' typeName properties fields where
  image f hf := by
    refine (h.image f hf).imp_right ?_
    rintro ⟨p, hp, image⟩
    exact ⟨p, hp, image.grows ht grown keeps (known p hp)⟩
  covers p hp filterable := by
    rw [Filterable, Enumerates, resolve_extends ht grown (known p hp)] at filterable
    exact h.covers p hp filterable

theorem Filters.matching (ht : t.Sound []) (members : Matching properties' properties)
    (known : ∀ p ∈ properties, p.2.All (t.Knows []))
    (known' : ∀ p ∈ properties', p.2.All (t.Knows []))
    (h : Filters t r typeName properties fields) : Filters t r typeName properties' fields where
  image f hf := by
    refine (h.image f hf).imp_right ?_
    rintro ⟨p, hp, image⟩
    obtain ⟨q, hq, named, similar⟩ := members.exists_similar hp
    exact ⟨q, hq, image.similar ht (known p hp) (known' q hq) named.symm similar.symm⟩
  covers q hq filterable := by
    obtain ⟨p, hp, named, similar⟩ := members.symm.exists_similar hq
    rw [← named]
    exact h.covers p hp (filterable.similar ht (known' q hq) (known p hp) similar.symm)

end

namespace Compiling

variable {t : NodeTable n} {r r' : Registry n} {typeName : String}
  {properties : List (String × Node n)}

theorem filterField?_image {p : String × Node n} {field : Option Field}
    (enums : ∀ name, name ∈ Keyed.keys r.api.enums ↔ r.Has "enum" name)
    (complete : t.Enumerates p.2 → r.Has "enum" (enumerationName p.1 typeName))
    (h : (filterField? t typeName p).run r = .ok (field, r')) :
    r = r' ∧ (∀ f, field = some f → FilterImage t r typeName p f) ∧
      (t.Filterable p.2 → ∃ f, field = some f) := by
  unfold filterField? at h
  dsimp only at h
  split at h
  · rename_i id values type resolved
    simp only [bind_eq_ok] at h
    obtain ⟨_, _, hget, h⟩ := h
    cases hget
    generalize named : Naming.typeName (Naming.sanitizeFieldName p.1) typeName = name at h
    obtain rfl : enumerationName p.1 typeName = name := named
    obtain ⟨rfl, rfl⟩ := pure_eq_ok.mp h
    refine ⟨rfl, fun f hf => ?_, fun filterable => ?_⟩
    · split at hf
      · rename_i there
        cases hf
        refine ⟨rfl, rfl, rfl, ?_⟩
        rw [resolved]
        dsimp only
        exact .enumeration id values type ((enums _).mp (Keyed.hasKey_iff.mp there))
      · cases hf
    · rcases filterable with ⟨_, _, _, scalar⟩ | enumerates
      · cases resolved.symm.trans scalar
      · have there := (enums _).mpr (complete enumerates)
        exact ⟨_, if_pos (Keyed.hasKey_iff.mpr there)⟩
  · rename_i key type format resolved
    simp only [bind_eq_ok, scalarName_eq_ok] at h
    obtain ⟨name, _, ⟨mapped, rfl⟩, h⟩ := h
    obtain ⟨rfl, rfl⟩ := pure_eq_ok.mp h
    refine ⟨rfl, fun f hf => ?_, fun _ => ⟨_, rfl⟩⟩
    cases hf
    refine ⟨rfl, rfl, rfl, ?_⟩
    rw [resolved]
    exact .scalar mapped
  · rename_i enumeration scalar
    obtain ⟨rfl, rfl⟩ := pure_eq_ok.mp h
    refine ⟨rfl, by simp, ?_⟩
    rintro (⟨key, type, format, resolved⟩ | ⟨id, v, values, type, resolved⟩)
    · exact absurd resolved (scalar key type format)
    · exact absurd resolved (enumeration id (v :: values) type)

theorem filterFields_image {fields fields' : List Field}
    (enums : ∀ name, name ∈ Keyed.keys r.api.enums ↔ r.Has "enum" name)
    (complete : ∀ p ∈ properties, t.Enumerates p.2 → r.Has "enum" (enumerationName p.1 typeName))
    (h : (filterFields t typeName properties fields).run r = .ok (fields', r')) :
    r = r' ∧ ∃ fs : List Field, fields' = fs.foldl appendField fields ∧
      (∀ f ∈ fs, ∃ p ∈ properties, FilterImage t r typeName p f) ∧
      ∀ p ∈ properties, t.Filterable p.2 → ∃ f ∈ fs, f.name = Naming.sanitizeFieldName p.1 := by
  induction properties generalizing fields with
  | nil =>
      obtain ⟨rfl, rfl⟩ := pure_eq_ok.mp h
      exact ⟨rfl, [], rfl, nofun, nofun⟩
  | cons p rest ih =>
      obtain ⟨first, complete⟩ := List.forall_mem_cons.mp complete
      simp only [filterFields, bind_eq_ok] at h
      obtain ⟨field, _, hf, h⟩ := h
      obtain ⟨rfl, image, covers⟩ := filterField?_image enums first hf
      cases field with
      | none =>
          obtain ⟨rfl, fs, rfl, images, covered⟩ := ih complete h
          refine ⟨rfl, fs, rfl, fun f hf => ?_, List.forall_mem_cons.mpr ⟨fun there => ?_, covered⟩⟩
          · obtain ⟨q, hq, image⟩ := images f hf
            exact ⟨q, List.mem_cons_of_mem _ hq, image⟩
          · obtain ⟨f, hf⟩ := covers there
            cases hf
      | some f =>
          obtain ⟨rfl, fs, rfl, images, covered⟩ := ih complete h
          have own := image f rfl
          refine ⟨rfl, f :: fs, rfl, List.forall_mem_cons.mpr
            ⟨⟨p, List.mem_cons_self .., own⟩, fun f hf => ?_⟩, List.forall_mem_cons.mpr
            ⟨fun _ => ⟨f, List.mem_cons_self .., own.name⟩, fun q hq there => ?_⟩⟩
          · obtain ⟨q, hq, image⟩ := images f hf
            exact ⟨q, List.mem_cons_of_mem _ hq, image⟩
          · obtain ⟨f', hf', named⟩ := covered q hq there
            exact ⟨f', List.mem_cons_of_mem _ hf', named⟩

/-- A filter is there already, or it is added. -/
theorem compileFilter_filters {u : Unit} (consistent : r.Consistent [])
    (complete : ∀ p ∈ properties, t.Enumerates p.2 → r.Has "enum" (enumerationName p.1 typeName))
    (h : (compileFilter t properties typeName).run r = .ok (u, r')) :
    r = r' ∨ ∃ d, r'.api.inputs = Keyed.insert (typeName ++ "Filter") d r.api.inputs ∧
      Filters t r' typeName properties d.fields := by
  unfold compileFilter at h
  simp only [bind_eq_ok, isClaimed_eq_ok] at h
  obtain ⟨seen, _, ⟨hc, rfl⟩, h⟩ := h
  cases seen with
  | true => exact .inl (pure_eq_ok.mp h).2
  | false =>
      simp only [Bool.false_eq_true, if_false, bind_eq_ok, modify_eq_ok] at h
      obtain ⟨_, r₁, claimed, fields, _, hf, rfl⟩ := h
      have fresh := Registry.isClaimed_eq_false hc
      have keeps : r.Keeps r₁ := claimed ▸ Registry.keeps_claim fresh
      have enums : ∀ name, name ∈ Keyed.keys r₁.api.enums ↔ r₁.Has "enum" name := by
        intro name
        rw [← claimed]
        exact (consistent.enums name).trans (Registry.has_claim_of_ne fresh (by decide))
      obtain ⟨rfl, fs, rfl, image, covers⟩ :=
        filterFields_image enums (fun p hp there => (complete p hp there).keeps keeps) hf
      have keeps' : r₁.Keeps (r₁.addType
          { name := typeName ++ "Filter", fields := fs.foldl appendField commonFilterFields,
            isInput := true }) := .refl _
      refine .inr ⟨_, by rw [← claimed]; rfl, fun f hf => ?_, fun p hp there => ?_⟩
      · refine (mem_foldl_appendNew hf).imp_right fun hf => ?_
        obtain ⟨p, hp, image⟩ := image f hf
        exact ⟨p, hp, { image with type := image.type.keeps keeps' }⟩
      · obtain ⟨f, hf, named⟩ := covers p hp there
        rw [← named, appendField_eq, mem_keys_foldl_appendNew]
        exact .inr (List.mem_map_of_mem hf)

end Compiling

/-! ## The filters of resources -/

namespace Assembly

/-- The definition is a filter for the object that the type was claimed for. -/
def IsFilter (s : Assembly n) (typeName : String) (d : TypeDef) : Prop :=
  ∃ key properties required additional other, Keyed.find? typeName s.registry.sources
      = some ("type", .node (.object key properties required additional other)) ∧
    Filters s.table s.registry typeName properties d.fields

/-- Every filter is one for its type. -/
def Filtered (s : Assembly n) : Prop :=
  ∀ typeName d, Keyed.find? (typeName ++ "Filter") s.registry.api.inputs = some d →
    s.IsFilter typeName d

theorem filtered_initial : (initial n).Filtered := by
  simp [initial, Filtered]

section

variable {s s' : Assembly n} {typeName : String} {d : TypeDef}

theorem IsFilter.grows (h : s.IsFilter typeName d) (hs : s.Faithful) (grows : s.Grows s') :
    s'.IsFilter typeName d := by
  obtain ⟨key, properties, required, additional, other, claimed, filters⟩ := h
  have known := ((hs.known _ _ _ claimed).settled hs.sound).property
  exact ⟨key, properties, required, additional, other, grows.registry _ _ claimed,
    filters.grows hs.sound grows.table grows.registry known⟩

theorem Filtered.grows (h : s.Filtered) (hs : s.Faithful) (grows : s.Grows s')
    (inputs : s'.registry.api.inputs = s.registry.api.inputs) : s'.Filtered :=
  fun typeName d made => (h typeName d (inputs ▸ made)).grows hs grows

/-- The name of a filter tells its type, so a new filter only has to be one for that. -/
theorem Filtered.insert (h : s.Filtered) (hs : s.Faithful) (grows : s.Grows s')
    (inputs : s'.registry.api.inputs
      = Keyed.insert (typeName ++ "Filter") d s.registry.api.inputs)
    (filter : s'.IsFilter typeName d) : s'.Filtered := by
  intro other d' made
  rw [inputs, Keyed.find?_insert] at made
  split at made
  · rename_i same
    obtain rfl := (String.append_left_inj _).mp same
    cases made
    exact filter
  · exact (h other d' made).grows hs grows

/-- When the type that stands for an object is complete, its enumerations are there. -/
theorem Enumerated.complete (he : s.Enumerated) (hs : s.Faithful) (opened : s.visiting = [])
    {key : ObjectKey n} {properties : List (String × Node n)} {required : List String}
    {additional : Option (Node n)} {other : Value}
    (yields : s.table.Yields (.object key properties required additional other))
    (refers : s.registry.Refers "type" (.object key properties required additional other)
      typeName) : ∀ p ∈ properties, s.table.Enumerates p.2 →
        s.registry.Has "enum" (enumerationName p.1 typeName) := by
  obtain ⟨_, _, _, _, claimed, members⟩ := hs.exists_claimed yields refers
  have complete : typeName ∈ Keyed.keys s.registry.api.types :=
    (hs.consistent.registry.types typeName).mpr ⟨⟨_, claimed⟩, by rw [opened]; exact nofun⟩
  obtain ⟨d, hd⟩ := Keyed.exists_of_mem_keys complete
  have known := (yields.settled hs.sound).property
  have known' := ((hs.known _ _ _ claimed).settled hs.sound).property
  intro p hp enumerates
  obtain ⟨q, hq, named, similar⟩ := members.exists_similar hp
  have enumerates := enumerates.similar hs.sound (known p hp) (known' q hq) similar.symm
  exact named ▸ (he (typeName, d) (Keyed.mem_of_find? hd) claimed q hq enumerates).1

end

end Assembly

namespace Compilation

open Compiling

variable {g : RawGraph} {o : CompileOptions}

theorem addObject_filtered {t : NodeTable g.size} {resource : String}
    {key : ObjectKey g.size} {properties : List (String × Node g.size)} {required : List String}
    {additional : Option (Node g.size)} {other : Value} {u : Unit} {r r' : Registry g.size}
    (free : (ResourceNames.of o.naming resource).conflict? r.api = none)
    (yields : t.Yields (.object key properties required additional other))
    (faithful : Assembly.Faithful ⟨t, none, [], r⟩)
    (enumerated : Assembly.Enumerated ⟨t, none, [], r⟩)
    (filtered : Assembly.Filtered ⟨t, none, [], r⟩)
    (h : (addObject o t (ResourceNames.of o.naming resource) resource key properties required
      additional other).run r = .ok (u, r')) : Assembly.Filtered ⟨t, none, [], r'⟩ := by
  simp only [addObject, bind_eq_ok, modify_eq_ok] at h
  obtain ⟨type, r₁, hobject, _, r₂, hconnection, _, r₃, hfilter, rfl⟩ := h
  -- up to the filter no input is added, and the type of the resource is completed
  have steady := Registry.steady_inputs (n := g.size) r.api.inputs
  have inputs₁ := preserves_compileObject t steady _ _ _ _ _ _ _ r type r₁ rfl hobject
  have inputs₂ := preserves_compileConnection steady _ r₁ _ r₂ inputs₁ hconnection
  obtain ⟨run, rfl, refers⟩ := compileObject_run (o := o) faithful.sound yields
    (Assembly.names_root _) (by simp [Registry.Claimed]) hobject
  obtain ⟨source, claimed, -⟩ := id refers
  obtain ⟨run', -⟩ := compileConnection_run (o := o) (t := t) ⟨source, claimed⟩ hconnection
  have refers := refers.keeps run'.keeps
  have before : Assembly.Run g o ⟨t, none, [], r⟩
      ⟨t, some (ResourceNames.of o.naming resource), [], r₂⟩ :=
    (Relation.ReflTransGen.single (.beginning resource free)).trans (run.trans run')
  have faithful₂ := before.faithful faithful
  have filtered₂ := filtered.grows faithful (before.grows faithful.sound).1 inputs₂
  -- the filter is made of the properties of the resource, which match those of its type
  have run'' := compileFilter_run (o := o) (t := t) hfilter
  obtain ⟨key', properties', additional', other', claimed', members⟩ :=
    faithful₂.exists_claimed yields refers
  have known := (yields.settled faithful.sound).property
  have known' := ((faithful₂.known _ _ _ claimed').settled faithful.sound).property
  have complete := (before.enumerated faithful enumerated).complete faithful₂ rfl yields refers
  have filtered₃ :
      Assembly.Filtered ⟨t, some (ResourceNames.of o.naming resource), [], r₃⟩ := by
    rcases compileFilter_filters faithful₂.consistent.registry complete hfilter with
      rfl | ⟨d, inputs, filters⟩
    · exact filtered₂
    · exact filtered₂.insert faithful₂ (run''.grows faithful.sound).1 inputs
        ⟨key', properties', required, additional', other', run''.keeps _ _ claimed',
          filters.matching faithful.sound members known known'⟩
  exact filtered₃.grows (run''.faithful faithful₂)
    ⟨.refl _, .refl _, List.prefix_refl _, List.prefix_refl _⟩ rfl

theorem addResource_filtered {c c' : Compilation g.size} {spec : ResourceSpec g.size}
    (faithful : Assembly.Faithful ⟨c.table, none, [], c.registry⟩)
    (enumerated : Assembly.Enumerated ⟨c.table, none, [], c.registry⟩)
    (filtered : Assembly.Filtered ⟨c.table, none, [], c.registry⟩)
    (h : c.addResource o spec = .ok c') :
    Assembly.Filtered ⟨c'.table, none, [], c'.registry⟩ := by
  have read_on {raw node table} (read : Parsing.run g raw c.table = (.ok node, table)) :
      Assembly.Run g o ⟨c.table, none, [], c.registry⟩ ⟨table, none, [], c.registry⟩ :=
    .single (.reading read)
  cases addResource_outcome h with
  | unread s => exact filtered
  | unsuited s _ read =>
      exact filtered.grows faithful ((read_on read).grows faithful.sound).1 rfl
  | compiled candidate read resolved added =>
      have run := read_on read
      have known := (Parsing.run_grown faithful.sound read).2
      exact addObject_filtered candidate.free ⟨_, known, resolved⟩ (run.faithful faithful)
        (run.enumerated faithful enumerated)
        (filtered.grows faithful (run.grows faithful.sound).1 rfl) added

theorem addResources_filtered {specs : List (ResourceSpec g.size)} {c c' : Compilation g.size}
    (faithful : Assembly.Faithful ⟨c.table, none, [], c.registry⟩)
    (enumerated : Assembly.Enumerated ⟨c.table, none, [], c.registry⟩)
    (filtered : Assembly.Filtered ⟨c.table, none, [], c.registry⟩)
    (h : addResources o specs c = .ok c') :
    Assembly.Filtered ⟨c'.table, none, [], c'.registry⟩ := by
  induction specs generalizing c with
  | nil =>
      cases h
      exact filtered
  | cons spec rest ih =>
      rw [addResources] at h
      split at h
      · cases h
      · rename_i c₁ h₁
        obtain ⟨run, -⟩ := addResource_run faithful.sound h₁
        exact ih (run.faithful faithful) (run.enumerated faithful enumerated)
          (addResource_filtered faithful enumerated filtered h₁) h

end Compilation

/-! ## Filters against their types -/

/-- A field of a type is what a field of a filter takes it for: of the same property and the same
type, and no list. -/
structure Field.Agrees (f f' : Field) : Prop where
  source : f'.sourceName = f.sourceName
  type : f'.typeName = f.typeName
  plain : f'.isList = false

section

variable {s : Assembly n} {typeName : String} {d : TypeDef} {key : ObjectKey n}
  {properties : List (String × Node n)} {required : List String} {additional : Option (Node n)}
  {other : Value} {p : String × Node n} {f f' : Field}

/-- Of two properties of one field name, one of which is first, the other is first if it is the
same. -/
theorem Registry.isFirst_iff_eq {r : Registry n}
    (claimed : Keyed.find? typeName r.sources
      = some ("type", .node (.object key properties required additional other)))
    (distinct : (Keyed.keys properties).Nodup) (hp : p ∈ properties) {p' : String × Node n}
    (first : p' ∈ firstsBy (fun p => Naming.sanitizeFieldName p.1) properties)
    (same : Naming.sanitizeFieldName p'.1 = Naming.sanitizeFieldName p.1) :
    r.IsFirst typeName p.1 ↔ p' = p := by
  rw [isFirst_iff claimed, Keyed.keys, ← map_firstsBy, List.mem_map]
  constructor
  · rintro ⟨p'', first', named⟩
    obtain rfl := List.inj_on_of_nodup_map distinct (firstsBy_subset _ first') hp named
    exact List.inj_on_of_nodup_map (nodup_keys_firstsBy properties) first first' same
  · rintro rfl
    exact ⟨p', first, rfl⟩

/-- The field of a filter agrees with the one of its name in the type exactly if its property is the
first of that name and no enumeration without values. -/
theorem Assembly.agrees_iff (hs : s.Faithful) (he : s.Enumerated)
    (made : (typeName, d) ∈ s.registry.api.types)
    (claimed : Keyed.find? typeName s.registry.sources
      = some ("type", .node (.object key properties required additional other)))
    (image : List.Forall₂ (FieldImage s.registry.Refers s.table s.registry required typeName)
      (firstsBy (fun p => Naming.sanitizeFieldName p.1) properties) d.fields)
    (hp : p ∈ properties) (filter : FilterImage s.table s.registry typeName p f)
    (hf' : f' ∈ d.fields) (named : f'.name = f.name) :
    f.Agrees f' ↔ s.registry.IsFirst typeName p.1 ∧
      ∀ id type, s.table.resolve p.2 ≠ some (.enumeration id [] type) := by
  obtain ⟨p', first, field⟩ := exists_of_forall₂_right image hf'
  have distinct := ((hs.known _ _ _ claimed).settled hs.sound).distinct
  have same : Naming.sanitizeFieldName p'.1 = Naming.sanitizeFieldName p.1 :=
    field.name.symm.trans (named.trans filter.name)
  rw [Registry.isFirst_iff_eq claimed distinct hp first same]
  constructor
  · intro agrees
    have source := field.source.symm.trans (agrees.source.trans filter.source)
    obtain rfl := List.inj_on_of_nodup_map distinct (firstsBy_subset _ first) hp
      (Option.some.inj source)
    refine ⟨rfl, fun id type resolved => ?_⟩
    have type := field.type
    rw [(element_of_not_array resolved nofun).2, agrees.type] at type
    have filtered := filter.type
    rw [resolved] at filtered
    generalize f.typeName = name at type filtered
    -- the filter has an enumeration of that name, and no enumeration is called like a scalar
    cases filtered with
    | enumeration id values type there =>
        generalize enumerationName p'.1 typeName = name at type there
        cases type with
        | emptyEnumeration => exact hs.consistent.registry.legal _ _ there (by decide)
        | enumeration nonempty => exact nonempty rfl
  · rintro ⟨rfl, valued⟩
    have filtered := filter.type
    have type := field.type
    refine ⟨field.source.trans filter.source.symm, ?_, ?_⟩
    · generalize hz : s.table.resolve p'.2 = z at filtered
      generalize hname : f.typeName = name at filtered
      cases filtered with
      | scalar mapped =>
          rw [(element_of_not_array hz nofun).2] at type
          generalize f'.typeName = name' at type
          cases type with
          | scalar mapped' => exact Except.ok.inj (mapped'.symm.trans mapped)
      | enumeration id values type there =>
          cases values with
          | nil => exact absurd hz (valued id type)
          | cons v values =>
              exact (he (typeName, d) made claimed p' hp ⟨id, v, values, type, hz⟩).2 f' hf'
                field.source
    · rw [← Bool.not_eq_true, field.list]
      rintro ⟨id, items, array⟩
      rw [array] at filtered
      generalize f.typeName = name at filtered
      cases filtered

end

/-- If specifications compile, then every field of the filter of a resource is one of `search`,
`limit` and `offset` or belongs to a property of the object that the type of the resource was claimed
for, and the type has a field of its name. Both agree exactly if the property is the first of its
field name and no enumeration without values. Every property that is a scalar or an enumeration with
values has, if it has a field in the type, one of the same name in the filter. -/
theorem compile_filters_iff {o : CompileOptions} {s : Specs} {api : Api} {log : List LogLine}
    (h : compile o s = .ok (api, log)) :
    ∃ c, Compilation.addResources o s.specs {} = .ok c ∧ c.registry.api = api ∧
      ∀ a ∈ api.resources, ∃ d filter key properties required additional other,
        Keyed.find? a.typeName api.types = some d ∧
        Keyed.find? a.filterType api.inputs = some filter ∧
        Keyed.find? a.typeName c.registry.sources
          = some ("type", .node (.object key properties required additional other)) ∧
        (∀ f ∈ filter.fields, f.name ∉ ["search", "limit", "offset"] →
          ∃ p ∈ properties, f.sourceName = some p.1 ∧ (∃ f' ∈ d.fields, f'.name = f.name) ∧
            ∀ f' ∈ d.fields, f'.name = f.name →
              (f.Agrees f' ↔ c.registry.IsFirst a.typeName p.1 ∧
                ∀ id type, c.table.resolve p.2 ≠ some (.enumeration id [] type))) ∧
        ∀ f' ∈ d.fields, f'.name ∉ ["search", "limit", "offset"] → ∀ p ∈ properties,
          f'.sourceName = some p.1 → c.table.Filterable p.2 →
          ∃ f ∈ filter.fields, f.name = f'.name := by
  obtain ⟨c, hc, rfl, run⟩ := Assembly.compile_run h
  have faithful := run.faithful Assembly.faithful_initial
  have enumerated := run.enumerated Assembly.faithful_initial Assembly.enumerated_initial
  have filtered : Assembly.Filtered ⟨c.table, none, [], c.registry⟩ :=
    Compilation.addResources_filtered Assembly.faithful_initial Assembly.enumerated_initial
      Assembly.filtered_initial hc
  obtain ⟨course, -, after⟩ := Compilation.addResources_course (sound_empty []) hc
  refine ⟨c, hc, rfl, fun a ha => ?_⟩
  have serves := after.serving a ha
  obtain ⟨source, input, -⟩ := Registry.isClaimed_eq_true serves.filter
  obtain ⟨filter, hfilter⟩ := Keyed.exists_of_mem_keys
    ((faithful.consistent.registry.inputs a.filterType).mpr ⟨source, input⟩)
  obtain ⟨key, properties, required, additional, other, claimed, filters⟩ :=
    filtered a.typeName filter hfilter
  obtain ⟨d, _, _, _, _, made, claimed', -, image⟩ := faithful.exists_image rfl rfl after.serving
    (faithful.known _ _ _ claimed) (.of_claimed claimed)
  cases claimed.symm.trans claimed'
  refine ⟨d, filter, key, properties, required, additional, other, made, hfilter, claimed,
    fun f hf uncommon => ?_, fun f' hf' _ p hp own filterable => ?_⟩
  · rcases filters.image f hf with common | ⟨p, hp, field⟩
    · exact absurd (List.mem_map_of_mem common) uncommon
    · have image := image (List.ne_nil_of_mem hp)
      refine ⟨p, hp, field.source, ?_, fun f' hf' named => ?_⟩
      · have listed : f.name ∈ (firstsBy (fun p => Naming.sanitizeFieldName p.1) properties).map
            fun p => Naming.sanitizeFieldName p.1 :=
          mem_keys_firstsBy.mpr (field.name ▸ List.mem_map_of_mem hp)
        obtain ⟨p', first, same⟩ := List.mem_map.mp listed
        obtain ⟨f', hf', own⟩ := exists_of_forall₂_left image first
        exact ⟨f', hf', own.name.trans same⟩
      · exact Assembly.agrees_iff faithful enumerated (Keyed.mem_of_find? made) claimed image hp
          field hf' named
  · obtain ⟨p', first, field⟩ := exists_of_forall₂_right (image (List.ne_nil_of_mem hp)) hf'
    have named : p'.1 = p.1 := Option.some.inj (field.source.symm.trans own)
    obtain ⟨f, hf, same⟩ := List.mem_map.mp (filters.covers p hp filterable)
    exact ⟨f, hf, same.trans (named ▸ field.name.symm)⟩

/-- Persons with a name, a list of phone numbers, and a number under the same field name. -/
abbrev Specs.phoned : Specs where
  graph :=
    { size := 5
      objects := #v[
        [("type", .str "object"), ("properties", .obj 1)],
        [("name", .obj 2), ("phone-number", .obj 3), ("phone_number", .obj 4)],
        [("type", .str "string")],
        [("type", .str "array"), ("items", .obj 2)],
        [("type", .str "integer")]]
      nodup := by decide }
  specs := [{ name := "persons", schemas := [("Person", .obj 0)] }]

namespace Specs.phoned

abbrev persons : ResourceSpec Specs.phoned.graph.size :=
  { name := "persons", schemas := [("Person", .obj 0)] }

abbrev properties : List (String × Node Specs.phoned.graph.size) :=
  [("name", .scalar (.parsed 2) (.str "string") .null),
    ("phone-number", .array 3 (some (.scalar (.parsed 2) (.str "string") .null))),
    ("phone_number", .scalar (.parsed 4) (.str "integer") .null)]

/-- What a field shows of its property. -/
abbrev outline (f : Field) : String × Option String × String × Bool :=
  (f.name, f.sourceName, f.typeName, f.isList)

abbrev fields : List (String × Option String × String × Bool) :=
  [("name", some "name", "String", false), ("phone_number", some "phone-number", "String", true)]

abbrev filterFields : List (String × Option String × String × Bool) :=
  [("search", none, "String", false), ("limit", none, "Int", false), ("offset", none, "Int", false),
    ("name", some "name", "String", false), ("phone_number", some "phone_number", "Int", false)]

set_option synthInstance.maxSize 400 in
theorem persons_compiled : ∃ c, Compilation.addResource {} {} persons = .ok c ∧
    c.registry.api.resources.map (fun a => (a.typeName, a.filterType))
      = [("Person", "PersonFilter")] ∧
    Keyed.find? "Person" c.registry.sources
      = some ("type", .node (.object (.parsed 0) properties [] none .null)) ∧
    (Keyed.find? "Person" c.registry.api.types).map (·.fields.map outline) = some fields ∧
    (Keyed.find? "PersonFilter" c.registry.api.inputs).map (·.fields.map outline)
      = some filterFields := by
  rw [Compilation.addResource_eq_upTo]
  decide +kernel

/-- The compiled persons, with their type and their filter. -/
theorem compiles : ∃ c log a d filter, compile {} Specs.phoned = .ok (c.registry.api, log) ∧
    Compilation.addResources {} Specs.phoned.specs {} = .ok c ∧ a ∈ c.registry.api.resources ∧
    Keyed.find? a.typeName c.registry.api.types = some d ∧ d.fields.map outline = fields ∧
    Keyed.find? a.filterType c.registry.api.inputs = some filter ∧
    filter.fields.map outline = filterFields ∧ Keyed.find? a.typeName c.registry.sources
      = some ("type", .node (.object (.parsed 0) properties [] none .null)) := by
  obtain ⟨c, compiled, named, claimed, made, filter⟩ := persons_compiled
  have run : Compilation.addResources {} Specs.phoned.specs {} = .ok c :=
    Compilation.addResources_cons compiled
  obtain ⟨d, made, fields⟩ := Option.map_eq_some_iff.mp made
  obtain ⟨filter, input, filterFields⟩ := Option.map_eq_some_iff.mp filter
  have one : ("Person", "PersonFilter")
      ∈ c.registry.api.resources.map (fun a => (a.typeName, a.filterType)) := by
    rw [named]
    exact List.mem_cons_self ..
  obtain ⟨a, ha, names⟩ := List.mem_map.mp one
  obtain ⟨type, input'⟩ := Prod.mk.inj names
  rw [← type] at made claimed
  rw [← input'] at input
  exact ⟨c, _, a, d, filter, Assembly.compile_of_addResources run, run, ha, made, fields, input,
    filterFields, claimed⟩

/-- A field with an outline. -/
theorem exists_of_outline {fs : List Field} {shown : List (String × Option String × String × Bool)}
    (h : fs.map outline = shown) {x : String × Option String × String × Bool} (hx : x ∈ shown) :
    ∃ f ∈ fs, f.name = x.1 ∧ f.sourceName = x.2.1 ∧ f.typeName = x.2.2.1 ∧ f.isList = x.2.2.2 := by
  rw [← h] at hx
  obtain ⟨f, hf, rfl⟩ := List.mem_map.mp hx
  exact ⟨f, hf, rfl, rfl, rfl, rfl⟩

end Specs.phoned

open Specs.phoned in
/-- The name of a person is in the filter what it is in the type. -/
theorem phoned_agrees : ∃ api log a d filter f f', compile {} Specs.phoned = .ok (api, log) ∧
    a ∈ api.resources ∧ Keyed.find? a.typeName api.types = some d ∧
    Keyed.find? a.filterType api.inputs = some filter ∧ f ∈ filter.fields ∧ f.name = "name" ∧
    f' ∈ d.fields ∧ f'.name = "name" ∧ f.Agrees f' := by
  obtain ⟨c, log, a, d, filter, h, run, ha, made, shown, input, shown', claimed⟩ := compiles
  obtain ⟨c', run', -, filters⟩ := compile_filters_iff h
  cases run.symm.trans run'
  obtain ⟨_, _, _, _, _, _, _, made', input', claimed', agrees, -⟩ := filters a ha
  cases made.symm.trans made'
  cases input.symm.trans input'
  cases claimed.symm.trans claimed'
  obtain ⟨f, hf, name, source, -⟩ :=
    exists_of_outline (x := ("name", some "name", "String", false)) shown' (by decide)
  obtain ⟨p, hp, own, ⟨f', hf', same⟩, agrees⟩ := agrees f hf (by rw [name]; decide)
  refine ⟨_, log, a, d, filter, f, f', h, ha, made, input, hf, name, hf', same.trans name,
    (agrees f' hf' same).mpr ?_⟩
  have named : p.1 = "name" := Option.some.inj (own.symm.trans source)
  refine ⟨(Registry.isFirst_iff claimed p.1).mpr ?_, fun id type resolved => ?_⟩
  · rw [named]
    exact List.mem_cons_self ..
  · obtain ⟨k, x⟩ := p
    obtain rfl : k = "name" := named
    obtain rfl : x = .scalar (.parsed 2) (.str "string") .null := by simpa using hp
    cases resolved

open Specs.phoned in
/-- Persons have a list of phone numbers, and can be filtered by a number of that name. -/
theorem phoned_disagrees : ∃ api log a d filter f f', compile {} Specs.phoned = .ok (api, log) ∧
    a ∈ api.resources ∧ Keyed.find? a.typeName api.types = some d ∧
    Keyed.find? a.filterType api.inputs = some filter ∧ f ∈ filter.fields ∧
    f.name ∉ ["search", "limit", "offset"] ∧ f' ∈ d.fields ∧ f'.name = f.name ∧
    f.sourceName = some "phone_number" ∧ f'.sourceName = some "phone-number" ∧
    f.typeName = "Int" ∧ f'.typeName = "String" ∧ f'.isList = true := by
  obtain ⟨c, log, a, d, filter, h, -, ha, made, shown, input, shown', -⟩ := compiles
  obtain ⟨f, hf, name, source, type, -⟩ := exists_of_outline
    (x := ("phone_number", some "phone_number", "Int", false)) shown' (by decide)
  obtain ⟨f', hf', name', source', type', list⟩ := exists_of_outline
    (x := ("phone_number", some "phone-number", "String", true)) shown (by decide)
  refine ⟨_, log, a, d, filter, f, f', h, ha, made, input, hf, ?_, hf', ?_, source, source', type,
    type', list⟩
  · rw [name]
    decide
  · rw [name, name']

end ResourceGraph
