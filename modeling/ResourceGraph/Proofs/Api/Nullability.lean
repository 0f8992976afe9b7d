import ResourceGraph.Proofs.Api.Collisions
import ResourceGraph.Proofs.Api.SearchableMap
import ResourceGraph.Proofs.Schema.Required

/-!
# Which fields may be null

A field is not null exactly if the object that its type was made of requires the property. For a
schema that merges plain objects this is decided by those of them that are read as objects: what
another one requires does not count.
-/

namespace ResourceGraph

open NodeTable

/-! ## The object of a type -/

namespace Registry

variable {n : Nat}

/-- Of the object that the type was claimed for, the property is the first of its field name. -/
def IsFirst (r : Registry n) (typeName p : String) : Prop :=
  ∃ key properties required additional other, Keyed.find? typeName r.sources
      = some ("type", .node (.object key properties required additional other)) ∧
    p ∈ firstsBy Naming.sanitizeFieldName (Keyed.keys properties)

variable {r : Registry n} {typeName : String} {x : Node n} {a : Resource}

theorem isFirst_iff {key : ObjectKey n} {properties : List (String × Node n)}
    {required : List String} {additional : Option (Node n)} {other : Value}
    (claimed : Keyed.find? typeName r.sources
      = some ("type", .node (.object key properties required additional other))) (p : String) :
    r.IsFirst typeName p ↔ p ∈ firstsBy Naming.sanitizeFieldName (Keyed.keys properties) := by
  refine ⟨?_, fun first => ⟨_, _, _, _, _, claimed, first⟩⟩
  rintro ⟨_, _, _, _, _, claimed', first⟩
  cases claimed.symm.trans claimed'
  exact first

theorem Refers.of_claimed {kind : String}
    (claimed : Keyed.find? typeName r.sources = some (kind, .node x)) : r.Refers kind x typeName :=
  ⟨_, claimed, by simp [Source.same, Node.sameOrEqual]⟩

/-- A name that was claimed for a node is not that of a page type. -/
theorem Refers.ne_connectionType {kind : String} (h : r.Refers kind x typeName)
    (serves : r.Serves a) : typeName ≠ a.connectionType := by
  rintro rfl
  obtain ⟨source, found, same⟩ := h
  obtain ⟨source', found', same'⟩ := isClaimed_eq_true serves.page
  cases found.symm.trans found'
  cases source with
  | node y => cases same'
  | _ => cases same

end Registry

namespace Assembly.Faithful

variable {n : Nat} {s : Assembly n} {typeName : String} {key : ObjectKey n}
  {properties : List (String × Node n)} {required : List String} {additional : Option (Node n)}
  {other : Value}

/-- The type that stands for an object is the image of an object that has the same properties and
requires the same. -/
theorem exists_image (h : s.Faithful) (done : s.root = none) (opened : s.visiting = [])
    (serves : ∀ a ∈ s.registry.api.resources, s.registry.Serves a)
    (yields : s.table.Yields (.object key properties required additional other))
    (refers : s.registry.Refers "type" (.object key properties required additional other)
      typeName) : ∃ d key' properties' additional' other',
        Keyed.find? typeName s.registry.api.types = some d ∧
        Keyed.find? typeName s.registry.sources
          = some ("type", .node (.object key' properties' required additional' other')) ∧
        Matching properties' properties ∧
        (properties' ≠ [] → List.Forall₂
          (FieldImage s.registry.Refers s.table s.registry required typeName)
          (firstsBy (fun p => Naming.sanitizeFieldName p.1) properties') d.fields) := by
  obtain ⟨key', properties', additional', other', claimed, members⟩ :=
    h.exists_claimed yields refers
  have complete : typeName ∈ Keyed.keys s.registry.api.types :=
    (h.consistent.registry.types typeName).mpr ⟨⟨_, claimed⟩, by rw [opened]; exact nofun⟩
  obtain ⟨d, hd⟩ := Keyed.exists_of_mem_keys complete
  have unpaged : ∀ a ∈ s.registry.api.resources, typeName ≠ a.connectionType :=
    fun a ha => refers.ne_connectionType (serves a ha)
  obtain ⟨_, _, _, _, _, claimed', -, image⟩ :=
    h.typeImage done (fun _ _ _ _ _ hx => hx) (typeName, d) (Keyed.mem_of_find? hd) unpaged
  cases claimed.symm.trans claimed'
  exact ⟨d, _, _, _, _, hd, claimed, members, image⟩

end Assembly.Faithful

theorem ElementType.of_object {n : Nat} {Named : String → Node n → String → Prop}
    {key : ObjectKey n} {properties : List (String × Node n)} {required : List String}
    {additional : Option (Node n)} {other : Value} {name : String}
    (h : ElementType Named (some (.object key properties required additional other)) name) :
    Named "type" (.object key properties required additional other) name := by
  cases h with
  | object named => exact named

/-! ## The types of schemas -/

namespace Compilation

variable {g : RawGraph} {o : CompileOptions}

theorem Course.sourced {course : List (ResourceSpec g.size × Except Skip Resource)}
    {c c' : Compilation g.size} (h : Course o c course c') (sound : c.table.Sound [])
    {spec : ResourceSpec g.size} {a : Resource} (ha : (spec, .ok a) ∈ course) :
    ∃ root, Makes o [spec] c'.table root a ∧ c'.registry.Refers "type" root a.typeName := by
  induction h with
  | done => cases ha
  | @completed c c₁ c' _ _ rest step completes after ih =>
      obtain ⟨-, sound'⟩ := addResource_run sound step
      rcases List.mem_cons.mp ha with first | later
      · cases first
        obtain ⟨root, makes, refers⟩ := completes.source
        have run := addResources_run sound' after.addResources
        exact ⟨root, makes.grown sound' (run.grows sound').1.table, refers.keeps run.keeps⟩
      · exact ih sound' later
  | skipped step skips after ih =>
      obtain ⟨-, sound'⟩ := addResource_run sound step
      rcases List.mem_cons.mp ha with first | later
      · cases first
      · exact ih sound' later

/-- Every resource has the definitions that belong to it. -/
theorem Course.serving {course : List (ResourceSpec g.size × Except Skip Resource)}
    {c : Compilation g.size} (h : Course o {} course c) :
    ∀ a ∈ c.registry.api.resources, c.registry.Serves a := by
  rw [h.resources]
  exact h.serves (sound_empty [])

/-- The type that is generated for a schema. -/
inductive Generates (o : CompileOptions)
    (course : List (ResourceSpec g.size × Except Skip Resource)) (c : Compilation g.size) :
    Node g.size → String → Prop
  /-- The main schema of a resource has the type of the resource. -/
  | main {spec : ResourceSpec g.size} {a : Resource} {i : Fin g.size} {x : Node g.size}
      (compiled : (spec, .ok a) ∈ course)
      (main : mainSchema? spec.schemas (o.naming.singular spec.name) = some (.obj i))
      (read : c.table.find? i = some x) : Generates o course c x a.typeName
  /-- The schema of a property, or of its items, has the type of the field. -/
  | nested {typeName : String} {key : ObjectKey g.size} {properties : List (String × Node g.size)}
      {required : List String} {additional : Option (Node g.size)} {other : Value}
      {p : String × Node g.size} {x : Node g.size} {d : TypeDef} {f : Field}
      (claimed : Keyed.find? typeName c.registry.sources
        = some ("type", .node (.object key properties required additional other)))
      (made : Keyed.find? typeName c.registry.api.types = some d) (property : p ∈ properties)
      (field : f ∈ d.fields) (source : f.sourceName = some p.1)
      (part : x = p.2 ∨ ∃ id, c.table.resolve p.2 = some (.array id (some x))) :
      Generates o course c x f.typeName
  /-- Schemas of equal objects share a type. -/
  | shared {typeName : String} {x y : Node g.size} (known : x.All (c.table.Knows []))
      (resolved : c.table.resolve x = some y) (refers : c.registry.Refers "type" y typeName) :
      Generates o course c x typeName

namespace Generates

variable {course : List (ResourceSpec g.size × Except Skip Resource)} {c : Compilation g.size}
  {x : Node g.size} {typeName : String}

theorem refers (after : Course o {} course c)
    (faithful : Assembly.Faithful ⟨c.table, none, [], c.registry⟩)
    (h : Generates o course c x typeName) : x.All (c.table.Knows []) ∧
      ∀ key properties required additional other,
        c.table.resolve x = some (.object key properties required additional other) →
        c.registry.Refers "type" (.object key properties required additional other) typeName := by
  cases h with
  | main compiled main read =>
      obtain ⟨root, makes, refers⟩ := after.sourced (sound_empty []) compiled
      obtain ⟨_, here, -, _, _, main', found, resolved⟩ := makes.main
      obtain rfl := List.mem_singleton.mp here
      cases main.symm.trans main'
      cases read.symm.trans found
      refine ⟨(faithful.sound _ _ read).2, fun key properties required additional other is => ?_⟩
      cases resolved.symm.trans is
      exact refers
  | @nested _ _ properties required _ _ p x d f claimed made property field source part =>
      have yields := faithful.known _ _ _ claimed
      have settled := yields.settled faithful.sound
      have known := settled.property p property
      obtain ⟨d', _, _, _, _, made', claimed', -, image⟩ :=
        faithful.exists_image rfl rfl (after.serving) yields (.of_claimed claimed)
      cases made.symm.trans made'
      cases claimed.symm.trans claimed'
      obtain ⟨p', hp', own⟩ := exists_of_forall₂_right (image (List.ne_nil_of_mem property)) field
      have same : p' = p := by
        refine List.inj_on_of_nodup_map settled.distinct (firstsBy_subset _ hp') property ?_
        exact Option.some.inj (own.source.symm.trans source)
      have type := own.type
      rw [same] at type
      rcases part with rfl | ⟨id, array⟩
      · refine ⟨known, fun key properties required additional other is => ?_⟩
        rw [element, is] at type
        exact type.of_object
      · refine ⟨(resolve_settled faithful.sound known array).items,
          fun key properties required additional other is => ?_⟩
        have inside : c.table.element p.2 = c.table.resolve x := by
          rw [element, array]
          rfl
        rw [inside, is] at type
        exact type.of_object
  | shared known resolved refers =>
      refine ⟨known, fun key properties required additional other is => ?_⟩
      cases resolved.symm.trans is
      exact refers

end Generates

end Compilation

/-- What branches require, against what those of them require that count. -/
theorem iff_iff_of_required {α : Type} {as : List α} {counts requires : α → Prop} {nonnull : Prop}
    (h : nonnull ↔ ∃ a ∈ as, counts a ∧ requires a) :
    (nonnull ↔ ∃ a ∈ as, requires a) ↔
      ∀ a ∈ as, requires a → ∃ b ∈ as, counts b ∧ requires b := by
  constructor
  · exact fun same a ha required => h.mp (same.mpr ⟨a, ha, required⟩)
  · refine fun enough => ⟨fun set => ?_, fun ⟨a, ha, required⟩ => h.mpr (enough a ha required)⟩
    obtain ⟨a, ha, -, required⟩ := h.mp set
    exact ⟨a, ha, required⟩

open Compilation in
/-- If specifications compile, then for a schema that merges plain objects, by itself or as the
first of alternatives, the generated type has a field for each property of these objects that is the
first of its field name: in the object that the type was claimed for, so in the schema unless an
equal object came before. The field is not null exactly if one of the plain objects that is read as
an object requires the property. So nullability follows what all of them require exactly if each
name that any of them requires is required by one that is read as an object. -/
theorem compile_requires_iff {o : CompileOptions} {s : Specs} {api : Api} {log : List LogLine}
    (h : compile o s = .ok (api, log)) :
    ∃ (course : List (ResourceSpec s.graph.size × Except Skip Resource))
        (c : Compilation s.graph.size),
      course.map (·.1) = s.specs ∧ Course o {} course c ∧ c.registry.api = api ∧
      api.resources = compiled course ∧
      ∀ {x typeName}, Generates o course c x typeName →
      ∀ {i js k branches}, s.graph.Merges i js →
        c.table.Ends k x (.composite i .allOf branches) →
      ∃ d, Keyed.find? typeName api.types = some d ∧ ∀ p ∈ s.graph.propertyNames js,
        (c.registry.IsFirst typeName p ↔ ∃ f ∈ d.fields, f.sourceName = some p) ∧
        (∀ y, c.table.resolve x = some y →
          Keyed.find? typeName c.registry.sources = some ("type", .node y) →
          (c.registry.IsFirst typeName p
            ↔ p ∈ firstsBy Naming.sanitizeFieldName (s.graph.propertyNames js))) ∧
        ∀ f ∈ d.fields, f.sourceName = some p →
          f.name = Naming.sanitizeFieldName p ∧
          (f.isOptional = false
            ↔ ∃ j ∈ js, s.graph.isObject j = true ∧ s.graph.Requires j p) ∧
          ((f.isOptional = false ↔ ∃ j ∈ js, s.graph.Requires j p)
            ↔ ∀ j ∈ js, s.graph.Requires j p →
              ∃ j' ∈ js, s.graph.isObject j' = true ∧ s.graph.Requires j' p) := by
  obtain ⟨c, hc, rfl, faithful⟩ := Assembly.compile_faithful h
  obtain ⟨c', hc', -, reads⟩ := compile_reads h
  cases hc.symm.trans hc'
  obtain ⟨course, specs, after⟩ := addResources_course (sound_empty []) hc
  refine ⟨course, c, specs, after, rfl, after.resources, fun {x typeName} generates => ?_⟩
  intro i js k branches merges ends
  obtain ⟨known, refers⟩ := generates.refers after faithful
  obtain ⟨owner, properties, required, resolved, keys, requires⟩ :=
    resolve_merges faithful.sound reads.reflects known merges ends
  obtain ⟨d, _, properties', _, _, made, claimed, members, image⟩ :=
    faithful.exists_image rfl rfl after.serving ⟨x, known, resolved⟩ (refers _ _ _ _ _ resolved)
  refine ⟨d, made, fun p hp => ?_⟩
  have listed : p ∈ Keyed.keys properties := by
    have first : p ∈ (firstsBy id (s.graph.propertyNames js)).map id :=
      mem_keys_firstsBy.mpr (List.mem_map_of_mem hp)
    rwa [List.map_id, ← keys] at first
  obtain ⟨q, hq, rfl⟩ := List.mem_map.mp ((members.keys p).mpr listed)
  have image := image (List.ne_nil_of_mem hq)
  refine ⟨?_, fun y is own => ?_, fun f hf source => ?_⟩
  · rw [Registry.isFirst_iff claimed, Keyed.keys, ← map_firstsBy, List.mem_map]
    constructor
    · rintro ⟨q', hq', named⟩
      obtain ⟨f, hf, field⟩ := exists_of_forall₂_left image hq'
      exact ⟨f, hf, field.source.trans (congrArg some named)⟩
    · rintro ⟨f, hf, source⟩
      obtain ⟨q', hq', field⟩ := exists_of_forall₂_right image hf
      exact ⟨q', hq', Option.some.inj (field.source.symm.trans source)⟩
  · cases resolved.symm.trans is
    cases claimed.symm.trans own
    rw [Registry.isFirst_iff claimed, keys, firstsBy_distinct]
  · obtain ⟨q', -, field⟩ := exists_of_forall₂_right image hf
    have named := Option.some.inj (field.source.symm.trans source)
    have nonnull := (named ▸ field.optional).trans (requires q.1)
    exact ⟨named ▸ field.name, nonnull, iff_iff_of_required nonnull⟩

/-- Persons with a name that an object requires, and an age that something untyped requires. -/
abbrev Specs.aged : Specs where
  graph :=
    { size := 6
      objects := #v[
        [("allOf", .arr [.obj 1, .obj 3, .obj 4])],
        [("properties", .obj 2)],
        [("name", .obj 5), ("age", .obj 5)],
        [("type", .str "object"), ("required", .arr [.str "name"])],
        [("required", .arr [.str "age"])],
        [("type", .str "string")]]
      nodup := by decide }
  specs := [{ name := "persons", schemas := [("Person", .obj 0)] }]

namespace Specs.aged

abbrev persons : ResourceSpec Specs.aged.graph.size :=
  { name := "persons", schemas := [("Person", .obj 0)] }

abbrev person : Node Specs.aged.graph.size :=
  .composite 0 .allOf [
    .object (.parsed 1)
      [("name", .scalar (.parsed 5) (.str "string") .null),
        ("age", .scalar (.parsed 5) (.str "string") .null)] [] none .null,
    .object (.parsed 3) [] ["name"] none .null,
    .scalar (.parsed 4) .null .null]

theorem merges : Specs.aged.graph.Merges 0 [1, 3, 4] where
  branches := rfl
  plain := by
    simp only [List.forall_mem_cons]
    refine ⟨⟨?_, .inl rfl, .inl rfl⟩, ⟨?_, .inr rfl, .inr ⟨["name"], rfl⟩⟩,
      ⟨?_, .inl rfl, .inr ⟨["age"], rfl⟩⟩, nofun⟩ <;>
    · simp only [List.forall_mem_cons]
      exact ⟨rfl, rfl, rfl, rfl, nofun⟩

set_option maxRecDepth 4000 in
theorem persons_compiled : ∃ c, Compilation.addResource {} {} persons = .ok c ∧
    c.table.find? 0 = some person ∧ c.registry.api.resources.map Resource.typeName = ["Person"] ∧
    (Keyed.find? "Person" c.registry.api.types).map
        (fun d => d.fields.map fun f => (f.sourceName, f.isOptional))
      = some [(some "name", false), (some "age", true)] := by
  have shown : (Compilation.addResource {} {} persons).map (fun c => (c.table.find? 0,
      c.registry.api.resources.map Resource.typeName,
      (Keyed.find? "Person" c.registry.api.types).map
        (fun d => d.fields.map fun f => (f.sourceName, f.isOptional))))
      = .ok (some person, ["Person"], some [(some "name", false), (some "age", true)]) := by
    cbv
  obtain ⟨c, compiled, shown⟩ := exists_of_map_eq_ok shown
  obtain ⟨read, rest⟩ := Prod.mk.inj shown
  obtain ⟨named, fields⟩ := Prod.mk.inj rest
  exact ⟨c, compiled, read, named, fields⟩

theorem compiles : ∃ api log, compile {} Specs.aged = .ok (api, log) := by
  obtain ⟨c, compiled, -⟩ := persons_compiled
  have run : Compilation.addResources {} Specs.aged.specs {} = .ok c :=
    Compilation.addResources_cons compiled
  exact ⟨_, _, Assembly.compile_of_addResources run⟩

/-- Persons are generated for the merged schema, and show their name and their age. -/
theorem generates {course : List (ResourceSpec Specs.aged.graph.size × Except Skip Resource)}
    {c : Compilation Specs.aged.graph.size} (specs : course.map (·.1) = Specs.aged.specs)
    (h : Compilation.Course {} {} course c) :
    Compilation.Generates {} course c person "Person" ∧
      ∃ d, Keyed.find? "Person" c.registry.api.types = some d ∧
        d.fields.map (fun f => (f.sourceName, f.isOptional))
          = [(some "name", false), (some "age", true)] := by
  obtain ⟨c', compiled, read, named, fields⟩ := persons_compiled
  have run := h.addResources
  rw [specs, Compilation.addResources_cons compiled] at run
  cases run
  refine ⟨?_, Option.map_eq_some_iff.mp fields⟩
  have resources := h.resources
  cases h with
  | done => cases specs
  | @completed _ _ _ spec a rest step completes after =>
      obtain ⟨rfl, none⟩ := List.cons.inj specs
      cases List.map_eq_nil_iff.mp none
      rw [resources] at named
      have type : a.typeName = "Person" := (List.cons.inj named).1
      have main : mainSchema? persons.schemas (Naming.english.singular persons.name)
          = some (.obj 0) := by cbv
      have generates : Compilation.Generates {} [(persons, .ok a)] c person a.typeName :=
        .main (List.mem_cons_self ..) main read
      rwa [type] at generates
  | skipped =>
      obtain ⟨-, none⟩ := List.cons.inj specs
      cases List.map_eq_nil_iff.mp none
      rw [resources] at named
      cases named

end Specs.aged

open Specs.aged in
/-- The name of a person is not null. -/
theorem aged_requires : ∃ api log d f, compile {} Specs.aged = .ok (api, log) ∧
    Keyed.find? "Person" api.types = some d ∧ f ∈ d.fields ∧ f.name = "name" ∧
    f.sourceName = some "name" ∧ f.isOptional = false := by
  obtain ⟨api, log, h⟩ := compiles
  obtain ⟨course, c, specs, after, rfl, -, requires⟩ := compile_requires_iff h
  obtain ⟨person, d, made, fields⟩ := generates specs after
  obtain ⟨d', made', requires⟩ := requires person merges (.here rfl rfl)
  cases made.symm.trans made'
  have listed : "name" ∈ Specs.aged.graph.propertyNames [1, 3, 4] := by decide
  have shown : (some "name", false) ∈ d.fields.map (fun f => (f.sourceName, f.isOptional)) := by
    rw [fields]
    exact List.mem_cons_self ..
  obtain ⟨f, hf, same⟩ := List.mem_map.mp shown
  obtain ⟨named, nonnull, -⟩ := (requires "name" listed).2.2 f hf (Prod.mk.inj same).1
  refine ⟨_, log, d, f, h, made, hf, named, (Prod.mk.inj same).1, nonnull.mpr ⟨3, ?_, rfl, ?_⟩⟩
  · decide
  · exact ⟨_, rfl, List.mem_singleton_self _⟩

open Specs.aged in
/-- A branch requires the age of a person, which may be null. -/
theorem aged_not_requires : ∃ api log course c x branches d f,
    compile {} Specs.aged = .ok (api, log) ∧ course.map (·.1) = Specs.aged.specs ∧
    Compilation.Course {} {} course c ∧ c.registry.api = api ∧
    Compilation.Generates {} course c x "Person" ∧
    c.table.deref x = some (.composite 0 .allOf branches) ∧ Specs.aged.graph.Merges 0 [1, 3, 4] ∧
    Specs.aged.graph.Requires 4 "age" ∧ Keyed.find? "Person" api.types = some d ∧
    f ∈ d.fields ∧ f.sourceName = some "age" ∧ f.isOptional = true := by
  obtain ⟨api, log, h⟩ := compiles
  obtain ⟨c, hc, rfl, -⟩ := Assembly.compile_faithful h
  obtain ⟨course, specs, after⟩ := Compilation.addResources_course (NodeTable.sound_empty []) hc
  obtain ⟨person, d, made, fields⟩ := generates specs after
  have shown : (some "age", true) ∈ d.fields.map (fun f => (f.sourceName, f.isOptional)) := by
    rw [fields]
    exact List.mem_cons_of_mem _ (List.mem_singleton_self _)
  obtain ⟨f, hf, same⟩ := List.mem_map.mp shown
  obtain ⟨source, optional⟩ := Prod.mk.inj same
  exact ⟨_, log, course, c, _, _, d, f, h, specs, after, rfl, person, rfl, merges,
    ⟨_, rfl, List.mem_singleton_self _⟩, made, hf, source, optional⟩

end ResourceGraph
