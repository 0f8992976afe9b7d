import Mathlib.Data.List.Nodup
import ResourceGraph.Proofs.Api.WellFormed

/-!
# Compiled APIs are images of their schemas

Every object type but a page type is the image of the object node that its name was claimed with,
property by property. References within a cycle are the hard part: they are made before their type
is there, and they must lead to the very node under construction. An object type encloses another
when its name was claimed before and its type completed after, so what enclosed a type while it was
built can be told from the registry at the end.
-/

namespace ResourceGraph

variable {n : Nat}

/-! ## Images -/

/-- The type of a field for the element of its property. `Named` says which name stands for a
definition of a kind. -/
inductive ElementType (Named : String → Node n → String → Prop) : Option (Node n) → String → Prop
  | missing : ElementType Named none "String"
  | array (id items) : ElementType Named (some (.array id items)) "String"
  | emptyEnumeration (id type) : ElementType Named (some (.enumeration id [] type)) "String"
  | scalar {key type format name}
      (mapped : Node.scalarName (some (.scalar key type format : Node n)) = .ok name) :
      ElementType Named (some (.scalar key type format)) name
  | enumeration {id values type name} (some_value : values ≠ [])
      (named : Named "enum" (.enumeration id values type) name) :
      ElementType Named (some (.enumeration id values type)) name
  | object {key properties required additional other name}
      (named : Named "type" (.object key properties required additional other) name) :
      ElementType Named (some (.object key properties required additional other)) name

theorem ElementType.mono {Named Named' : String → Node n → String → Prop} {x : Option (Node n)}
    (h : ∀ kind y name, x = some y → y.Definable → Named kind y name → Named' kind y name)
    {name : String} (hx : ElementType Named x name) : ElementType Named' x name := by
  cases hx with
  | missing => exact .missing
  | array id items => exact .array id items
  | emptyEnumeration id type => exact .emptyEnumeration id type
  | scalar mapped => exact .scalar mapped
  | enumeration some_value named => exact .enumeration some_value (h _ _ _ rfl trivial named)
  | object named => exact .object (h _ _ _ rfl trivial named)

def Node.objectKey? : Node n → Option (ObjectKey n)
  | .object key _ _ _ _ => some key
  | _ => none

/-- The type of the first name was under construction while that of the second was built. -/
def Registry.Encloses (r : Registry n) (outer inner : String) : Prop :=
  outer = inner ∨
    (Keyed.keys r.sources).idxOf outer < (Keyed.keys r.sources).idxOf inner ∧
      (Keyed.keys r.api.types).idxOf inner < (Keyed.keys r.api.types).idxOf outer

/-- The field of a property in the type `parent`. -/
structure FieldImage (Named : String → Node n → String → Prop) (t : NodeTable n) (r : Registry n)
    (required : List String) (parent : String) (p : String × Node n) (f : Field) : Prop where
  name : f.name = Naming.sanitizeFieldName p.1
  source : f.sourceName = some p.1
  optional : f.isOptional = false ↔ p.1 ∈ required
  list : f.isList = true ↔ ∃ id items, t.resolve p.2 = some (.array id items)
  type : ElementType Named (t.element p.2) f.typeName
  /-- A field that closes a cycle has the type of the node under construction. -/
  cycle : ∀ outer key, r.Encloses outer parent → r.Builds outer key →
    (t.element p.2).bind Node.objectKey? = some key → f.typeName = outer
  plain : f.isItemOptional = true ∧ f.arguments = []

/-- The type of an object node: a field for the first property of each name, in order. -/
def TypeImage (Named : String → Node n → String → Prop) (t : NodeTable n) (r : Registry n)
    (name : String) (d : TypeDef) : Prop :=
  ∃ key properties required additional other,
    Keyed.find? name r.sources
      = some ("type", .node (.object key properties required additional other)) ∧
    (properties = [] → d.fields = [{ name := "_empty", typeName := "String" }]) ∧
    (properties ≠ [] → List.Forall₂ (FieldImage Named t r required name)
      (firstsBy (fun p => Naming.sanitizeFieldName p.1) properties) d.fields)

/-! ## Order of names -/

theorem idxOf_lt_of_append {names names' : List String} (h : names <+: names') {a b : String}
    (hb : b ∈ names) (hab : names'.idxOf a < names'.idxOf b) :
    a ∈ names ∧ names.idxOf a < names.idxOf b := by
  obtain ⟨rest, rfl⟩ := h
  rw [List.idxOf_append_of_mem hb, List.idxOf_append] at hab
  split at hab
  · rename_i ha
    exact ⟨ha, hab⟩
  · have := List.idxOf_lt_length_of_mem hb
    omega

theorem idxOf_lt_of_mem_append {names names' : List String} (h : names <+: names') {a b : String}
    (ha : a ∈ names) (hab : names'.idxOf a < names'.idxOf b) : names.idxOf a < names.idxOf b := by
  obtain ⟨rest, rfl⟩ := h
  rw [List.idxOf_append_of_mem ha, List.idxOf_append] at hab
  split at hab
  · exact hab
  · rename_i hb
    rw [List.idxOf_eq_length hb]
    exact List.idxOf_lt_length_of_mem ha

/-- A name that encloses a complete one did so when that was completed. -/
theorem Registry.Encloses.before {r r' : Registry n}
    (sources : Keyed.keys r.sources <+: Keyed.keys r'.sources)
    (types : Keyed.keys r.api.types <+: Keyed.keys r'.api.types) {outer inner : String}
    (claimed : inner ∈ Keyed.keys r.sources) (complete : inner ∈ Keyed.keys r.api.types)
    (h : r'.Encloses outer inner) : outer ∈ Keyed.keys r.sources ∧ r.Encloses outer inner := by
  rcases h with rfl | ⟨before, after⟩
  · exact ⟨claimed, Or.inl rfl⟩
  · obtain ⟨ho, before⟩ := idxOf_lt_of_append sources claimed before
    exact ⟨ho, Or.inr ⟨before, idxOf_lt_of_mem_append types complete after⟩⟩

/-! ## Growth -/

namespace Assembly

variable {g : RawGraph} {o : CompileOptions}

/-- What is there stays there, in its order. -/
structure Grows (s s' : Assembly n) : Prop where
  table : s.table.Extends s'.table
  registry : s.registry.Keeps s'.registry
  sources : Keyed.keys s.registry.sources <+: Keyed.keys s'.registry.sources
  types : Keyed.keys s.registry.api.types <+: Keyed.keys s'.registry.api.types

theorem Grows.refl (s : Assembly n) : s.Grows s :=
  ⟨.refl _, .refl _, List.prefix_refl _, List.prefix_refl _⟩

theorem Grows.trans {s s' s'' : Assembly n} (h : s.Grows s') (h' : s'.Grows s'') : s.Grows s'' :=
  ⟨h.table.trans h'.table, h.registry.trans h'.registry, h.sources.trans h'.sources,
    h.types.trans h'.types⟩

theorem Step.grows {s s' : Assembly g.size} (h : Step g o s s') (hs : s.table.Sound []) :
    s.Grows s' ∧ s'.table.Sound [] := by
  have keeps := h.keeps
  cases h with
  | reading read =>
      have grown := (Parsing.run_grown hs read).1
      exact ⟨⟨grown.keeps, keeps, List.prefix_refl _, List.prefix_refl _⟩, grown.sound⟩
  | beginning | finishing =>
      exact ⟨⟨.refl _, keeps, List.prefix_refl _, List.prefix_refl _⟩, hs⟩
  | enumeration | opening | filter =>
      exact ⟨⟨.refl _, keeps, Keyed.keys_prefix_insert .., List.prefix_refl _⟩, hs⟩
  | closing =>
      exact ⟨⟨.refl _, keeps, List.prefix_refl _, Keyed.keys_prefix_insert ..⟩, hs⟩
  | connection =>
      exact ⟨⟨.refl _, keeps, Keyed.keys_prefix_insert .., Keyed.keys_prefix_insert ..⟩, hs⟩

theorem Run.grows {s s' : Assembly g.size} (h : Run g o s s') (hs : s.table.Sound []) :
    s.Grows s' ∧ s'.table.Sound [] := by
  refine h.invariant (P := fun s' => s.Grows s' ∧ s'.table.Sound []) (fun step ⟨grown, sound⟩ => ?_)
    ⟨.refl s, hs⟩
  obtain ⟨grows, sound'⟩ := step.grows sound
  exact ⟨grown.trans grows, sound'⟩

end Assembly

/-- The key of an object is that of the node its name was claimed for. -/
theorem Registry.Builds.key_unique {r : Registry n} {name : String} {key key' : ObjectKey n}
    (h : r.Builds name key) (h' : r.Builds name key') : key = key' := by
  obtain ⟨_, _, _, _, hs⟩ := h
  obtain ⟨_, _, _, _, hs'⟩ := h'
  rw [hs] at hs'
  cases hs'
  rfl

/-- The nodes that names were claimed for are ones that known nodes resolve to. -/
def Registry.Known (r : Registry n) (t : NodeTable n) : Prop :=
  ∀ name kind x, Keyed.find? name r.sources = some (kind, .node x) → t.Yields x

theorem Registry.Known.mono {r : Registry n} {t t' : NodeTable n} (h : r.Known t)
    (sound : t.Sound []) (ht : t.Extends t') : r.Known t' :=
  fun name kind x hx => (h name kind x hx).extends sound ht

theorem Registry.Known.claim {r : Registry n} {t : NodeTable n} (h : r.Known t)
    {name kind : String} {source : Source n} (new : ∀ x, source = .node x → t.Yields x) :
    (r.claim name kind source).Known t := by
  intro name' kind' x hx
  have hfind : Keyed.find? name' (r.claim name kind source).sources
      = if name' = name then some (kind, source) else Keyed.find? name' r.sources :=
    Keyed.find?_insert ..
  rw [hfind] at hx
  split at hx
  · exact new x (Prod.mk.inj (Option.some.inj hx)).2
  · exact h name' kind' x hx

/-- An image stays one while the table and the registry grow. -/
theorem FieldImage.grows {s s' : Assembly n} (hs : s.Grows s') (ht : s.table.Sound [])
    {Named Named' : String → Node n → String → Prop}
    (hn : ∀ kind x name, s'.table.Yields x → x.Definable → Named kind x name → Named' kind x name)
    {required : List String} {parent : String}
    (claimed : parent ∈ Keyed.keys s.registry.sources)
    (complete : parent ∈ Keyed.keys s.registry.api.types) {p : String × Node n} {f : Field}
    (hp : p.2.All (s.table.Knows []))
    (h : FieldImage Named s.table s.registry required parent p f) :
    FieldImage Named' s'.table s'.registry required parent p f where
  name := h.name
  source := h.source
  optional := h.optional
  list := by
    rw [NodeTable.resolve_extends ht hs.table hp]
    exact h.list
  type := by
    rw [NodeTable.element_extends ht hs.table hp]
    refine h.type.mono fun kind x name hx => hn kind x name ?_
    exact (NodeTable.element_yields ht hp hx).extends ht hs.table
  cycle := by
    intro outer key encloses builds he
    rw [NodeTable.element_extends ht hs.table hp] at he
    obtain ⟨ho, encloses⟩ := encloses.before hs.sources hs.types claimed complete
    obtain ⟨source, hf⟩ := Keyed.exists_of_mem_keys ho
    refine h.cycle outer key encloses ?_ he
    obtain ⟨properties, required, additional, other, hb⟩ := builds
    rw [hs.registry _ _ hf] at hb
    exact ⟨properties, required, additional, other, hf.trans hb⟩
  plain := h.plain

theorem TypeImage.grows {s s' : Assembly n} (hs : s.Grows s') (ht : s.table.Sound [])
    {Named Named' : String → Node n → String → Prop}
    (hn : ∀ kind x name, s'.table.Yields x → x.Definable → Named kind x name → Named' kind x name)
    (known : s.registry.Known s.table) {name : String}
    (complete : name ∈ Keyed.keys s.registry.api.types) {d : TypeDef}
    (h : TypeImage Named s.table s.registry name d) :
    TypeImage Named' s'.table s'.registry name d := by
  obtain ⟨key, properties, required, additional, other, hf, none, some⟩ := h
  refine ⟨key, properties, required, additional, other, hs.registry _ _ hf, none, fun hne => ?_⟩
  have properties_known : ∀ p ∈ firstsBy (fun p => Naming.sanitizeFieldName p.1) properties,
      p.2.All (s.table.Knows []) :=
    fun p hp => ((known _ _ _ hf).settled ht).property p (firstsBy_subset _ hp)
  exact ((List.forall₂_and_left _ _).mpr ⟨properties_known, some hne⟩).imp fun p f ⟨hp, image⟩ =>
    image.grows hs ht hn (Keyed.mem_keys_of_find? hf) complete hp

/-! ## A type is completed -/

theorem NodeTable.isArray_iff {t : NodeTable n} {x : Node n} :
    t.isArray x = true ↔ ∃ id items, t.resolve x = some (.array id items) := by
  unfold isArray
  split
  · rename_i id items h
    exact ⟨fun _ => ⟨id, items, h⟩, fun _ => rfl⟩
  · rename_i h
    exact ⟨nofun, fun ⟨id, items, he⟩ => absurd he (h id items)⟩

theorem Visiting.lookup_of_mem {visiting : Visiting n} (keys : (visiting.map (·.1)).Nodup)
    {key : ObjectKey n} {name : String} (h : (key, name) ∈ visiting) :
    visiting.lookup key = some name := by
  obtain ⟨other, hl, hm⟩ := Visiting.lookup_eq_some (List.mem_map_of_mem h)
  have he := List.inj_on_of_nodup_map keys hm h rfl
  rw [hl, (Prod.mk.inj he).2]

/-- A reference that was made for a concrete element has its type. -/
theorem elementType_of_reference {t : NodeTable n} {visiting : Visiting n} {name type : String}
    {r : Registry n} {x : Option (Node n)} (concrete : ∀ y, x = some y → y.IsConcrete)
    (h : t.reference visiting name x = .ok type) (provides : r.Provides x type) :
    ElementType r.Refers x type := by
  cases x with
  | none => cases h; exact .missing
  | some x =>
      cases x with
      | scalar key type format => exact .scalar h
      | enumeration id values type =>
          cases values with
          | nil => cases h; exact .emptyEnumeration id type
          | cons v values => exact .enumeration (List.cons_ne_nil v values) provides
      | array id items => cases h; exact .array id items
      | composite id kind branches => exact (concrete _ rfl).elim
      | object key properties required additional other => exact .object provides
      | ref serial target => exact (concrete _ rfl).elim

/-- The field of a property is its image, if what encloses the type is under construction. -/
theorem fieldImage_of_fieldOf {t : NodeTable n} (ht : t.Sound []) {visiting : Visiting n}
    (keys : (visiting.map (·.1)).Nodup) {r : Registry n} (claimed : r.Claimed visiting)
    {required : List String} {parent : String} {p : String × Node n}
    (hp : p.2.All (t.Knows [])) {f : Field}
    (opened : ∀ outer key, r.Encloses outer parent → r.Builds outer key →
      outer ∈ visiting.map (·.2))
    (h : t.fieldOf visiting required parent p = .ok f)
    (provides : r.Provides (t.element p.2) f.typeName) :
    FieldImage r.Refers t r required parent p f := by
  obtain ⟨type, href, rfl⟩ := NodeTable.fieldOf_eq_ok h
  refine ⟨rfl, rfl, by simp, NodeTable.isArray_iff, ?_, ?_, rfl, rfl⟩
  · have concrete : ∀ y, t.element p.2 = some y → y.IsConcrete :=
      fun y hy => ((NodeTable.element_yields ht hp hy).settled ht).concrete
    exact elementType_of_reference concrete href provides
  · intro outer key encloses builds he
    obtain ⟨⟨key', _⟩, hv, rfl⟩ := List.mem_map.mp (opened outer key encloses builds)
    obtain rfl := (claimed _ hv).key_unique builds
    obtain ⟨x, hx, hk⟩ := Option.bind_eq_some_iff.mp he
    cases x with
    | object key _ _ _ _ =>
        obtain rfl := Option.some.inj hk
        rw [hx, NodeTable.reference, Visiting.lookup_of_mem keys hv] at href
        exact (Except.ok.inj href).symm
    | _ => cases hk

/-- The innermost object type under construction, when its fields are there, becomes an image. -/
theorem typeImage_of_closing {t : NodeTable n} (ht : t.Sound []) {visiting : Visiting n}
    {key : ObjectKey n} {name : String} (keys : (((key, name) :: visiting).map (·.1)).Nodup)
    {r : Registry n} (claimed : r.Claimed ((key, name) :: visiting))
    (consistent : r.Consistent (((key, name) :: visiting).map (·.2)))
    {properties : List (String × Node n)} {required : List String} {additional : Option (Node n)}
    {other : Value} (source : Keyed.find? name r.sources
      = some ("type", .node (.object key properties required additional other)))
    (settled : t.Settled (.object key properties required additional other))
    {fields : List Field} (image : List.Forall₂
      (fun p f => t.fieldOf ((key, name) :: visiting) required name p = .ok f ∧
        r.Provides (t.element p.2) f.typeName) properties fields) :
    TypeImage (r.addType
        { name := name
          fields := Compiling.withSomeField (fields.foldl appendField []) }).Refers t
      (r.addType
        { name := name, fields := Compiling.withSomeField (fields.foldl appendField []) })
      name { name := name, fields := Compiling.withSomeField (fields.foldl appendField []) } := by
  generalize hd : ({ name := name
                     fields := Compiling.withSomeField (fields.foldl appendField []) } : TypeDef) = d
  have opened : ∀ outer key', (r.addType d).Encloses outer name → (r.addType d).Builds outer key' →
      outer ∈ ((key, name) :: visiting).map (·.2) := by
    rintro outer key' (rfl | ⟨-, after⟩) ⟨_, _, _, _, hs⟩
    · exact List.mem_cons_self ..
    · by_contra ho
      have complete := (consistent.types outer).mpr ⟨⟨_, hs⟩, ho⟩
      rw [← hd, Registry.addType_output rfl] at after
      have own := (idxOf_lt_of_append (Keyed.keys_prefix_insert ..) complete after).1
      exact ((consistent.types name).mp own).2 (List.mem_cons_self ..)
  have fieldImage := (List.forall₂_and_left _ _).mpr ⟨settled.property, image⟩
  have fieldImage := fieldImage.imp fun p f ⟨hp, hf, provides⟩ =>
    fieldImage_of_fieldOf (r := r.addType d) ht keys claimed hp opened hf provides
  rw [appendField_eq, foldl_appendNew_nil] at hd
  refine ⟨key, properties, required, additional, other, source, ?_, fun hne => ?_⟩
  · rintro rfl
    obtain rfl := List.forall₂_nil_left_iff.mp image
    rw [← hd]
    rfl
  · have some : firstsBy Field.name fields ≠ [] := by
      rw [Ne, firstsBy_eq_nil]
      rintro rfl
      exact hne (List.forall₂_nil_right_iff.mp image)
    have collected : d.fields = firstsBy Field.name fields := by
      rw [← hd]
      dsimp only
      rw [Compiling.withSomeField, if_neg (by rwa [List.isEmpty_iff])]
    rw [collected]
    exact forall₂_firstsBy (fun p f hf => hf.name.symm) fieldImage

namespace Assembly

variable {g : RawGraph} {o : CompileOptions}

/-- The name is that of a page type, of the resource in hand or of one that is finished. -/
def Pages (s : Assembly n) (name : String) : Prop :=
  (∃ names, s.root = some names ∧ name = names.typeName ++ "Connection") ∨
    ∃ a ∈ s.registry.api.resources, name = a.connectionType

/-- Every complete object type that is no page type is an image. -/
structure Faithful (s : Assembly n) : Prop where
  consistent : s.Consistent
  sound : s.table.Sound []
  claimed : s.registry.Claimed s.visiting
  keys : (s.visiting.map (·.1)).Nodup
  known : s.registry.Known s.table
  image : ∀ p ∈ s.registry.api.types,
    s.Pages p.1 ∨ TypeImage s.registry.Refers s.table s.registry p.1 p.2

theorem faithful_initial : (initial n).Faithful where
  consistent := consistent_initial
  sound := NodeTable.sound_empty []
  claimed := by simp [initial, Registry.Claimed]
  keys := List.nodup_nil
  known := by simp [initial, Registry.Known]
  image := by simp [initial]

/-- What is complete stays an image. -/
theorem Faithful.image_grows {s s' : Assembly n} (h : s.Faithful) (hs : s.Grows s')
    (pages : ∀ name, s.Pages name → s'.Pages name) {p : String × TypeDef}
    (hp : p ∈ s.registry.api.types) :
    s'.Pages p.1 ∨ TypeImage s'.registry.Refers s'.table s'.registry p.1 p.2 :=
  (h.image p hp).imp (pages p.1) fun image =>
    image.grows hs h.sound (fun _ _ _ _ _ hx => hx.keeps hs.registry) h.known
      (List.mem_map_of_mem hp)

theorem Step.faithful {s s' : Assembly g.size} (h : Step g o s s') (hs : s.Faithful) :
    s'.Faithful := by
  have consistent := h.consistent hs.consistent
  obtain ⟨grows, sound⟩ := h.grows hs.sound
  have kept {p} (pages : ∀ name, s.Pages name → s'.Pages name)
      (hp : p ∈ s.registry.api.types) := hs.image_grows grows pages hp
  cases h with
  | reading read =>
      exact ⟨consistent, sound, hs.claimed, hs.keys, hs.known.mono hs.sound grows.table,
        fun p hp => kept (fun _ h => h) hp⟩
  | beginning resource free =>
      refine ⟨consistent, sound, hs.claimed, hs.keys, hs.known, fun p hp => kept ?_ hp⟩
      rintro name (⟨names, hn, -⟩ | finished)
      · cases hn
      · exact Or.inr finished
  | enumeration named legal fresh yields =>
      refine ⟨consistent, sound, hs.claimed.keeps grows.registry, hs.keys, hs.known.claim ?_,
        fun p hp => kept (fun _ h => h) hp⟩
      rintro x ⟨⟩
      exact yields
  | opening named legal fresh unseen yields =>
      refine ⟨consistent, sound, List.forall_mem_cons.mpr ⟨?_, hs.claimed.keeps grows.registry⟩,
        List.nodup_cons.mpr ⟨unseen, hs.keys⟩, hs.known.claim ?_,
        fun p hp => kept (fun _ h => h) hp⟩
      · exact ⟨_, _, _, _, Registry.find?_claim ..⟩
      · rintro x ⟨⟩
        exact yields
  | closing claimed image =>
      refine ⟨consistent, sound, fun v hv => hs.claimed v (List.mem_cons_of_mem _ hv),
        (List.nodup_cons.mp hs.keys).2, hs.known, ?_⟩
      refine Registry.forall_mem_insert (Or.inr ?_) fun p hp => kept (fun _ h => h) hp
      exact typeImage_of_closing sound hs.keys hs.claimed hs.consistent.registry claimed
        ((hs.known _ _ _ claimed).settled sound) image
  | @connection _ _ names claimed fresh =>
      refine ⟨consistent, sound, hs.claimed.keeps grows.registry, hs.keys, hs.known.claim nofun, ?_⟩
      exact Registry.forall_mem_insert (Or.inl (Or.inl ⟨names, rfl, rfl⟩))
        fun p hp => kept (fun _ h => h) hp
  | filter fresh image =>
      exact ⟨consistent, sound, hs.claimed.keeps grows.registry, hs.keys, hs.known.claim nofun,
        fun p hp => kept (fun _ h => h) hp⟩
  | finishing resource searchable claimed paged =>
      refine ⟨consistent, sound, hs.claimed, hs.keys, hs.known, fun p hp => kept ?_ hp⟩
      rintro name (⟨names, hn, rfl⟩ | ⟨a, ha, rfl⟩)
      · cases hn
        refine Or.inr ⟨_, List.mem_append_right _ (List.mem_singleton_self _), ?_⟩
        rw [ResourceNames.resource, Resource.connectionType]
      · exact Or.inr ⟨a, List.mem_append_left _ ha, rfl⟩

theorem Run.faithful {s s' : Assembly g.size} (h : Run g o s s') (hs : s.Faithful) :
    s'.Faithful :=
  h.invariant Step.faithful hs

end Assembly

/-! ## Compiled APIs -/

/-- The name is that of a definition of the kind, and was claimed for an equal node. -/
def Registry.Defines (r : Registry n) (kind : String) (x : Node n) (name : String) : Prop :=
  r.Refers kind x name ∧
    (kind = "enum" → name ∈ Keyed.keys r.api.enums) ∧ (kind = "type" → name ∈ Keyed.keys r.api.types)

theorem Registry.Consistent.defines {r : Registry n} (h : r.Consistent []) {kind name : String}
    {x : Node n} (hx : r.Refers kind x name) : r.Defines kind x name := by
  obtain ⟨source, hs, -⟩ := id hx
  refine ⟨hx, ?_, ?_⟩
  · rintro rfl
    exact (h.enums name).mpr ⟨source, hs⟩
  · rintro rfl
    exact (h.types name).mpr ⟨⟨source, hs⟩, List.not_mem_nil⟩

/-- Of a compilation that is at its end, every object type but the page types is an image. -/
theorem Assembly.Faithful.typeImage {s : Assembly n} (h : s.Faithful) (done : s.root = none)
    {Named : String → Node n → String → Prop}
    (hn : ∀ kind x name, s.table.Yields x → x.Definable → s.registry.Refers kind x name →
      Named kind x name) :
    ∀ p ∈ s.registry.api.types, (∀ a ∈ s.registry.api.resources, p.1 ≠ a.connectionType) →
      TypeImage Named s.table s.registry p.1 p.2 := by
  intro p hp unpaged
  rcases h.image p hp with (⟨names, root, -⟩ | ⟨a, ha, hname⟩) | image
  · rw [done] at root
    cases root
  · exact absurd hname (unpaged a ha)
  · exact image.grows (.refl s) h.sound hn h.known (List.mem_map_of_mem hp)

theorem Assembly.compile_faithful {o : CompileOptions} {s : Specs} {api : Api} {log : List LogLine}
    (h : compile o s = .ok (api, log)) :
    ∃ c, Compilation.addResources o s.specs {} = .ok c ∧ c.registry.api = api ∧
      Faithful ⟨c.table, none, [], c.registry⟩ := by
  obtain ⟨c, hc, hapi, run⟩ := compile_run h
  exact ⟨c, hc, hapi, run.faithful faithful_initial⟩

/-- Whatever the resources are, if they compile then every object type but the page types is the
image of the object node that its name was claimed for. -/
theorem compile_image {o : CompileOptions} {s : Specs} {api : Api} {log : List LogLine}
    (h : compile o s = .ok (api, log)) :
    ∃ c, Compilation.addResources o s.specs {} = .ok c ∧ c.registry.api = api ∧
      ∀ p ∈ api.types, (∀ a ∈ api.resources, p.1 ≠ a.connectionType) →
        TypeImage c.registry.Defines c.table c.registry p.1 p.2 := by
  obtain ⟨c, hc, rfl, faithful⟩ := Assembly.compile_faithful h
  refine ⟨c, hc, rfl, faithful.typeImage rfl fun kind x name _ _ hx => ?_⟩
  exact faithful.consistent.registry.defines hx

/-- A family has persons, who are no page type. -/
theorem family_person : ∃ api log d, compile {} Specs.family = .ok (api, log) ∧
    Keyed.find? "Person" api.types = some d ∧ ∀ a ∈ api.resources, "Person" ≠ a.connectionType := by
  obtain ⟨api, log, h, types, resources⟩ := family_compiles
  obtain ⟨d, hd⟩ : ∃ d, Keyed.find? "Person" api.types = some d :=
    Keyed.exists_of_mem_keys (by rw [types]; decide)
  refine ⟨api, log, d, h, hd, fun a ha he => ?_⟩
  have paged : (a.name, a.connectionType) ∈ [("persons", "PersonConnection")] :=
    resources ▸ List.mem_map_of_mem ha
  have names := (Prod.mk.inj (List.mem_singleton.mp paged)).2
  exact absurd (he.trans names) (by simp)

theorem family_image : ∃ c d, Compilation.addResources {} Specs.family.specs {} = .ok c ∧
    Keyed.find? "Person" c.registry.api.types = some d ∧
    TypeImage c.registry.Defines c.table c.registry "Person" d := by
  obtain ⟨api, log, d, h, hd, unpaged⟩ := family_person
  obtain ⟨c, hc, rfl, image⟩ := compile_image h
  exact ⟨c, d, hc, hd, image ("Person", d) (Keyed.mem_of_find? hd) unpaged⟩

end ResourceGraph
