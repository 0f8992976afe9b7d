import ResourceGraph.Proofs.Api.WellFormed
import ResourceGraph.Proofs.Query.Lexing

/-!
# The names of a compiled API

Every name that compilation makes is one that GraphQL takes, but for the type of a resource whose
singular name has no character to make a name from: that one is empty. The text of the schema has
no lexical defect even then.
-/

namespace ResourceGraph

open Naming (isName isNameChar)
open Query (Clear)

variable {n : Nat}

/-! ## Names in a schema text -/

def Field.names (f : Field) : List String :=
  f.name :: f.typeName :: f.arguments.flatMap fun a => [a.name, a.typeName]

def Definition.names : Definition → List String
  | .enum e => e.name :: e.values.map EnumValue.name
  | .type t => t.name :: t.fields.flatMap Field.names

def Api.names (a : Api) : List String := a.definitions.flatMap Definition.names

/-- A name, or none at all. -/
def IsWord (s : String) : Prop := s = "" ∨ isName s = true

theorem IsWord.clear {s : String} (h : IsWord s) : Clear s := by
  rcases h with rfl | h
  · exact Query.clear_empty
  · exact Query.clear_name h

theorem clear_bang (b : Bool) : Clear (bang b) := by
  cases b
  · exact Query.clear_punctuation (by decide)
  · exact Query.clear_empty

theorem Argument.clear_text {a : Argument} (h : ∀ s ∈ [a.name, a.typeName], IsWord s) :
    Clear a.text := by
  obtain ⟨hname, htype⟩ := List.forall_mem_cons.mp h
  refine ((hname.clear.append (Query.clear_punctuation ?_)).append
    (htype _ (List.mem_singleton_self _)).clear).append (clear_bang _)
  decide

theorem Field.clear_typeText {f : Field} (h : IsWord f.typeName) : Clear f.typeText := by
  unfold typeText
  dsimp only
  split
  · refine (((Clear.append (Query.clear_punctuation ?_) h.clear).append (clear_bang _)).append
      (Query.clear_punctuation ?_)).append (clear_bang _) <;> decide
  · exact h.clear.append (clear_bang _)

theorem Field.clear_text {f : Field} (h : ∀ s ∈ f.names, IsWord s) : Clear f.text := by
  obtain ⟨hname, h⟩ := List.forall_mem_cons.mp h
  obtain ⟨htype, harguments⟩ := List.forall_mem_cons.mp h
  have arguments : ∀ t ∈ f.arguments.map Argument.text, Clear t := by
    intro t ht
    obtain ⟨a, ha, rfl⟩ := List.mem_map.mp ht
    exact a.clear_text fun s hs => harguments s (List.mem_flatMap.mpr ⟨a, ha, hs⟩)
  unfold text
  dsimp only
  refine ((hname.clear.append ?_).append (Query.clear_punctuation (by decide))).append
    (Field.clear_typeText htype)
  split
  · exact Query.clear_empty
  · refine (Clear.append (Query.clear_punctuation (by decide)) ?_).append
      (Query.clear_punctuation (by decide))
    exact Query.clear_intercalate (Query.clear_punctuation (by decide)) arguments

theorem clear_block {keyword name : String} {lines : List String} (hk : isName keyword = true)
    (hn : IsWord name) (hl : ∀ l ∈ lines, Clear l) : Clear (block keyword name lines) := by
  have indented : ∀ t ∈ lines.map fun l => "  " ++ l ++ "\n", Clear t := by
    intro t ht
    obtain ⟨l, hl', rfl⟩ := List.mem_map.mp ht
    exact (Clear.append (Query.clear_punctuation (by decide)) (hl l hl')).append
      (Query.clear_punctuation (by decide))
  exact (((((Query.clear_name hk).append (Query.clear_punctuation (by decide))).append
    hn.clear).append (Query.clear_punctuation (by decide))).append
      (Query.clear_join indented)).append (Query.clear_punctuation (by decide))

theorem Definition.clear_text {d : Definition} (h : ∀ s ∈ d.names, IsWord s) : Clear d.text := by
  cases d with
  | enum e =>
      obtain ⟨hname, hvalues⟩ := List.forall_mem_cons.mp h
      exact clear_block (by decide) hname fun l hl => (hvalues l hl).clear
  | type t =>
      obtain ⟨hname, hfields⟩ := List.forall_mem_cons.mp h
      refine clear_block ?_ hname fun l hl => ?_
      · unfold TypeDef.keyword
        split <;> decide
      · obtain ⟨f, hf, rfl⟩ := List.mem_map.mp hl
        exact f.clear_text fun s hs => hfields s (List.mem_flatMap.mpr ⟨f, hf, hs⟩)

theorem Api.clear_text {a : Api} (h : ∀ s ∈ a.names, IsWord s) : Clear a.text := by
  refine Query.clear_intercalate (Query.clear_punctuation (by decide)) fun t ht => ?_
  obtain ⟨d, hd, rfl⟩ := List.mem_map.mp ht
  exact d.clear_text fun s hs => h s (List.mem_flatMap.mpr ⟨d, hd, hs⟩)

/-! ## Steps -/

theorem ResourceNames.of_typeName (naming : Naming) (resource : String) :
    (ResourceNames.of naming resource).typeName = Naming.typeName (naming.singular resource) "" := by
  rw [of]

theorem ResourceNames.resource_typeName (names : ResourceNames) (name : String)
    (searchable : List String) : (names.resource name searchable).typeName = names.typeName := by
  rw [resource]

theorem ResourceNames.isWord_typeName (naming : Naming) (resource : String) :
    IsWord (ResourceNames.of naming resource).typeName := by
  rw [ResourceNames.of_typeName]
  by_cases h : ∃ c ∈ (naming.singular resource).toList, isNameChar c = true
  · exact Or.inr (Naming.isName_typeName_iff.mpr h)
  · exact Or.inl (Naming.typeName_eq_empty h)

/-- A field and its arguments have names. -/
def Field.IsNamed (f : Field) : Prop :=
  isName f.name = true ∧ ∀ a ∈ f.arguments, isName a.name = true ∧ a.typeName ∈ scalarNames

namespace Assembly

variable {g : RawGraph} {o : CompileOptions}

/-- The name is that of the type of a resource, the one in hand or one that is finished. -/
def Roots (s : Assembly n) (name : String) : Prop :=
  (∃ names, s.root = some names ∧ name = names.typeName) ∨
    ∃ a ∈ s.registry.api.resources, name = a.typeName

/-- Every name but that of the type of a resource is one that GraphQL takes. -/
structure Named (naming : Naming) (s : Assembly n) : Prop where
  root : ∀ names, s.root = some names → ∃ resource, names = ResourceNames.of naming resource
  resources : ∀ a ∈ s.registry.api.resources,
    ∃ searchable, a = (ResourceNames.of naming a.name).resource a.name searchable
  claimed : ∀ kind name, s.registry.Has kind name → isName name = true ∨ s.Roots name
  visiting : ∀ v ∈ s.visiting, s.registry.Has "type" v.2
  values : ∀ p ∈ s.registry.api.enums, ∀ v ∈ p.2.values,
    isName v.name = true ∧ v.name ∉ reservedEnumValues
  outputs : ∀ p ∈ s.registry.api.types, ∀ f ∈ p.2.fields, f.IsNamed
  inputs : ∀ p ∈ s.registry.api.inputs, ∀ f ∈ p.2.fields, f.IsNamed

theorem named_initial (naming : Naming) : (initial n).Named naming := by
  constructor <;> simp [initial, Registry.Has]

theorem Named.isWord {naming : Naming} {s : Assembly n} (h : s.Named naming) {name : String}
    (hn : isName name = true ∨ s.Roots name) : IsWord name := by
  rcases hn with hn | ⟨names, hr, rfl⟩ | ⟨a, ha, rfl⟩
  · exact Or.inr hn
  · obtain ⟨resource, rfl⟩ := h.root names hr
    exact ResourceNames.isWord_typeName naming resource
  · obtain ⟨_, he⟩ := h.resources a ha
    rw [he, ResourceNames.resource_typeName]
    exact ResourceNames.isWord_typeName naming a.name

/-- A definition is called after a resource, or has a name since it is nested. -/
theorem Named.isName_of_names {naming : Naming} {s : Assembly n} (h : s.Named naming)
    {name : String} (hn : Names s.root s.visiting name) : isName name = true ∨ s.Roots name := by
  cases hv : s.visiting with
  | nil =>
      rw [hv] at hn
      exact Or.inr (Or.inl hn)
  | cons v rest =>
      rw [hv] at hn
      have parent := h.isWord (h.claimed _ _ (h.visiting v (hv ▸ List.mem_cons_self ..)))
      obtain ⟨property, hn⟩ := hn
      have field := Naming.isName_sanitizeFieldName property
      refine Or.inl (hn.elim (fun hn => ?_) fun hn => ?_)
      · rw [hn]
        exact Naming.isName_typeName_nested field parent
      · rw [hn]
        exact Naming.isName_typeName_nested
          (Naming.isName_append field (by decide) (by decide)) parent

/-- The name of a page type or of a filter is one that GraphQL takes, whatever it continues. -/
theorem isName_ending {s ending : String} (hs : IsWord s)
    (h : ending ∈ ["Connection", "Filter"]) : isName (s ++ ending) = true := by
  have all : ∀ e ∈ ["Connection", "Filter"], isName e = true ∧
      e.toList.all isNameChar = true ∧ e.toList.head? ≠ some '_' := by decide
  obtain ⟨he, chars, front⟩ := all ending h
  rcases hs with rfl | hs
  · rw [String.empty_append]
    exact he
  · exact Naming.isName_append hs chars front

/-- A fresh name may be claimed if it is one that GraphQL takes, or that of a root. -/
theorem Named.claim {naming : Naming} {s : Assembly n} (h : s.Named naming) {name kind : String}
    {source : Source n} (hn : isName name = true ∨ s.Roots name)
    (fresh : Keyed.find? name s.registry.sources = none) (kind' name' : String)
    (has : (s.registry.claim name kind source).Has kind' name') :
    isName name' = true ∨ s.Roots name' := by
  rcases (Registry.has_claim fresh).mp has with ⟨rfl, -⟩ | has
  · exact hn
  · exact h.claimed _ _ has

theorem closing_named {t : NodeTable n} {visiting : Visiting n} {required : List String}
    {name : String} {r : Registry n} {properties : List (String × Node n)} {fields : List Field}
    (image : List.Forall₂ (fun p f => t.fieldOf visiting required name p = .ok f ∧
      r.Provides (t.element p.2) f.typeName) properties fields) :
    ∀ f ∈ Compiling.withSomeField (fields.foldl appendField []), f.IsNamed := by
  rw [appendField_eq, foldl_appendNew_nil]
  unfold Compiling.withSomeField
  intro f hf
  split at hf
  · obtain rfl := List.mem_singleton.mp hf
    exact ⟨by decide, by simp⟩
  · obtain ⟨p, -, hp, -⟩ := exists_of_forall₂_right image (firstsBy_subset fields hf)
    obtain ⟨type, -, rfl⟩ := NodeTable.fieldOf_eq_ok hp
    exact ⟨Naming.isName_sanitizeFieldName _, by simp⟩

theorem connection_named (typeName : String) :
    ∀ f ∈ Compiling.connectionFields typeName, f.IsNamed := by
  have names : ∀ s ∈ ["items", "total", "limit", "offset", "hasNext"], isName s = true := by decide
  intro f hf
  refine ⟨names _ (List.mem_map_of_mem (f := Field.name) hf), ?_⟩
  simp only [Compiling.connectionFields, List.mem_cons, List.not_mem_nil, or_false] at hf
  rcases hf with rfl | rfl | rfl | rfl | rfl <;> simp

theorem filter_named {api : Api} {fields : List Field}
    (image : ∀ f ∈ fields, FilterField n api f) :
    ∀ f ∈ fields.foldl appendField Compiling.commonFilterFields, f.IsNamed := by
  intro f hf
  rcases mem_foldl_appendNew hf with hf | hf
  · have common : ∀ f ∈ Compiling.commonFilterFields,
        isName f.name = true ∧ f.arguments.isEmpty := by
      decide
    have plain := List.isEmpty_iff.mp (common f hf).2
    exact ⟨(common f hf).1, by simp [plain]⟩
  · obtain ⟨⟨property, hname⟩, -, plain⟩ := image f hf
    exact ⟨hname ▸ Naming.isName_sanitizeFieldName property, by simp [plain]⟩

theorem Step.named {s s' : Assembly g.size} (h : Step g o s s') (hs : s.Named o.naming) :
    s'.Named o.naming := by
  have keeps := h.keeps
  cases h with
  | reading _ =>
      exact ⟨hs.root, hs.resources, hs.claimed, hs.visiting, hs.values, hs.outputs, hs.inputs⟩
  | beginning resource _ =>
      refine ⟨?_, hs.resources, fun kind name has => (hs.claimed kind name has).imp_right ?_,
        hs.visiting, hs.values, hs.outputs, hs.inputs⟩
      · rintro names ⟨⟩
        exact ⟨resource, rfl⟩
      · rintro (⟨names, hr, -⟩ | finished)
        · cases hr
        · exact Or.inr finished
  | @enumeration _ _ _ _ name _ v values _ named legal fresh =>
      refine ⟨hs.root, hs.resources, hs.claim (hs.isName_of_names named) fresh,
        fun v hv => (hs.visiting v hv).keeps keeps, ?_, hs.outputs, hs.inputs⟩
      refine Registry.forall_mem_insert (fun value hvalue => ?_) hs.values
      rw [EnumDef.ofValues_values] at hvalue
      obtain ⟨raw, -, rfl⟩ := List.mem_map.mp (firstsBy_subset _ hvalue)
      exact Naming.enumValueName_proper raw
  | opening named legal fresh _ _ =>
      exact ⟨hs.root, hs.resources, hs.claim (hs.isName_of_names named) fresh,
        List.forall_mem_cons.mpr ⟨⟨_, Registry.find?_claim ..⟩,
          fun v hv => (hs.visiting v hv).keeps keeps⟩, hs.values, hs.outputs, hs.inputs⟩
  | closing _ image =>
      exact ⟨hs.root, hs.resources, hs.claimed,
        fun v hv => hs.visiting v (List.mem_cons_of_mem _ hv), hs.values,
        Registry.forall_mem_insert (closing_named image) hs.outputs, hs.inputs⟩
  | @connection _ _ names claimed fresh =>
      have root : IsWord names.typeName := hs.isWord (Or.inr (Or.inl ⟨names, rfl, rfl⟩))
      refine ⟨hs.root, hs.resources, hs.claim (Or.inl (isName_ending root (by decide))) fresh,
        nofun, hs.values, Registry.forall_mem_insert ?_ hs.outputs, hs.inputs⟩
      exact connection_named names.typeName
  | @filter _ _ names _ fresh image =>
      have root : IsWord names.typeName := hs.isWord (Or.inr (Or.inl ⟨names, rfl, rfl⟩))
      exact ⟨hs.root, hs.resources, hs.claim (Or.inl (isName_ending root (by decide))) fresh,
        nofun, hs.values, hs.outputs,
        Registry.forall_mem_insert (filter_named image) hs.inputs⟩
  | finishing resource searchable _ _ =>
      refine ⟨nofun, ?_, fun kind name has => (hs.claimed kind name has).imp_right ?_, nofun,
        hs.values, hs.outputs, hs.inputs⟩
      · intro a ha
        rcases List.mem_append.mp ha with ha | ha
        · exact hs.resources a ha
        · obtain rfl := List.mem_singleton.mp ha
          exact ⟨searchable, rfl⟩
      · rintro (⟨names, hr, rfl⟩ | ⟨a, ha, rfl⟩)
        · cases hr
          exact Or.inr ⟨_, List.mem_append_right _ (List.mem_singleton_self _),
            (ResourceNames.resource_typeName ..).symm⟩
        · exact Or.inr ⟨a, List.mem_append_left _ ha, rfl⟩

theorem Run.named {s s' : Assembly g.size} (h : Run g o s s') (hs : s.Named o.naming) :
    s'.Named o.naming :=
  h.invariant Step.named hs

end Assembly

/-! ## Compiled APIs -/

/-- What GraphQL asks of names: each is one that it takes, no value of an enumeration is a word of
its own, and the schema text has no lexical defect. -/
structure Api.ProperlyNamed (a : Api) : Prop where
  names : ∀ name ∈ a.names, isName name = true
  values : ∀ p ∈ a.enums, ∀ v ∈ p.2.values, v.name ∉ ["true", "false", "null"]
  lexemes : ∀ l ∈ Query.lexemes a.text, ∃ t, l.content = .ok t

theorem Field.IsNamed.forall_names {P : String → Prop} (hP : ∀ name, isName name = true → P name)
    {f : Field} (h : f.IsNamed) (type : P f.typeName) : ∀ name ∈ f.names, P name := by
  have scalars : ∀ s ∈ scalarNames, isName s = true := by decide
  refine List.forall_mem_cons.mpr ⟨hP _ h.1, List.forall_mem_cons.mpr ⟨type, fun name hn => ?_⟩⟩
  obtain ⟨a, ha, hn⟩ := List.mem_flatMap.mp hn
  obtain ⟨hname, htype⟩ := h.2 a ha
  simp only [List.mem_cons, List.not_mem_nil, or_false] at hn
  rcases hn with rfl | rfl
  · exact hP _ hname
  · exact hP _ (scalars _ htype)

/-- The fields of the two types that every API has are named. -/
theorem Assembly.Named.roots_named {naming : Naming} {s : Assembly n} (h : s.Named naming)
    (queries : s.registry.api.queryFields
      = s.registry.api.resources.flatMap Resource.queryFields) :
    ∀ f ∈ s.registry.api.queryType.fields ++ s.registry.api.searchResultsType.fields,
      f.IsNamed := by
  have fieldNames : ∀ a ∈ s.registry.api.resources,
      isName a.listField = true ∧ isName a.singleField = true := by
    intro a ha
    obtain ⟨_, he⟩ := h.resources a ha
    rw [he]
    exact ⟨Naming.isName_sanitizeFieldName _, Naming.isName_sanitizeFieldName _⟩
  intro f hf
  rcases List.mem_append.mp hf with hf | hf
  · rcases List.mem_append.mp hf with hf | hf
    · rw [queries] at hf
      obtain ⟨a, ha, hf⟩ := List.mem_flatMap.mp hf
      simp only [Resource.queryFields, List.mem_cons, List.not_mem_nil, or_false] at hf
      rcases hf with rfl | rfl
      · exact ⟨(fieldNames a ha).1, by dsimp only; decide⟩
      · exact ⟨(fieldNames a ha).2, by dsimp only; decide⟩
    · obtain rfl := List.mem_singleton.mp hf
      exact ⟨by decide, by decide⟩
  · rcases List.mem_append.mp hf with hf | hf
    · obtain ⟨a, ha, rfl⟩ := List.mem_map.mp hf
      exact ⟨(fieldNames a ha).1, by simp⟩
    · obtain rfl := List.mem_singleton.mp hf
      exact ⟨by decide, by simp⟩

namespace Assembly

variable {naming : Naming} {s : Assembly n}

/-- What holds of names and of the types of resources holds of every name in the text. -/
theorem Named.forall_names {P : String → Prop} (h : s.Named naming) (hr : s.root = none)
    (consistent : s.registry.Consistent []) (hP : ∀ name, isName name = true → P name)
    (root : ∀ a ∈ s.registry.api.resources, P a.typeName) :
    ∀ name ∈ s.registry.api.names, P name := by
  have wellFormed := consistent.wellFormed
  have claimed {kind name} (has : s.registry.Has kind name) : P name := by
    rcases h.claimed kind name has with hn | ⟨names, he, -⟩ | ⟨a, ha, rfl⟩
    · exact hP name hn
    · rw [hr] at he
      cases he
    · exact root a ha
  have scalar : ∀ s ∈ scalarNames, P s := by
    have all : ∀ s ∈ scalarNames, isName s = true := by decide
    exact fun s hs => hP s (all s hs)
  have type (t : TypeDef) (hname : P t.name) (fields : ∀ f ∈ t.fields, f.IsNamed)
      (types : ∀ f ∈ t.fields, P f.typeName) : ∀ name ∈ (Definition.type t).names, P name := by
    refine List.forall_mem_cons.mpr ⟨hname, fun name hn => ?_⟩
    obtain ⟨f, hf, hn⟩ := List.mem_flatMap.mp hn
    exact (fields f hf).forall_names hP (types f hf) name hn
  have results : P s.registry.api.searchResultsType.name :=
    hP "SearchResults" (by decide)
  have query : P s.registry.api.queryType.name := hP "Query" (by decide)
  have rootTypes : ∀ f ∈ s.registry.api.queryType.fields ++ s.registry.api.searchResultsType.fields,
      P f.typeName := by
    intro f hf
    rcases consistent.rootRefs hf with hs | he | has
    · exact scalar _ hs
    · exact he ▸ results
    · exact claimed has
  have roots := h.roots_named consistent.queries
  intro name hn
  obtain ⟨d, hd, hn⟩ := List.mem_flatMap.mp hn
  simp only [Api.definitions, List.mem_append, List.mem_map, List.mem_cons, List.not_mem_nil,
    or_false] at hd
  rcases hd with ((⟨p, hp, rfl⟩ | ⟨p, hp, rfl⟩) | ⟨p, hp, rfl⟩) | rfl | rfl
  · have named := (consistent.enum_proper p hp).named
    have has := (consistent.enums p.1).mp (List.mem_map_of_mem hp)
    refine List.forall_mem_cons.mpr ⟨named ▸ claimed has, fun name hn => ?_⟩ name hn
    obtain ⟨v, hv, rfl⟩ := List.mem_map.mp hn
    exact hP _ (h.values p hp v hv).1
  · have proper := consistent.type_proper p hp
    have has := ((consistent.types p.1).mp (List.mem_map_of_mem hp)).1
    refine type p.2 (proper.named ▸ claimed has) (h.outputs p hp) (fun f hf => ?_) name hn
    exact (proper.known f hf).elim (scalar _) fun known => known.elim claimed claimed
  · have proper := consistent.input_proper p hp
    have has := (consistent.inputs p.1).mp (List.mem_map_of_mem hp)
    refine type p.2 (proper.named ▸ claimed has) (h.inputs p hp) (fun f hf => ?_) name hn
    exact (proper.known f hf).elim (scalar _) claimed
  · exact type _ results
      (fun f hf => roots f (List.mem_append_right _ hf))
      (fun f hf => rootTypes f (List.mem_append_right _ hf)) name hn
  · exact type _ query
      (fun f hf => roots f (List.mem_append_left _ hf))
      (fun f hf => rootTypes f (List.mem_append_left _ hf)) name hn

end Assembly

/-- The text of the schema has no lexical defect, whatever the resources are called. -/
theorem compile_lexemes {o : CompileOptions} {s : Specs} {api : Api} {log : List LogLine}
    (h : compile o s = .ok (api, log)) : ∀ l ∈ Query.lexemes api.text, ∃ t, l.content = .ok t := by
  obtain ⟨c, -, rfl, run⟩ := Assembly.compile_run h
  have named := run.named (Assembly.named_initial o.naming)
  exact Query.lexemes_ok (Api.clear_text (named.forall_names rfl
    (run.consistent Assembly.consistent_initial).registry (fun _ hn => Or.inr hn)
    fun a ha => named.isWord (Or.inr (Or.inr ⟨a, ha, rfl⟩))))

/-- The type of a resource is among the names, as the type of the query field for one record. -/
theorem typeName_mem_names {a : Api}
    (queries : a.queryFields = a.resources.flatMap Resource.queryFields)
    {r : Resource} (hr : r ∈ a.resources) : r.typeName ∈ a.names := by
  refine List.mem_flatMap.mpr ⟨.type a.queryType, ?_, List.mem_cons_of_mem _ ?_⟩
  · simp [Api.definitions]
  · refine List.mem_flatMap.mpr ⟨⟨r.singleField, r.typeName, false, true, true,
      [⟨"id", "ID", false⟩], none⟩, List.mem_append_left _ ?_, by simp [Field.names]⟩
    rw [queries]
    exact List.mem_flatMap.mpr ⟨r, hr, List.mem_cons_of_mem _ (List.mem_singleton_self _)⟩

/-- A compiled API is properly named exactly when every resource in it has a singular name with a
character to make the name of its type from. -/
theorem compile_properlyNamed_iff {o : CompileOptions} {s : Specs} {api : Api}
    {log : List LogLine} (h : compile o s = .ok (api, log)) :
    api.ProperlyNamed ↔
      ∀ a ∈ api.resources, ∃ c ∈ (o.naming.singular a.name).toList, isNameChar c = true := by
  have lexemes := compile_lexemes h
  obtain ⟨c, -, rfl, run⟩ := Assembly.compile_run h
  have consistent := (run.consistent Assembly.consistent_initial).registry
  have named := run.named (Assembly.named_initial o.naming)
  have typeName : ∀ a ∈ c.registry.api.resources, isName a.typeName = true ↔
      ∃ c ∈ (o.naming.singular a.name).toList, isNameChar c = true := by
    intro a ha
    obtain ⟨_, he⟩ := named.resources a ha
    rw [he, ResourceNames.resource_typeName, ResourceNames.of_typeName, ResourceNames.resource,
      Naming.isName_typeName_iff]
  constructor
  · intro proper a ha
    exact (typeName a ha).mp (proper.names _ (typeName_mem_names consistent.queries ha))
  · intro some
    exact {
      names := named.forall_names rfl consistent (fun _ hn => hn)
        fun a ha => (typeName a ha).mpr (some a ha)
      values := fun p hp v hv => (named.values p hp v hv).2
      lexemes := lexemes }

theorem family_properlyNamed :
    ∃ api log, compile {} Specs.family = .ok (api, log) ∧ api.ProperlyNamed := by
  obtain ⟨api, log, h, -, resources⟩ := family_compiles
  refine ⟨api, log, h, (compile_properlyNamed_iff h).mpr fun a ha => ?_⟩
  have names : (a.name, a.connectionType) ∈ [("persons", "PersonConnection")] :=
    resources ▸ List.mem_map_of_mem ha
  rw [(Prod.mk.inj (List.mem_singleton.mp names)).1]
  exact ⟨'p', by decide, rfl⟩

/-- A resource whose singular name has no character of ASCII. -/
def Specs.unnamed : Specs where
  graph :=
    { size := 3
      objects := #v[[("type", .str "object"), ("properties", .obj 1)], [("a", .obj 2)],
        [("type", .str "string")]]
      nodup := by decide }
  specs := [{ name := "és", schemas := [("É", .obj 0)] }]

theorem compile_unnamed :
    (compile {} Specs.unnamed).map (fun c => c.1.names.contains "") = .ok true := by
  rw [compile_eq_upTo]
  decide +kernel

theorem unnamed_not_properlyNamed :
    ¬ ∀ (o : CompileOptions) (s : Specs) (api : Api) (log : List LogLine),
      compile o s = .ok (api, log) → api.ProperlyNamed := by
  intro all
  have names := compile_unnamed
  rcases hc : compile {} Specs.unnamed with e | ⟨api, log⟩
  · rw [hc] at names
    cases names
  · rw [hc] at names
    have empty := (all _ _ _ _ hc).names "" (List.contains_iff_mem.mp (Except.ok.inj names))
    cases empty

end ResourceGraph
