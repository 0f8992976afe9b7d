import Mathlib
import ResourceGraph.Api.Printer
import ResourceGraph.Proofs.Api.Evaluation
import ResourceGraph.Proofs.Api.Parts
import ResourceGraph.Proofs.Api.Walk

/-!
# Compiled APIs are closed

In a compiled API every name that is used is defined, once, under its own name and not under a
reserved one; no definition is empty or names two of its parts alike. While types are under
construction this holds of what is complete, with the opened names counted as defined.
-/

namespace ResourceGraph

variable {n : Nat}

/-- The scalars that every API has. -/
def scalarNames : List String := ["String", "Int", "Float", "Boolean", "ID"]

/-! ## Definitions -/

/-- An enumeration under its name: with a value, and without two values of one name. -/
structure EnumDef.Proper (name : String) (e : EnumDef) : Prop where
  named : e.name = name
  some_value : e.values ≠ []
  distinct : (e.values.map EnumValue.name).Nodup

/-- A type under its name: with a field, without two fields of one name, and with fields of scalar
types and of types that are `Known`. -/
structure TypeDef.Proper (Known : String → Prop) (name : String) (t : TypeDef) : Prop where
  named : t.name = name
  some_field : t.fields ≠ []
  distinct : (t.fields.map Field.name).Nodup
  known : ∀ f ∈ t.fields, f.typeName ∈ scalarNames ∨ Known f.typeName

theorem TypeDef.Proper.mono {Known Known' : String → Prop} (h : ∀ s, Known s → Known' s)
    {name : String} {t : TypeDef} (ht : t.Proper Known name) : t.Proper Known' name :=
  ⟨ht.named, ht.some_field, ht.distinct, fun f hf => (ht.known f hf).imp_right (h _)⟩

theorem EnumDef.ofValues_proper (name : String) {values : List Value} (h : values ≠ []) :
    (EnumDef.ofValues name values).Proper name where
  named := ofValues_name name values
  some_value := by
    rw [ofValues_values, Ne, firstsBy_eq_nil, List.map_eq_nil_iff]
    exact h
  distinct := ofValues_distinct name values

/-! ## Types of fields -/

theorem defaultScalar_mem : defaultScalar ∈ scalarNames := by decide

theorem lookupScalar_mem {table : List (String × String)} {v : Value} {s : String}
    (h : lookupScalar table v = .ok (some s)) : s ∈ table.map (·.2) := by
  unfold lookupScalar at h
  split at h
  · rename_i key
    have hs : Keyed.find? key table = some s := Except.ok.inj h
    exact List.mem_map.mpr ⟨(key, s), Keyed.mem_of_find? hs, rfl⟩
  · cases h
  · cases h
  · cases h
  · cases h

theorem typeScalar_mem {type : Value} {s : String}
    (h : (do return (← lookupScalar typeScalars type).getD defaultScalar) = Except.ok s) :
    s ∈ scalarNames := by
  cases hfound : lookupScalar typeScalars type with
  | error e => rw [hfound] at h; cases h
  | ok found =>
      rw [hfound] at h
      obtain rfl : found.getD defaultScalar = s := Except.ok.inj h
      cases found with
      | none => exact defaultScalar_mem
      | some s =>
          have all : ∀ s ∈ typeScalars.map (·.2), s ∈ scalarNames := by decide
          exact all s (lookupScalar_mem hfound)

theorem scalarName_mem {x : Option (Node n)} {s : String} (h : Node.scalarName x = .ok s) :
    s ∈ scalarNames := by
  unfold Node.scalarName at h
  split at h
  · rename_i key type format
    cases hfound : lookupScalar formatScalars format with
    | error e => rw [hfound] at h; cases h
    | ok found =>
        rw [hfound] at h
        cases found with
        | none => exact typeScalar_mem h
        | some name =>
            obtain rfl : name = s := Except.ok.inj h
            have all : ∀ s ∈ formatScalars.map (·.2), s ∈ scalarNames := by decide
            exact all name (lookupScalar_mem hfound)
  · exact typeScalar_mem h
  · obtain rfl : defaultScalar = s := Except.ok.inj h
    exact defaultScalar_mem

/-- The type of a field is a scalar, or it is claimed for an enumeration or an object type. -/
theorem fieldOf_type {t : NodeTable n} {visiting : Visiting n} {required : List String}
    {parent : String} {p : String × Node n} {f : Field} {r : Registry n}
    (h : t.fieldOf visiting required parent p = .ok f)
    (provides : r.Provides (t.element p.2) f.typeName) :
    f.typeName ∈ scalarNames ∨ r.Has "enum" f.typeName ∨ r.Has "type" f.typeName := by
  obtain ⟨type, href, rfl⟩ := NodeTable.fieldOf_eq_ok h
  unfold NodeTable.reference at href
  split at href
  · cases href; exact Or.inl defaultScalar_mem
  · rename_i he
    rw [he] at provides
    obtain ⟨source, hs, -⟩ := provides
    exact Or.inr (Or.inl ⟨source, hs⟩)
  · rename_i he
    rw [he] at provides
    obtain ⟨source, hs, -⟩ := provides
    exact Or.inr (Or.inr ⟨source, hs⟩)
  · exact Or.inl (scalarName_mem href)

/-! ## Registries -/

/-- Names without a conflict are free: neither reserved nor taken, nor the same. -/
theorem ResourceNames.free_of_conflict {names : ResourceNames} {api : Api}
    (h : names.conflict? api = none) :
    names.typeName ∉ reservedTypeNames ∧
      (∀ f ∈ [names.listField, names.singleField],
        f ∉ reservedQueryFields ∧ f ∉ api.queryFields.map Field.name) ∧
      names.listField ≠ names.singleField := by
  have untaken {f : String}
      (hf : ¬ (decide (f ∈ reservedQueryFields) || api.hasQueryField f) = true) :
      f ∉ reservedQueryFields ∧ f ∉ api.queryFields.map Field.name := by
    rw [Bool.or_eq_true, not_or, decide_eq_true_eq, Api.hasQueryField, List.any_eq_true] at hf
    refine ⟨hf.1, fun hm => hf.2 ?_⟩
    obtain ⟨f', hf', rfl⟩ := List.mem_map.mp hm
    exact ⟨f', hf', beq_self_eq_true _⟩
  unfold conflict? at h
  dsimp only at h
  split at h
  · cases h
  · rename_i htype
    split at h
    · cases h
    · rename_i hlist
      split at h
      · cases h
      · rename_i hsingle
        split at h
        · cases h
        · rename_i hne
          refine ⟨htype, ?_, hne⟩
          simp only [List.forall_mem_cons, List.not_mem_nil, false_implies, implies_true, and_true]
          exact ⟨untaken hlist, untaken hsingle⟩

theorem ResourceNames.conflict?_congr {names : ResourceNames} {a b : Api}
    (h : a.queryFields = b.queryFields) : names.conflict? a = names.conflict? b := by
  have taken : a.hasQueryField = b.hasQueryField := by
    funext f
    rw [Api.hasQueryField, Api.hasQueryField, h]
  rw [conflict?, conflict?, taken]

namespace Registry

/-- A registry in which the object types `opened` are under construction: what is complete is
defined as it was claimed, once and under its own name, and is proper. -/
structure Consistent (r : Registry n) (opened : List String) : Prop where
  legal : ∀ kind name, r.Has kind name → name ∉ reservedTypeNames
  enums : ∀ name, name ∈ Keyed.keys r.api.enums ↔ r.Has "enum" name
  types : ∀ name, name ∈ Keyed.keys r.api.types ↔ r.Has "type" name ∧ name ∉ opened
  inputs : ∀ name, name ∈ Keyed.keys r.api.inputs ↔ r.Has "input" name
  opened_nodup : opened.Nodup
  opened_has : ∀ name ∈ opened, r.Has "type" name
  enums_nodup : (Keyed.keys r.api.enums).Nodup
  types_nodup : (Keyed.keys r.api.types).Nodup
  inputs_nodup : (Keyed.keys r.api.inputs).Nodup
  enum_proper : ∀ p ∈ r.api.enums, p.2.Proper p.1
  type_proper : ∀ p ∈ r.api.types, p.2.Proper (fun s => r.Has "enum" s ∨ r.Has "type" s) p.1
  input_proper : ∀ p ∈ r.api.inputs, p.2.Proper (r.Has "enum") p.1
  queries : r.api.queryFields = r.api.resources.flatMap Resource.queryFields
  queries_nodup : (r.api.queryFields.map Field.name).Nodup
  queries_legal : ∀ f ∈ r.api.queryFields, f.name ∉ reservedQueryFields
  resources : ∀ a ∈ r.api.resources, r.Has "type" a.typeName ∧ r.Has "type" a.connectionType

variable {r : Registry n} {opened : List String} {name kind : String} {source : Source n}

theorem consistent_empty : ({} : Registry n).Consistent [] := by
  constructor <;> simp [Has, Keyed.keys]

/-- A name is claimed for one kind of definition. -/
theorem Has.kind_unique {kind' : String} (h : r.Has kind name) (h' : r.Has kind' name) :
    kind = kind' := by
  obtain ⟨_, hs⟩ := h
  obtain ⟨_, hs'⟩ := h'
  rw [hs] at hs'
  cases hs'
  rfl

theorem has_claim {kind' name' : String} (fresh : Keyed.find? name r.sources = none) :
    (r.claim name kind source).Has kind' name' ↔
      name' = name ∧ kind' = kind ∨ r.Has kind' name' := by
  have hfind : Keyed.find? name' (r.claim name kind source).sources
      = if name' = name then some (kind, source) else Keyed.find? name' r.sources :=
    Keyed.find?_insert ..
  unfold Has
  rw [hfind]
  split
  · rename_i h; subst h; simp [fresh, eq_comm]
  · rename_i h; simp [h]

theorem has_claim_of_ne {kind' name' : String} (fresh : Keyed.find? name r.sources = none)
    (hne : kind' ≠ kind) : r.Has kind' name' ↔ (r.claim name kind source).Has kind' name' := by
  rw [has_claim fresh]
  exact ⟨Or.inr, fun h => h.resolve_left fun he => hne he.2⟩

theorem not_has_of_fresh (fresh : Keyed.find? name r.sources = none) : ¬ r.Has kind name := by
  rintro ⟨source, hs⟩
  rw [fresh] at hs
  cases hs

/-- A claim of a fresh name leaves what is complete proper, and no claimed name reserved. -/
structure Consistent.Claimed (r : Registry n) : Prop where
  legal : ∀ kind name, r.Has kind name → name ∉ reservedTypeNames
  type_proper : ∀ p ∈ r.api.types, p.2.Proper (fun s => r.Has "enum" s ∨ r.Has "type" s) p.1
  input_proper : ∀ p ∈ r.api.inputs, p.2.Proper (r.Has "enum") p.1
  resources : ∀ a ∈ r.api.resources, r.Has "type" a.typeName ∧ r.Has "type" a.connectionType

theorem Consistent.claim (h : r.Consistent opened) (legal : name ∉ reservedTypeNames)
    (fresh : Keyed.find? name r.sources = none) : Claimed (r.claim name kind source) := by
  have keeps : r.Keeps (r.claim name kind source) := keeps_claim fresh
  constructor
  · intro kind' name' hn
    rcases (has_claim fresh).mp hn with ⟨rfl, -⟩ | hn
    · exact legal
    · exact h.legal _ _ hn
  · intro p hp
    exact (h.type_proper p hp).mono fun s hs => hs.imp (Has.keeps keeps) (Has.keeps keeps)
  · intro p hp
    exact (h.input_proper p hp).mono fun s hs => Has.keeps keeps hs
  · intro a ha
    exact (h.resources a ha).imp (Has.keeps keeps) (Has.keeps keeps)

/-- A fresh name may be opened for an object type. -/
theorem Consistent.open (h : r.Consistent opened) (legal : name ∉ reservedTypeNames)
    (fresh : Keyed.find? name r.sources = none) :
    (r.claim name "type" source).Consistent (name :: opened) := by
  have claimed : Claimed (r.claim name "type" source) := h.claim legal fresh
  have types (s : String) : s ∈ Keyed.keys r.api.types ↔
      (r.claim name "type" source).Has "type" s ∧ s ∉ name :: opened := by
    rw [h.types, has_claim fresh, List.mem_cons, not_or]
    constructor
    · rintro ⟨hs, ho⟩
      exact ⟨Or.inr hs, fun he => not_has_of_fresh fresh (he ▸ hs), ho⟩
    · rintro ⟨hs, hne, ho⟩
      exact ⟨hs.resolve_left fun he => hne he.1, ho⟩
  exact { h with
    legal := claimed.legal
    enums := fun s => (h.enums s).trans (has_claim_of_ne fresh (by decide))
    types := types
    inputs := fun s => (h.inputs s).trans (has_claim_of_ne fresh (by decide))
    opened_nodup := List.nodup_cons.mpr
      ⟨fun ho => not_has_of_fresh fresh (h.opened_has name ho), h.opened_nodup⟩
    opened_has := List.forall_mem_cons.mpr ⟨⟨source, find?_claim ..⟩,
      fun s hs => (h.opened_has s hs).keeps (keeps_claim fresh)⟩
    type_proper := claimed.type_proper
    input_proper := claimed.input_proper
    resources := claimed.resources }

theorem forall_mem_insert {α : Type} {P : String × α → Prop} {a : α} {es : Keyed.Entries α}
    (ha : P (name, a)) (hes : ∀ p ∈ es, P p) : ∀ p ∈ Keyed.insert name a es, P p := by
  intro p hp
  rcases Keyed.mem_of_mem_insert hp with rfl | hp
  · exact ha
  · exact hes p hp

theorem addType_output {t : TypeDef} (h : t.isInput = false) :
    r.addType t = { r with
      api := { r.api with types := Keyed.insert t.name t r.api.types }
      states := Keyed.insert t.name .done r.states } := by
  simp [addType, h]

theorem addType_input {t : TypeDef} (h : t.isInput = true) :
    r.addType t = { r with
      api := { r.api with inputs := Keyed.insert t.name t r.api.inputs }
      states := Keyed.insert t.name .done r.states } := by
  simp [addType, h]

/-- The innermost opened object type may be closed. -/
theorem Consistent.close {t : TypeDef} (h : r.Consistent (name :: opened))
    (output : t.isInput = false)
    (proper : t.Proper (fun s => r.Has "enum" s ∨ r.Has "type" s) name) :
    (r.addType t).Consistent opened := by
  obtain ⟨hname, hopened⟩ := List.nodup_cons.mp h.opened_nodup
  have types (s : String) : s ∈ Keyed.keys (Keyed.insert name t r.api.types) ↔
      r.Has "type" s ∧ s ∉ opened := by
    rw [Keyed.mem_keys_insert, h.types, List.mem_cons, not_or]
    constructor
    · rintro (rfl | ⟨hs, -, ho⟩)
      · exact ⟨h.opened_has s (List.mem_cons_self ..), hname⟩
      · exact ⟨hs, ho⟩
    · rintro ⟨hs, ho⟩
      by_cases he : s = name
      · exact Or.inl he
      · exact Or.inr ⟨hs, he, ho⟩
  rw [addType_output output, proper.named]
  exact { h with
    types := types
    opened_nodup := hopened
    opened_has := fun s hs => h.opened_has s (List.mem_cons_of_mem name hs)
    types_nodup := Keyed.nodup_keys_insert h.types_nodup
    type_proper := forall_mem_insert proper h.type_proper }

/-- An enumeration may be added under a fresh name. -/
theorem Consistent.enumeration {e : EnumDef} (h : r.Consistent opened)
    (legal : name ∉ reservedTypeNames) (fresh : Keyed.find? name r.sources = none)
    (proper : e.Proper name) : ((r.claim name "enum" source).addEnum e).Consistent opened := by
  have claimed : Claimed (r.claim name "enum" source) := h.claim legal fresh
  have enums (s : String) : s ∈ Keyed.keys (Keyed.insert name e r.api.enums) ↔
      (r.claim name "enum" source).Has "enum" s := by
    rw [Keyed.mem_keys_insert, h.enums, has_claim fresh, and_iff_left rfl]
  unfold addEnum
  rw [proper.named]
  exact { h with
    legal := claimed.legal
    enums := enums
    types := fun s => (h.types s).trans
      (and_congr_left fun _ => has_claim_of_ne fresh (by decide))
    inputs := fun s => (h.inputs s).trans (has_claim_of_ne fresh (by decide))
    opened_has := fun s hs => (h.opened_has s hs).keeps (keeps_claim fresh)
    enums_nodup := Keyed.nodup_keys_insert h.enums_nodup
    enum_proper := forall_mem_insert proper h.enum_proper
    type_proper := claimed.type_proper
    input_proper := claimed.input_proper
    resources := claimed.resources }

/-- An input type may be added under a fresh name. -/
theorem Consistent.input {t : TypeDef} (h : r.Consistent opened)
    (legal : name ∉ reservedTypeNames) (fresh : Keyed.find? name r.sources = none)
    (input : t.isInput = true) (proper : t.Proper (r.Has "enum") name) :
    ((r.claim name "input" source).addType t).Consistent opened := by
  have claimed : Claimed (r.claim name "input" source) := h.claim legal fresh
  have inputs (s : String) : s ∈ Keyed.keys (Keyed.insert name t r.api.inputs) ↔
      (r.claim name "input" source).Has "input" s := by
    rw [Keyed.mem_keys_insert, h.inputs, has_claim fresh, and_iff_left rfl]
  have enums (s : String) : r.Has "enum" s ↔ (r.claim name "input" source).Has "enum" s :=
    has_claim_of_ne fresh (by decide)
  have proper' := proper.mono fun s => (enums s).mp
  rw [addType_input input, proper.named]
  exact { h with
    legal := claimed.legal
    enums := fun s => (h.enums s).trans (enums s)
    types := fun s => (h.types s).trans
      (and_congr_left fun _ => has_claim_of_ne fresh (by decide))
    inputs := inputs
    opened_has := fun s hs => (h.opened_has s hs).keeps (keeps_claim fresh)
    inputs_nodup := Keyed.nodup_keys_insert h.inputs_nodup
    type_proper := claimed.type_proper
    input_proper := forall_mem_insert proper' claimed.input_proper
    resources := claimed.resources }

/-- A resource may be added when its names are free and its types are there. -/
theorem Consistent.resource {names : ResourceNames} (h : r.Consistent opened)
    (free : names.conflict? r.api = none) (claimed : r.Has "type" names.typeName)
    (paged : r.Has "type" (names.typeName ++ "Connection")) (resource : String)
    (searchable : List String) :
    ({ r with api := r.api.addResource (names.resource resource searchable) }
      : Registry n).Consistent opened := by
  obtain ⟨-, untaken, hne⟩ := ResourceNames.free_of_conflict free
  have fieldNames : (names.resource resource searchable).queryFields.map Field.name
      = [names.listField, names.singleField] := rfl
  exact { h with
    queries := by
      show r.api.queryFields ++ _ = (r.api.resources ++ [_]).flatMap Resource.queryFields
      rw [List.flatMap_append, ← h.queries, List.flatMap_singleton]
    queries_nodup := by
      show ((r.api.queryFields ++ _).map Field.name).Nodup
      rw [List.map_append, fieldNames, List.nodup_append]
      refine ⟨h.queries_nodup, by simpa using hne, ?_⟩
      rintro x hx y hy rfl
      exact (untaken x hy).2 hx
    queries_legal := by
      intro f hf
      rcases List.mem_append.mp hf with hf | hf
      · exact h.queries_legal f hf
      · exact (untaken f.name (fieldNames ▸ List.mem_map_of_mem hf)).1
    resources := by
      intro a ha
      rcases List.mem_append.mp ha with ha | ha
      · exact h.resources a ha
      · obtain rfl := List.mem_singleton.mp ha
        exact ⟨claimed, paged⟩ }

end Registry

/-! ## Steps -/

/-- No reserved name ends like the name of a page type or of a filter. -/
theorem append_not_reserved {name ending : String} (h : ending ∈ ["Connection", "Filter"]) :
    name ++ ending ∉ reservedTypeNames := by
  have no_suffix : ∀ e ∈ ["Connection", "Filter"], ∀ s ∈ reservedTypeNames,
      ¬ e.toList <:+ s.toList := by decide
  intro hr
  refine no_suffix ending h _ hr ?_
  rw [String.toList_append]
  exact List.suffix_append ..

namespace Assembly

variable {g : RawGraph} {o : CompileOptions}

/-- An assembly with a consistent registry, where the names of the current resource are free. -/
structure Consistent (s : Assembly n) : Prop where
  registry : s.registry.Consistent (s.visiting.map (·.2))
  free : ∀ names, s.root = some names → names.conflict? s.registry.api = none

theorem consistent_initial : (initial n).Consistent :=
  ⟨Registry.consistent_empty, nofun⟩

theorem Consistent.same_queries {s s' : Assembly n} (h : s.Consistent) (hroot : s'.root = s.root)
    (hqueries : s'.registry.api.queryFields = s.registry.api.queryFields)
    (hregistry : s'.registry.Consistent (s'.visiting.map (·.2))) : s'.Consistent :=
  ⟨hregistry, fun names hn =>
    (ResourceNames.conflict?_congr hqueries).trans (h.free names (hroot ▸ hn))⟩

theorem closing_proper {t : NodeTable n} {visiting : Visiting n} {required : List String}
    {name : String} {r : Registry n} {properties : List (String × Node n)} {fields : List Field}
    (image : List.Forall₂ (fun p f => t.fieldOf visiting required name p = .ok f ∧
      r.Provides (t.element p.2) f.typeName) properties fields) :
    TypeDef.Proper (fun s => r.Has "enum" s ∨ r.Has "type" s) name
      { name := name, fields := Compiling.withSomeField (fields.foldl appendField []) } := by
  rw [appendField_eq, foldl_appendNew_nil]
  unfold Compiling.withSomeField
  split
  · exact ⟨rfl, by simp, by simp, by simp [defaultScalar_mem]⟩
  · rename_i hne
    refine ⟨rfl, fun h => hne (List.isEmpty_iff.mpr h), nodup_keys_firstsBy fields, fun f hf => ?_⟩
    obtain ⟨p, -, hp, provides⟩ := exists_of_forall₂_right image (firstsBy_subset fields hf)
    exact fieldOf_type hp provides

theorem filter_proper {r : Registry n} {fields : List Field} (name : String)
    (h : ∀ s, s ∈ Keyed.keys r.api.enums → r.Has "enum" s)
    (image : ∀ f ∈ fields, FilterField n r.api f) :
    TypeDef.Proper (r.Has "enum") name
      { name := name, fields := fields.foldl appendField Compiling.commonFilterFields,
        isInput := true } := by
  have common : ∀ f ∈ Compiling.commonFilterFields, f.typeName ∈ scalarNames := by decide
  rw [appendField_eq]
  refine ⟨rfl, ?_, nodup_foldl_appendNew (by decide), fun f hf => ?_⟩
  · rw [foldl_appendNew]
    exact List.append_ne_nil_of_left_ne_nil (List.cons_ne_nil _ _) _
  · rcases mem_foldl_appendNew hf with hf | hf
    · exact Or.inl (common f hf)
    · rcases (image f hf).typed with ⟨x, hx⟩ | hkey
      · exact Or.inl (scalarName_mem hx)
      · exact Or.inr (h _ (Keyed.hasKey_iff.mp hkey))

theorem connection_proper {r : Registry n} {typeName : String} (name : String)
    (h : r.Has "type" typeName) :
    TypeDef.Proper (fun s => r.Has "enum" s ∨ r.Has "type" s) name
      { name := name, fields := Compiling.connectionFields typeName } := by
  refine ⟨rfl, List.cons_ne_nil _ _, by simp [Compiling.connectionFields], ?_⟩
  simp [Compiling.connectionFields, h, scalarNames]

theorem Step.consistent {s s' : Assembly g.size} (h : Step g o s s') (hs : s.Consistent) :
    s'.Consistent := by
  cases h with
  | reading _ => exact ⟨hs.registry, nofun⟩
  | beginning resource free => exact ⟨hs.registry, by rintro names ⟨⟩; exact free⟩
  | @enumeration _ _ _ _ name _ v values _ _ legal fresh =>
      exact hs.same_queries rfl rfl (hs.registry.enumeration legal fresh
        (EnumDef.ofValues_proper name (List.cons_ne_nil v values)))
  | opening _ legal fresh => exact hs.same_queries rfl rfl (hs.registry.open legal fresh)
  | closing _ image =>
      exact hs.same_queries rfl rfl (hs.registry.close rfl (closing_proper image))
  | @connection _ r names claimed fresh =>
      have opened : (r.claim (names.typeName ++ "Connection") "type"
          (.literal [.str "connection", .str names.typeName])).Consistent
            [names.typeName ++ "Connection"] :=
        hs.registry.open (append_not_reserved (by decide)) fresh
      exact hs.same_queries rfl rfl (opened.close rfl
        (connection_proper _ (claimed.keeps (Registry.keeps_claim fresh))))
  | filter fresh image =>
      exact hs.same_queries rfl rfl (hs.registry.input (append_not_reserved (by decide)) fresh rfl
        (filter_proper _ (fun s hm => (hs.registry.enums s).mp hm) image))
  | finishing resource searchable claimed paged =>
      exact ⟨hs.registry.resource (hs.free _ rfl) claimed paged resource searchable, nofun⟩

theorem Run.consistent {s s' : Assembly g.size} (h : Run g o s s') (hs : s.Consistent) :
    s'.Consistent :=
  h.invariant Step.consistent hs

end Assembly

/-! ## Compiled APIs -/

namespace Api

/-- Every name that is used is defined, once, under its own name and not under a reserved one; no
definition is empty, and no two of its parts have one name. -/
structure WellFormed (a : Api) : Prop where
  typeRefs : ∀ p ∈ a.types, ∀ f ∈ p.2.fields,
    f.typeName ∈ scalarNames ∨ f.typeName ∈ Keyed.keys a.enums ∨ f.typeName ∈ Keyed.keys a.types
  inputRefs : ∀ p ∈ a.inputs, ∀ f ∈ p.2.fields,
    f.typeName ∈ scalarNames ∨ f.typeName ∈ Keyed.keys a.enums
  rootRefs : ∀ f ∈ a.queryType.fields ++ a.searchResultsType.fields,
    f.typeName ∈ scalarNames ∨ f.typeName = a.searchResultsType.name ∨
      f.typeName ∈ Keyed.keys a.types
  argumentRefs : ∀ f ∈ a.queryType.fields, ∀ arg ∈ f.arguments, arg.typeName ∈ scalarNames
  disjoint : (Keyed.keys a.enums ++ Keyed.keys a.types ++ Keyed.keys a.inputs).Nodup
  legal : ∀ name ∈ Keyed.keys a.enums ++ Keyed.keys a.types ++ Keyed.keys a.inputs,
    name ∉ reservedTypeNames
  enumNames : ∀ p ∈ a.enums, p.2.name = p.1
  typeNames : ∀ p ∈ a.types ++ a.inputs, p.2.name = p.1
  someValue : ∀ p ∈ a.enums, p.2.values ≠ []
  someField : ∀ p ∈ a.types ++ a.inputs, p.2.fields ≠ []
  distinctValues : ∀ p ∈ a.enums, (p.2.values.map EnumValue.name).Nodup
  distinctFields : ∀ p ∈ a.types ++ a.inputs, (p.2.fields.map Field.name).Nodup
  distinctQueries : (a.queryType.fields.map Field.name).Nodup
  distinctResults : (a.searchResultsType.fields.map Field.name).Nodup

end Api

theorem listFields_sublist (resources : List Resource) :
    (resources.map Resource.listField).Sublist
      ((resources.flatMap Resource.queryFields).map Field.name) := by
  induction resources with
  | nil => exact List.Sublist.slnil
  | cons a rest ih => exact (ih.cons a.singleField).cons_cons a.listField

namespace Registry.Consistent

variable {r : Registry n}

theorem rootRefs (h : r.Consistent []) {f : Field}
    (hf : f ∈ r.api.queryType.fields ++ r.api.searchResultsType.fields) :
    f.typeName ∈ scalarNames ∨ f.typeName = r.api.searchResultsType.name ∨
      r.Has "type" f.typeName := by
  rcases List.mem_append.mp hf with hf | hf
  · rcases List.mem_append.mp hf with hf | hf
    · rw [h.queries] at hf
      obtain ⟨a, ha, hf⟩ := List.mem_flatMap.mp hf
      obtain ⟨single, paged⟩ := h.resources a ha
      simp only [Resource.queryFields, List.mem_cons, List.not_mem_nil, or_false] at hf
      rcases hf with rfl | rfl
      · exact Or.inr (Or.inr paged)
      · exact Or.inr (Or.inr single)
    · obtain rfl := List.mem_singleton.mp hf
      exact Or.inr (Or.inl rfl)
  · rcases List.mem_append.mp hf with hf | hf
    · obtain ⟨a, ha, rfl⟩ := List.mem_map.mp hf
      exact Or.inr (Or.inr (h.resources a ha).1)
    · obtain rfl := List.mem_singleton.mp hf
      exact Or.inl (by simp [scalarNames])

theorem argumentRefs (h : r.Consistent []) {f : Field} (hf : f ∈ r.api.queryType.fields) :
    ∀ arg ∈ f.arguments, arg.typeName ∈ scalarNames := by
  rcases List.mem_append.mp hf with hf | hf
  · rw [h.queries] at hf
    obtain ⟨a, -, hf⟩ := List.mem_flatMap.mp hf
    simp only [Resource.queryFields, List.mem_cons, List.not_mem_nil, or_false] at hf
    rcases hf with rfl | rfl <;> simp [scalarNames]
  · obtain rfl := List.mem_singleton.mp hf
    simp [Api.searchField, scalarNames]

/-- Names of definitions of different kinds differ. -/
theorem disjoint (h : r.Consistent []) :
    (Keyed.keys r.api.enums ++ Keyed.keys r.api.types ++ Keyed.keys r.api.inputs).Nodup := by
  refine List.nodup_append.mpr ⟨List.nodup_append.mpr ⟨h.enums_nodup, h.types_nodup, ?_⟩,
    h.inputs_nodup, ?_⟩
  · rintro s hs _ ht rfl
    exact absurd (((h.enums s).mp hs).kind_unique ((h.types s).mp ht).1) (by decide)
  · rintro s hs _ hi rfl
    have input := (h.inputs s).mp hi
    rcases List.mem_append.mp hs with hs | hs
    · exact absurd (((h.enums s).mp hs).kind_unique input) (by decide)
    · exact absurd (((h.types s).mp hs).1.kind_unique input) (by decide)

theorem names_legal (h : r.Consistent []) {s : String}
    (hs : s ∈ Keyed.keys r.api.enums ++ Keyed.keys r.api.types ++ Keyed.keys r.api.inputs) :
    s ∉ reservedTypeNames := by
  rcases List.mem_append.mp hs with hs | hs
  · rcases List.mem_append.mp hs with hs | hs
    · exact h.legal _ _ ((h.enums s).mp hs)
    · exact h.legal _ _ ((h.types s).mp hs).1
  · exact h.legal _ _ ((h.inputs s).mp hs)

theorem distinctQueries (h : r.Consistent []) :
    (r.api.queryType.fields.map Field.name).Nodup := by
  show ((r.api.queryFields ++ [Api.searchField]).map Field.name).Nodup
  rw [List.map_append, List.nodup_append]
  refine ⟨h.queries_nodup, by simp, ?_⟩
  rintro s hs _ ht rfl
  obtain ⟨f, hf, rfl⟩ := List.mem_map.mp hs
  refine h.queries_legal f hf ?_
  rw [List.mem_singleton.mp ht]
  decide

theorem distinctResults (h : r.Consistent []) :
    (r.api.searchResultsType.fields.map Field.name).Nodup := by
  have names : r.api.searchResultsType.fields.map Field.name
      = r.api.resources.map Resource.listField ++ ["totalCount"] := by
    simp [Api.searchResultsType, Function.comp_def]
  have sublist := listFields_sublist r.api.resources
  rw [← h.queries] at sublist
  rw [names, List.nodup_append]
  refine ⟨h.queries_nodup.sublist sublist, by simp, ?_⟩
  rintro s hs _ ht rfl
  obtain ⟨f, hf, rfl⟩ := List.mem_map.mp (sublist.subset hs)
  refine h.queries_legal f hf ?_
  rw [List.mem_singleton.mp ht]
  decide

theorem wellFormed (h : r.Consistent []) : r.api.WellFormed := by
  have types (s : String) : s ∈ Keyed.keys r.api.types ↔ r.Has "type" s :=
    (h.types s).trans (and_iff_left List.not_mem_nil)
  have definitions {P : String × TypeDef → Prop}
      (hP : ∀ (Known : String → Prop) p, p.2.Proper Known p.1 → P p) :
      ∀ p ∈ r.api.types ++ r.api.inputs, P p := by
    intro p hp
    rcases List.mem_append.mp hp with hp | hp
    · exact hP _ p (h.type_proper p hp)
    · exact hP _ p (h.input_proper p hp)
  exact {
    typeRefs := fun p hp f hf =>
      ((h.type_proper p hp).known f hf).imp_right (Or.imp (h.enums _).mpr (types _).mpr)
    inputRefs := fun p hp f hf => ((h.input_proper p hp).known f hf).imp_right (h.enums _).mpr
    rootRefs := fun f hf => (h.rootRefs hf).imp_right (Or.imp_right (types _).mpr)
    argumentRefs := fun f hf => h.argumentRefs hf
    disjoint := h.disjoint
    legal := fun s hs => h.names_legal hs
    enumNames := fun p hp => (h.enum_proper p hp).named
    typeNames := definitions fun _ _ ht => ht.named
    someValue := fun p hp => (h.enum_proper p hp).some_value
    someField := definitions fun _ _ ht => ht.some_field
    distinctValues := fun p hp => (h.enum_proper p hp).distinct
    distinctFields := definitions fun _ _ ht => ht.distinct
    distinctQueries := h.distinctQueries
    distinctResults := h.distinctResults }

end Registry.Consistent

/-- Whatever the resources are, if they compile then their API is closed and unambiguous. -/
theorem compile_wellFormed {o : CompileOptions} {s : Specs} {api : Api} {log : List LogLine}
    (h : compile o s = .ok (api, log)) : api.WellFormed := by
  obtain ⟨c, -, rfl, run⟩ := Assembly.compile_run h
  exact (run.consistent Assembly.consistent_initial).registry.wellFormed

/-- Persons, who have persons as parent and children. -/
def Specs.family : Specs where
  graph :=
    { size := 5
      objects := #v[
        [("type", .str "object"), ("properties", .obj 1), ("required", .arr [.str "name"])],
        [("name", .obj 2), ("parent", .obj 0), ("children", .obj 3), ("known", .obj 4)],
        [("type", .str "string")],
        [("type", .str "array"), ("items", .obj 0)],
        [("enum", .arr [.bool true])]]
      nodup := by decide }
  specs := [{ name := "persons", schemas := [("Person", .obj 0)] }]

theorem compile_family :
    (compile {} Specs.family).map (fun c =>
        (Keyed.keys c.1.types, c.1.resources.map fun a => (a.name, a.connectionType)))
      = .ok (["Person", "PersonConnection"], [("persons", "PersonConnection")]) := by
  rw [compile_eq_upTo]
  decide +kernel

theorem family_compiles : ∃ api log, compile {} Specs.family = .ok (api, log) ∧
    Keyed.keys api.types = ["Person", "PersonConnection"] ∧
    api.resources.map (fun a => (a.name, a.connectionType)) = [("persons", "PersonConnection")] := by
  obtain ⟨⟨api, log⟩, hc, names⟩ := exists_of_map_eq_ok compile_family
  exact ⟨api, log, hc, congrArg Prod.fst names, congrArg Prod.snd names⟩

theorem family_wellFormed : ∃ api log, compile {} Specs.family = .ok (api, log) ∧
    Keyed.keys api.types = ["Person", "PersonConnection"] ∧ api.WellFormed := by
  obtain ⟨api, log, hc, types, -⟩ := family_compiles
  exact ⟨api, log, hc, types, compile_wellFormed hc⟩

end ResourceGraph
