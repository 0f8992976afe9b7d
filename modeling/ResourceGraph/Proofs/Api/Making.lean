import ResourceGraph.Proofs.Api.Image

/-!
# How definitions are made

Every enumeration of a compiled API is made from the values of the node that its name was claimed
for, its aliases included. Fields of types and of inputs take no arguments, and a field that stands
for a property has the name that is made from it.
-/

namespace ResourceGraph

variable {n : Nat}

namespace Registry

/-- What every definition is made from. -/
structure Made (r : Registry n) : Prop where
  enums : ∀ p ∈ r.api.enums, ∃ id values type,
    Keyed.find? p.1 r.sources = some ("enum", .node (.enumeration id values type)) ∧
      values ≠ [] ∧ p.2 = EnumDef.ofValues p.1 values
  types : ∀ p ∈ r.api.types, p.2.isInput = false ∧ ∀ f ∈ p.2.fields,
    f.arguments = [] ∧ ∀ s, f.sourceName = some s → f.name = Naming.sanitizeFieldName s
  inputs : ∀ p ∈ r.api.inputs, p.2.isInput = true ∧ ∀ f ∈ p.2.fields, f.arguments = []

theorem made_empty : ({} : Registry n).Made := by
  constructor <;> simp

/-- An enumeration stays what it was made from. -/
theorem Made.enums_keeps {r r' : Registry n} (h : r.Made) (keeps : r.Keeps r') :
    ∀ p ∈ r.api.enums, ∃ id values type,
      Keyed.find? p.1 r'.sources = some ("enum", .node (.enumeration id values type)) ∧
        values ≠ [] ∧ p.2 = EnumDef.ofValues p.1 values := by
  intro p hp
  obtain ⟨id, values, type, source, rest⟩ := h.enums p hp
  exact ⟨id, values, type, keeps _ _ source, rest⟩

end Registry

namespace Assembly

variable {g : RawGraph} {o : CompileOptions}

theorem closing_made {t : NodeTable n} {visiting : Visiting n} {required : List String}
    {name : String} {r : Registry n} {properties : List (String × Node n)} {fields : List Field}
    (image : List.Forall₂ (fun p f => t.fieldOf visiting required name p = .ok f ∧
      r.Provides (t.element p.2) f.typeName) properties fields) :
    ∀ f ∈ Compiling.withSomeField (fields.foldl appendField []),
      f.arguments = [] ∧ ∀ s, f.sourceName = some s → f.name = Naming.sanitizeFieldName s := by
  rw [appendField_eq, foldl_appendNew_nil]
  unfold Compiling.withSomeField
  intro f hf
  split at hf
  · obtain rfl := List.mem_singleton.mp hf
    exact ⟨rfl, nofun⟩
  · obtain ⟨p, -, hp, -⟩ := exists_of_forall₂_right image (firstsBy_subset fields hf)
    obtain ⟨type, -, rfl⟩ := NodeTable.fieldOf_eq_ok hp
    refine ⟨rfl, fun s hs => ?_⟩
    rw [← Option.some.inj hs]

theorem connection_made (typeName : String) : ∀ f ∈ Compiling.connectionFields typeName,
    f.arguments = [] ∧ ∀ s, f.sourceName = some s → f.name = Naming.sanitizeFieldName s := by
  simp [Compiling.connectionFields]

theorem filter_made {api : Api} {fields : List Field} (image : ∀ f ∈ fields, FilterField n api f) :
    ∀ f ∈ fields.foldl appendField Compiling.commonFilterFields, f.arguments = [] := by
  intro f hf
  rcases mem_foldl_appendNew hf with hf | hf
  · simp only [Compiling.commonFilterFields, List.mem_cons, List.not_mem_nil, or_false] at hf
    rcases hf with rfl | rfl | rfl <;> rfl
  · exact (image f hf).plain

theorem Step.made {s s' : Assembly g.size} (h : Step g o s s') (hs : s.registry.Made) :
    s'.registry.Made := by
  have enums := hs.enums_keeps h.keeps
  cases h with
  | reading | beginning | opening | finishing => exact ⟨enums, hs.types, hs.inputs⟩
  | enumeration _ _ fresh =>
      refine ⟨Registry.forall_mem_insert ?_ enums, hs.types, hs.inputs⟩
      rw [EnumDef.ofValues_name]
      exact ⟨_, _, _, Registry.find?_claim .., List.cons_ne_nil _ _, rfl⟩
  | closing _ image =>
      exact ⟨enums, Registry.forall_mem_insert ⟨rfl, closing_made image⟩ hs.types, hs.inputs⟩
  | connection =>
      exact ⟨enums, Registry.forall_mem_insert ⟨rfl, connection_made _⟩ hs.types, hs.inputs⟩
  | filter _ image =>
      exact ⟨enums, hs.types, Registry.forall_mem_insert ⟨rfl, filter_made image⟩ hs.inputs⟩

theorem Run.made {s s' : Assembly g.size} (h : Run g o s s') (hs : s.registry.Made) :
    s'.registry.Made :=
  h.invariant Step.made hs

end Assembly

end ResourceGraph
