import ResourceGraph.Proofs.TypeSystem.Declared
import ResourceGraph.TypeSystem.Binding

/-!
# Values and resolvers of a compiled API

A type system that has the definitions of a compiled API takes the values of every enumeration, each
for the member of its name, and it has all fields that resolvers of the API can be for.
-/

namespace ResourceGraph

/-- A member that has been given its value. -/
def EnumValue.member (v : EnumValue) : EnumMember := ⟨v.name, v.value⟩

namespace TypeSystem

/-! ## Checking resolvers -/

theorem checkFields_of_known {type : String} {known : List OutputField} {fs : List String}
    (h : ∀ f ∈ fs, f ∈ known.map OutputField.name) : checkFields type known fs = .ok () := by
  induction fs with
  | nil => rfl
  | cons f fs ih =>
      obtain ⟨hf, hfs⟩ := List.forall_mem_cons.mp h
      obtain ⟨k, hk, rfl⟩ := List.mem_map.mp hf
      have there : known.any (·.name == k.name) = true :=
        List.any_eq_true.mpr ⟨k, hk, beq_self_eq_true _⟩
      rw [checkFields, if_pos there]
      exact ih hfs

theorem checkResolvers_of_known {t : TypeSystem} {rs : List (String × List String)}
    (h : ∀ p ∈ rs, ∃ known, t.objectFields? p.1 = some known ∧
      ∀ f ∈ p.2, f ∈ known.map OutputField.name) : t.checkResolvers rs = .ok () := by
  induction rs with
  | nil => rfl
  | cons p rs ih =>
      obtain ⟨⟨known, hknown, hfs⟩, hrs⟩ := List.forall_mem_cons.mp h
      rw [checkResolvers, hknown]
      dsimp only
      rw [checkFields_of_known hfs]
      exact ih hrs

/-! ## Giving values -/

theorem setMember_append {v : EnumValue} {done : List EnumMember}
    (fresh : ∀ m ∈ done, m.name ≠ v.name) (ms : List EnumMember) :
    setMember v (done ++ ms) = (setMember v ms).map (done ++ ·) := by
  induction done with
  | nil => cases h : setMember v ms <;> simp [h, Except.map]
  | cons m done ih =>
      obtain ⟨hm, hdone⟩ := List.forall_mem_cons.mp fresh
      rw [List.cons_append, setMember, if_neg hm, ih hdone]
      cases setMember v ms <;> rfl

/-- The members before those that are still to be given a value have got theirs. -/
theorem setMembers_eq {done vs : List EnumValue}
    (distinct : ((done ++ vs).map EnumValue.name).Nodup) :
    setMembers vs (done.map EnumValue.member ++ vs.map fun v => ({ name := v.name } : EnumMember))
      = .ok ((done ++ vs).map EnumValue.member) := by
  induction vs generalizing done with
  | nil => simp [setMembers]
  | cons v vs ih =>
      have fresh : ∀ m ∈ done.map EnumValue.member, m.name ≠ v.name := by
        intro m hm hn
        obtain ⟨d, hd, rfl⟩ := List.mem_map.mp hm
        rw [List.map_append, List.nodup_append] at distinct
        exact distinct.2.2 _ (List.mem_map_of_mem hd) _ (List.mem_cons_self ..) hn
      have moved : done ++ v :: vs = done ++ [v] ++ vs := by simp
      have given : setMember v (done.map EnumValue.member
            ++ ({ name := v.name } :: vs.map fun v => { name := v.name }))
          = .ok ((done ++ [v]).map EnumValue.member ++ vs.map fun v => { name := v.name }) := by
        rw [setMember_append fresh, setMember, if_pos rfl]
        simp [Except.map, EnumValue.member]
      rw [List.map_cons, setMembers, given]
      rw [moved] at distinct ⊢
      exact ih distinct

/-- The type that an enumeration is when its members have their values. -/
def ofEnum (e : EnumDef) : NamedType := .enum e.name (e.values.map EnumValue.member)

theorem withValues_eq {t : TypeSystem} {e : EnumDef}
    (distinct : (e.values.map EnumValue.name).Nodup)
    (declared : t.type? e.name = some (Definition.enum e).namedType) :
    t.withValues e = .ok { t with types := Keyed.insert e.name (ofEnum e) t.types } := by
  have given : setMembers e.values (([] : List EnumValue).map EnumValue.member
        ++ e.values.map fun v => ({ name := v.name } : EnumMember))
      = .ok (([] ++ e.values).map EnumValue.member) := setMembers_eq distinct
  rw [List.map_nil, List.nil_append, List.nil_append] at given
  rw [withValues, declared]
  dsimp only [Definition.namedType]
  rw [given]
  rfl

theorem type?_insert (t : TypeSystem) (k name : String) (type : NamedType) :
    TypeSystem.type? { t with types := Keyed.insert name type t.types } k
      = if k = name then some type else t.type? k :=
  Keyed.find?_insert ..

/-- Enumerations of different names all take their values, and nothing else changes. -/
theorem withAllValues_eq_ok {es : List EnumDef} {t : TypeSystem}
    (names : (es.map EnumDef.name).Nodup)
    (distinct : ∀ e ∈ es, (e.values.map EnumValue.name).Nodup)
    (declared : ∀ e ∈ es, t.type? e.name = some (Definition.enum e).namedType) :
    ∃ t', withAllValues es t = .ok t' ∧ (∀ e ∈ es, t'.type? e.name = some (ofEnum e)) ∧
      ∀ k, k ∉ es.map EnumDef.name → t'.type? k = t.type? k := by
  induction es generalizing t with
  | nil => exact ⟨t, rfl, nofun, fun _ _ => rfl⟩
  | cons e es ih =>
      obtain ⟨hname, names⟩ := List.nodup_cons.mp names
      obtain ⟨hdistinct, distinct⟩ := List.forall_mem_cons.mp distinct
      obtain ⟨hdeclared, declared⟩ := List.forall_mem_cons.mp declared
      have still : ∀ e' ∈ es, TypeSystem.type? { t with
          types := Keyed.insert e.name (ofEnum e) t.types } e'.name
          = some (Definition.enum e').namedType := by
        intro e' he'
        have other : e'.name ≠ e.name := fun h => hname (h ▸ List.mem_map_of_mem he')
        rw [type?_insert, if_neg other]
        exact declared e' he'
      obtain ⟨t', ht', given, same⟩ := ih names distinct still
      refine ⟨t', ?_, List.forall_mem_cons.mpr ⟨?_, given⟩, fun k hk => ?_⟩
      · rw [withAllValues, withValues_eq hdistinct hdeclared]
        exact ht'
      · rw [same _ hname, type?_insert, if_pos rfl]
      · rw [List.map_cons, List.mem_cons, not_or] at hk
        obtain ⟨hne, hk⟩ := hk
        rw [same k hk, type?_insert, if_neg hne]

end TypeSystem

/-! ## Compiled APIs -/

namespace Api

variable {a : Api}

theorem enum_mem_definitions {p : String × EnumDef} (h : p ∈ a.enums) :
    .enum p.2 ∈ a.definitions := by
  have there : Definition.enum p.2 ∈ a.enums.map fun e => .enum e.2 :=
    List.mem_map_of_mem (f := fun e : String × EnumDef => Definition.enum e.2) h
  simp only [definitions, List.mem_append, there, true_or]

theorem type_mem_definitions {p : String × TypeDef} (h : p ∈ a.types) :
    .type p.2 ∈ a.definitions := by
  have there : Definition.type p.2 ∈ a.types.map fun t => .type t.2 :=
    List.mem_map_of_mem (f := fun t : String × TypeDef => Definition.type t.2) h
  simp only [definitions, List.mem_append, there, true_or, or_true]

theorem queryType_mem_definitions : .type a.queryType ∈ a.definitions := by
  simp [definitions]

end Api

theorem TypeSystem.Defines.objectFields {t : TypeSystem} {a : Api} (defines : t.Defines a) {d : TypeDef}
    (hd : .type d ∈ a.definitions) (output : d.isInput = false) :
    t.objectFields? d.name = some (d.fields.map Field.output) := by
  have declared := defines _ hd
  rw [Definition.namedType, output] at declared
  rw [objectFields?, show t.type? d.name = _ from declared]
  rfl

namespace Registry.Finished

open TypeSystem

variable {n : Nat} {naming : Naming} {r : Registry n} {t : TypeSystem}

/-- The type system takes the values of all enumerations. -/
theorem takes_values (h : r.Finished naming) (defines : t.Defines r.api) :
    ∃ t', withAllValues (r.api.enums.map (·.2)) t = .ok t' ∧
      (∀ p ∈ r.api.enums, t'.type? p.1 = some (ofEnum p.2)) ∧
      ∀ k, k ∉ Keyed.keys r.api.enums → t'.type? k = t.type? k := by
  have wellFormed := h.consistent.wellFormed
  have own : (r.api.enums.map (·.2)).map EnumDef.name = Keyed.keys r.api.enums := by
    rw [List.map_map]
    exact List.map_congr_left wellFormed.enumNames
  have declared : ∀ e ∈ r.api.enums.map (·.2), t.type? e.name = some (Definition.enum e).namedType := by
    intro e he
    obtain ⟨p, hp, rfl⟩ := List.mem_map.mp he
    exact defines _ (Api.enum_mem_definitions hp)
  have distinct : ∀ e ∈ r.api.enums.map (·.2), (e.values.map EnumValue.name).Nodup := by
    intro e he
    obtain ⟨p, hp, rfl⟩ := List.mem_map.mp he
    exact wellFormed.distinctValues p hp
  obtain ⟨t', ht', given, same⟩ :=
    withAllValues_eq_ok (own ▸ h.consistent.enums_nodup) distinct declared
  refine ⟨t', ht', fun p hp => ?_, own ▸ same⟩
  rw [← wellFormed.enumNames p hp]
  exact given p.2 (List.mem_map_of_mem hp)

end Registry.Finished

end ResourceGraph
