import Mathlib.Data.List.Induction
import ResourceGraph.Proofs.Api.Collisions
import ResourceGraph.Proofs.Api.Representation
import ResourceGraph.Proofs.Service.Resolvers

/-!
# What stands for a raw value

Every raw value that an enumeration is compiled from has a place in it, as a value or as an alias of
an earlier one. A resolver puts in the place of each what the value of its name is, and leaves
everything else.
-/

namespace ResourceGraph

namespace EnumDef

/-! ## Values and aliases by place -/

/-- The name of the raw value at a place is that of none before it. -/
def IsNew (given : List Value) (p : Value × Nat) : Prop :=
  enumValueName p.1 ∉ (given.take p.2).map enumValueName

instance (given : List Value) : DecidablePred (IsNew given) := fun p =>
  inferInstanceAs (Decidable (enumValueName p.1 ∉ (given.take p.2).map enumValueName))

variable {given : List Value}

/-- What is before a place stays when a raw value is added behind. -/
theorem isNew_append {p : Value × Nat} (hp : p ∈ given.zipIdx) (v : Value) :
    IsNew (given ++ [v]) p ↔ IsNew given p := by
  have before : p.2 ≤ given.length := Nat.le_of_lt (List.snd_lt_of_mem_zipIdx hp)
  rw [IsNew, IsNew, List.take_append_of_le_length before]

theorem isNew_last (v : Value) : IsNew (given ++ [v]) (v, given.length) ↔
    enumValueName v ∉ given.map enumValueName := by
  rw [IsNew, List.take_left]

theorem map_name_valueOf (values : List Value) :
    (values.map valueOf).map EnumValue.name = values.map enumValueName :=
  List.map_map ..

theorem any_name_ofValues (name valueName : String) :
    (ofValues name given).values.any (·.name == valueName) = true ↔
      valueName ∈ given.map enumValueName := by
  have names : valueName ∈ (firstsBy EnumValue.name (given.map valueOf)).map EnumValue.name ↔ _ :=
    mem_keys_firstsBy
  rw [map_name_valueOf, ← ofValues_values name] at names
  rw [← names, List.any_eq_true, List.mem_map]
  simp

/-- The raw values with a new name are the values and the others the aliases, both in order. -/
theorem ofValues_places (name : String) (given : List Value) :
    (ofValues name given).values
        = (given.zipIdx.filter fun p => IsNew given p).map (fun p => valueOf p.1) ∧
      (ofValues name given).aliases
        = (given.zipIdx.filter fun p => ¬ IsNew given p).map fun p => valueOf p.1 := by
  induction given using List.reverseRecOn with
  | nil => exact ⟨rfl, rfl⟩
  | append_singleton given v ih =>
      obtain ⟨values, aliases⟩ := ih
      have added : ofValues name (given ++ [v]) = (ofValues name given).addValue v :=
        List.foldl_append ..
      have new : given.zipIdx.filter (fun p => IsNew (given ++ [v]) p)
          = given.zipIdx.filter fun p => IsNew given p :=
        List.filter_congr fun p hp => by simp only [isNew_append hp]
      have old : given.zipIdx.filter (fun p => ¬ IsNew (given ++ [v]) p)
          = given.zipIdx.filter fun p => ¬ IsNew given p :=
        List.filter_congr fun p hp => by simp only [isNew_append hp]
      have last : [v].zipIdx (0 + given.length) = [(v, given.length)] := by
        rw [List.zipIdx_singleton, Nat.zero_add]
      rw [added, addValue, List.zipIdx_append, List.filter_append, List.filter_append, new, old, last,
        List.map_append, List.map_append, ← values, ← aliases]
      by_cases repeated : enumValueName v ∈ given.map enumValueName
      · have known := (any_name_ofValues name (enumValueName v)).mpr repeated
        have old_name : ¬ IsNew (given ++ [v]) (v, given.length) := fun h =>
          (isNew_last v).mp h repeated
        simp [known, old_name, valueOf]
      · have unknown := mt (any_name_ofValues name (enumValueName v)).mp repeated
        have new_name : IsNew (given ++ [v]) (v, given.length) := (isNew_last v).mpr repeated
        simp [unknown, new_name, valueOf]

/-- Every raw value has its name from a first one, which is at its place or before. -/
theorem exists_isNew {p : Value × Nat} (hp : p ∈ given.zipIdx) :
    ∃ q ∈ given.zipIdx, q.2 ≤ p.2 ∧ IsNew given q ∧ enumValueName q.1 = enumValueName p.1 := by
  obtain ⟨v, i⟩ := p
  -- each step goes to an earlier place
  induction i using Nat.strongRecOn generalizing v with
  | ind i ih =>
  by_cases new : IsNew given (v, i)
  · exact ⟨(v, i), hp, Nat.le_refl i, new, rfl⟩
  · obtain ⟨u, hu, same⟩ := List.mem_map.mp (not_not.mp new)
    obtain ⟨j, hj, at_j⟩ := List.mem_take_iff_getElem.mp hu
    have earlier : j < i := lt_of_lt_of_le hj (Nat.min_le_left ..)
    have there : (u, j) ∈ given.zipIdx :=
      List.mk_mem_zipIdx_iff_getElem?.mpr (List.getElem?_eq_some_iff.mpr ⟨_, at_j⟩)
    obtain ⟨q, hq, before, first, named⟩ := ih j earlier u there
    exact ⟨q, hq, Nat.le_trans before (Nat.le_of_lt earlier), first, named.trans same⟩

/-- Each raw value has one place in the enumeration: as a value if its name is new, else as an alias
of the value of its name, which is from an earlier place. The names of values are distinct and are
taken by GraphQL. -/
structure Divides (e : EnumDef) (given : List Value) : Prop where
  values : e.values = (given.zipIdx.filter fun p => IsNew given p).map fun p => valueOf p.1
  aliases : e.aliases = (given.zipIdx.filter fun p => ¬ IsNew given p).map fun p => valueOf p.1
  distinct : (e.values.map EnumValue.name).Nodup
  proper : ∀ u ∈ e.values, Naming.isName u.name = true ∧ u.name ∉ reservedEnumValues
  earlier : ∀ p ∈ given.zipIdx, ¬ IsNew given p → ∃ q ∈ given.zipIdx, q.2 < p.2 ∧
    IsNew given q ∧ ∀ u, u ∈ e.values ∧ u.name = (valueOf p.1).name ↔ u = valueOf q.1

theorem ofValues_divides (name : String) (given : List Value) :
    (ofValues name given).Divides given where
  values := (ofValues_places name given).1
  aliases := (ofValues_places name given).2
  distinct := ofValues_distinct name given
  proper := by
    intro u hu
    rw [ofValues_values] at hu
    obtain ⟨v, -, rfl⟩ := List.mem_map.mp (firstsBy_subset _ hu)
    exact Naming.enumValueName_proper v
  earlier := by
    intro p hp old
    obtain ⟨q, hq, before, new, named⟩ := exists_isNew hp
    have other : q.2 ≠ p.2 := by
      intro place
      have same : q = p := by
        rw [List.mem_zipIdx_iff_getElem?] at hp hq
        exact Prod.ext (Option.some.inj (hq.symm.trans ((congrArg (given[·]?) place).trans hp))) place
      exact old (same ▸ new)
    have listed : valueOf q.1 ∈ (ofValues name given).values := by
      rw [(ofValues_places name given).1]
      exact List.mem_map_of_mem (f := fun p : Value × Nat => valueOf p.1)
        (List.mem_filter.mpr ⟨hq, decide_eq_true new⟩)
    refine ⟨q, hq, Nat.lt_of_le_of_ne before other, new, fun u => ⟨?_, ?_⟩⟩
    · rintro ⟨hu, same⟩
      exact List.inj_on_of_nodup_map (ofValues_distinct name given) hu listed
        (same.trans named.symm)
    · rintro rfl
      exact ⟨listed, named⟩

end EnumDef

/-! ## What is put in the place of a value -/

theorem Value.looseEq_self {v : Value} (scalar : v.isScalar = true) (number : v.isNaN = false) :
    v.looseEq v = true := by
  have inner := innerEq_of_equal (equal_refl scalar)
  rwa [innerEq, number, Bool.and_false, Bool.or_false] at inner

namespace EnumDef

variable {e : EnumDef} {given : List Value}

/-- Only a list is gone through. -/
theorem translate_unlisted {v : Value} (unlisted : ∀ items, v ≠ .arr items) :
    e.translate v = Resolver.substitute e.replacements v := by
  cases v with
  | arr items => exact absurd rfl (unlisted items)
  | _ => rfl

theorem raw_mem (distinct : (e.values.map EnumValue.name).Nodup) {name : String}
    (h : name ∈ e.values.map EnumValue.name) : ⟨name, e.raw name⟩ ∈ e.values := by
  obtain ⟨u, hu, rfl⟩ := List.mem_map.mp h
  rw [raw_of_mem distinct hu]
  exact hu

theorem Collects.named (h : e.Collects given) {v : Value} (hv : v ∈ given) :
    enumValueName v ∈ e.values.map EnumValue.name := by
  rcases List.mem_append.mp ((h.mem (valueOf v)).mpr (List.mem_map_of_mem hv)) with hv | hv
  · exact List.mem_map_of_mem (f := EnumValue.name) hv
  · exact h.aliased _ hv

section

variable (h : e.Collects given) (distinct : (e.values.map EnumValue.name).Nodup)
  (scalars : ∀ v ∈ given, v.isScalar = true ∧ v.isNaN = false)
include h distinct scalars

/-- A declared value is replaced by the value of its name. -/
theorem substitute_declared {v : Value} (hv : v ∈ given) :
    Resolver.substitute e.replacements v = e.raw (enumValueName v) := by
  obtain ⟨scalar, number⟩ := scalars v hv
  rcases substitute_cases h scalar with ⟨_, -, -, -, replaced⟩ | ⟨unaliased, kept⟩
  · exact replaced
  · rw [kept]
    rcases List.mem_append.mp ((h.mem (valueOf v)).mpr (List.mem_map_of_mem hv)) with hv | hv
    · exact (raw_of_mem distinct hv).symm
    · exact absurd ⟨beq_self_eq_true _, Value.looseEq_self scalar number⟩ (unaliased _ hv)

/-- What is put in the place of another value is a declared one. -/
theorem substitute_declared_or_self (v : Value) : Resolver.substitute e.replacements v = v ∨
    ∃ u ∈ given, Resolver.substitute e.replacements v = u ∧
      Resolver.substitute e.replacements u = u := by
  rcases e.substitute_eq v with ⟨a, ha, -, -, replaced⟩ | ⟨-, kept⟩
  · obtain ⟨u, hu, same⟩ := List.mem_map.mp (h.aliased a ha)
    obtain ⟨own, declared⟩ := h.own (List.mem_append_left _ hu)
    have raw := raw_of_mem distinct hu
    refine Or.inr ⟨u.value, declared, ?_, ?_⟩
    · rw [replaced, ← same, raw]
    · rw [substitute_declared h distinct scalars declared, ← own, raw]
  · exact Or.inl kept

theorem substitute_substitute (v : Value) :
    Resolver.substitute e.replacements (Resolver.substitute e.replacements v)
      = Resolver.substitute e.replacements v := by
  rcases substitute_declared_or_self h distinct scalars v with kept | ⟨u, -, replaced, fixed⟩
  · rw [kept, kept]
  · rw [replaced, fixed]

theorem translate_translate (v : Value) : e.translate (e.translate v) = e.translate v := by
  have again (w : Value) (unlisted : ∀ items, w ≠ .arr items) :
      e.translate (Resolver.substitute e.replacements w)
        = Resolver.substitute e.replacements w := by
    have fixed := substitute_substitute h distinct scalars w
    have unlisted' : ∀ items, Resolver.substitute e.replacements w ≠ .arr items := by
      intro items listed
      rcases substitute_declared_or_self h distinct scalars w with kept | ⟨u, hu, replaced, -⟩
      · exact unlisted items (kept.symm.trans listed)
      · have scalar := (scalars u hu).1
        rw [← replaced, listed] at scalar
        cases scalar
    rw [translate_unlisted unlisted']
    exact fixed
  cases v with
  | arr items =>
      have twice : Resolver.substitute e.replacements ∘ Resolver.substitute e.replacements
          = Resolver.substitute e.replacements :=
        funext fun w => substitute_substitute h distinct scalars w
      simp only [translate, List.map_map, twice]
  | _ => exact again _ fun _ listed => by cases listed

end

/-- The values that a resolver puts in the place of others: each raw value becomes the value of its
name, what is no alias stays, doing it again changes nothing, and a list is gone through. -/
structure Replaces (e : EnumDef) (given : List Value) (ts : List (Value × Value)) : Prop where
  declared : ∀ v ∈ given, ⟨enumValueName v, Resolver.substitute ts v⟩ ∈ e.values
  others : ∀ v, (∀ a ∈ e.aliases, ¬ (v.sameKind a.value = true ∧ v.looseEq a.value = true)) →
    Resolver.substitute ts v = v
  idempotent : ∀ v, Resolver.substitute ts (Resolver.substitute ts v) = Resolver.substitute ts v
  list : ∀ key source items, Value.get key source = .arr items →
    Resolver.readEnum key ts source = .arr (items.map (Resolver.substitute ts))
  single : ∀ key source, (∀ items, Value.get key source ≠ .arr items) →
    Resolver.readEnum key ts source = Resolver.substitute ts (Value.get key source)
  again : ∀ key source, Resolver.readEnum key ts (.obj [(key, Resolver.readEnum key ts source)])
    = Resolver.readEnum key ts source

theorem replaces_replacements (h : e.Collects given)
    (distinct : (e.values.map EnumValue.name).Nodup)
    (scalars : ∀ v ∈ given, v.isScalar = true ∧ v.isNaN = false) :
    e.Replaces given e.replacements where
  declared v hv := by
    rw [substitute_declared h distinct scalars hv]
    exact raw_mem distinct (h.named hv)
  others v unaliased := by
    rcases e.substitute_eq v with ⟨a, ha, kind, loose, -⟩ | ⟨-, kept⟩
    · exact absurd ⟨kind, loose⟩ (unaliased a ha)
    · exact kept
  idempotent := substitute_substitute h distinct scalars
  list key source items listed := by
    rw [Resolver.readEnum_eq, listed]
    rfl
  single key source unlisted := by
    rw [Resolver.readEnum_eq, translate_unlisted unlisted]
  again key source := by
    have held (v : Value) : Value.get key (.obj [(key, v)]) = v := by simp [Value.get]
    rw [Resolver.readEnum_eq, Resolver.readEnum_eq, held, translate_translate h distinct scalars]

end EnumDef

/-! ## Compiled enumerations -/

section

variable {n : Nat} {r : Registry n} {id : Fin n} {given : List Value} {type : Value} {name : String}

/-- An enumeration with values is added under a new and legal name only. -/
theorem compileEnum_adds (nonempty : given ≠ []) {result : String} {r' : Registry n}
    (h : (Compiling.compileEnum id given type name).run r = .ok (result, r')) :
    result = name ∧
      (r' = r ∨ name ∉ reservedTypeNames ∧ Keyed.find? name r.sources = none) := by
  simp only [Compiling.compileEnum, List.isEmpty_iff, nonempty, if_false, Compiling.bind_eq_ok,
    Compiling.checkReserved_eq_ok, Compiling.isClaimed_eq_ok] at h
  obtain ⟨_, _, ⟨legal, rfl⟩, claimed, _, ⟨hc, rfl⟩, h⟩ := h
  cases claimed with
  | true =>
      obtain ⟨rfl, rfl⟩ := Compiling.pure_eq_ok.mp h
      exact ⟨rfl, Or.inl rfl⟩
  | false =>
      simp only [Bool.false_eq_true, if_false, Compiling.bind_eq_ok, Compiling.modify_eq_ok] at h
      obtain ⟨_, _, rfl, h⟩ := h
      exact ⟨(Compiling.pure_eq_ok.mp h).1.symm, Or.inr ⟨legal, Registry.isClaimed_eq_false hc⟩⟩

/-- Whatever was compiled before, an enumeration of scalars without NaN is added only under a new
name that is not reserved, and under such a name it is added, with each raw value in its place. A
resolver can always be made for it, and puts in the place of each raw value the value of its name. -/
theorem compileEnum_divides (nonempty : given ≠ [])
    (scalars : ∀ v ∈ given, v.isScalar = true ∧ v.isNaN = false) :
    (∀ result r', (Compiling.compileEnum id given type name).run r = .ok (result, r') →
      result = name ∧
        (r' = r ∨ name ∉ reservedTypeNames ∧ Keyed.find? name r.sources = none)) ∧
    (name ∉ reservedTypeNames → Keyed.find? name r.sources = none →
      ∃ e r', (Compiling.compileEnum id given type name).run r = .ok (name, r') ∧
        Keyed.find? name r'.api.enums = some e ∧ e.Divides given ∧
        ∃ ts, Resolver.substitutions e = .ok ts ∧ e.Replaces given ts) := by
  refine ⟨fun _ _ => compileEnum_adds nonempty, fun legal fresh => ?_⟩
  have collects := EnumDef.collects_ofValues name given
  have distinct := EnumDef.ofValues_distinct name given
  refine ⟨.ofValues name given, _, Compiling.compileEnum_fresh nonempty legal fresh, ?_,
    EnumDef.ofValues_divides name given, _, EnumDef.substitutions_eq distinct collects.aliased,
    EnumDef.replaces_replacements collects distinct scalars⟩
  show Keyed.find? name (Keyed.insert (EnumDef.ofValues name given).name _ _) = _
  rw [EnumDef.ofValues_name, Keyed.find?_insert, if_pos rfl]

end

/-- Values that are equal, or have one name, in pairs. -/
def mixedValues : List Value :=
  [.bool true, .int 1, .str "_true", .double (.zero false), .double (.zero true), .null,
    .str "a-b", .str "a_b", .str "a-b"]

theorem mixedValues_divide : mixedValues ≠ [] ∧
    (∀ v ∈ mixedValues, v.isScalar = true ∧ v.isNaN = false) ∧
    ∃ e r', (Compiling.compileEnum 0 mixedValues .null "PersonState").run ({} : Registry 1)
        = .ok ("PersonState", r') ∧
      Keyed.find? "PersonState" r'.api.enums = some e ∧ e.Divides mixedValues ∧
      ∃ ts, Resolver.substitutions e = .ok ts ∧ e.Replaces mixedValues ts := by
  have nonempty : mixedValues ≠ [] := List.cons_ne_nil _ _
  have scalars : ∀ v ∈ mixedValues, v.isScalar = true ∧ v.isNaN = false := by decide
  exact ⟨nonempty, scalars, (compileEnum_divides nonempty scalars).2 (by decide) rfl⟩

end ResourceGraph
