import ResourceGraph.Proofs.Api.Image
import ResourceGraph.Proofs.Schema.Likeness

/-!
# What the collision detector lets through

A name that was claimed with one node is accepted for an equal one. Equality takes `1` for `true`,
does not see the order of properties, and compares what a node contains but not that the node closes
a cycle. A definition depends on all three, so nodes that are equal may still have different
definitions. When they have the same one can be told from the nodes.
-/

namespace ResourceGraph

variable {n : Nat}

/-! ## The same definition -/

/-- The same raw value: equal and of one kind. -/
def Value.Alike (v w : Value) : Prop := v = w ∨ v.looseEq w = true ∧ v.sameKind w = true

namespace EnumDef

/-- The raw values that a name stands for, aliases last. -/
def rawValues (e : EnumDef) (name : String) : List Value :=
  ((e.values ++ e.aliases).filter (·.name = name)).map (·.value)

/-- The same names stand for the same raw values. -/
def Same (e e' : EnumDef) : Prop :=
  ∀ name, List.Forall₂ Value.Alike (e.rawValues name) (e'.rawValues name)

/-- A value that repeats a name goes behind the values of that name. -/
theorem rawValues_addValue {e : EnumDef}
    (aliased : ∀ a ∈ e.aliases, e.values.any (·.name == a.name) = true) (v : Value) :
    (∀ a ∈ (e.addValue v).aliases, (e.addValue v).values.any (·.name == a.name) = true) ∧
      ∀ name, (e.addValue v).rawValues name
        = e.rawValues name ++ [v].filter (enumValueName · = name) := by
  unfold addValue
  dsimp only
  split
  · rename_i repeated
    refine ⟨?_, fun name => ?_⟩
    · simp only [List.mem_append, List.mem_singleton]
      rintro a (ha | rfl)
      · exact aliased a ha
      · exact repeated
    · by_cases hv : enumValueName v = name <;> simp [rawValues, hv]
  · rename_i new
    refine ⟨fun a ha => ?_, fun name => ?_⟩
    · rw [List.any_append, aliased a ha, Bool.true_or]
    · by_cases hv : enumValueName v = name
      · -- a name that is new has no aliases that would come before the value
        have unaliased : e.aliases.filter (·.name = name) = [] := by
          refine List.filter_eq_nil_iff.mpr fun a ha he => new ?_
          rw [hv, ← of_decide_eq_true he]
          exact aliased a ha
        simp [rawValues, hv, unaliased]
      · simp [rawValues, hv]

/-- In a generated enumeration a name stands for the raw values that ask for it, in order. -/
theorem rawValues_ofValues (name valueName : String) (values : List Value) :
    (ofValues name values).rawValues valueName = values.filter (enumValueName · = valueName) := by
  have collected (e : EnumDef)
      (aliased : ∀ a ∈ e.aliases, e.values.any (·.name == a.name) = true) :
      (values.foldl addValue e).rawValues valueName
        = e.rawValues valueName ++ values.filter (enumValueName · = valueName) := by
    induction values generalizing e with
    | nil => simp
    | cons v rest ih =>
        obtain ⟨aliased, added⟩ := rawValues_addValue aliased v
        rw [List.foldl_cons, ih _ aliased, added, List.append_assoc, ← List.filter_append]
        rfl
  exact collected { name := name, values := [] } (by simp)

theorem same_ofValues_iff (name : String) (values values' : List Value) :
    (ofValues name values).Same (ofValues name values') ↔
      ∀ valueName, List.Forall₂ Value.Alike (values.filter (enumValueName · = valueName))
        (values'.filter (enumValueName · = valueName)) := by
  simp only [Same, rawValues_ofValues]

end EnumDef

/-- The same fields, in whatever order. -/
def TypeDef.Same (d d' : TypeDef) : Prop := ∀ f, f ∈ d.fields ↔ f ∈ d'.fields

/-- The name has the same definition in both, or none. -/
def Registry.SameDefinition (name : String) (r r' : Registry n) : Prop :=
  Option.Rel EnumDef.Same (Keyed.find? name r.api.enums) (Keyed.find? name r'.api.enums) ∧
    Option.Rel TypeDef.Same (Keyed.find? name r.api.types) (Keyed.find? name r'.api.types)

/-! ## Fresh contexts -/

/-- The names of a resource that is the only one. -/
def ResourceNames.lone (typeName : String) : ResourceNames :=
  { singular := "", typeName := typeName, listField := "a", singleField := "b" }

theorem ResourceNames.lone_free {typeName : String} (legal : typeName ∉ reservedTypeNames) :
    (lone typeName).conflict? {} = none := by
  simp [conflict?, lone, legal, Api.hasQueryField, reservedQueryFields]

/-- An enumeration under a new name is added with the values that it is made from. -/
theorem Compiling.compileEnum_fresh {r : Registry n} {id : Fin n} {values : List Value}
    {type : Value} {name : String} (nonempty : values ≠ []) (legal : name ∉ reservedTypeNames)
    (fresh : Keyed.find? name r.sources = none) :
    (Compiling.compileEnum id values type name).run r = .ok (name,
      (r.claim name "enum" (.node (.enumeration id values type))).addEnum
        (EnumDef.ofValues name values)) := by
  have unclaimed : r.isClaimed name "enum" (.node (.enumeration id values type)) = .ok false := by
    rw [Registry.isClaimed, fresh]
  simp only [Compiling.compileEnum, List.isEmpty_iff, nonempty, if_false, Compiling.bind_eq_ok,
    Compiling.checkReserved_eq_ok, Compiling.isClaimed_eq_ok]
  exact ⟨(), r, ⟨legal, rfl⟩, false, r, ⟨unclaimed, rfl⟩, rfl⟩

namespace NodeTable

/-- The node compiles under the name where nothing else has been compiled. -/
def Compiles (t : NodeTable n) (name : String) (x : Node n) : Prop :=
  ∃ result, ∃ r : Registry n, (Compiling.compileType t [] x name).run {} = .ok (result, r)

/-- In fresh contexts the nodes have the same definition under the name. -/
def Agree (t : NodeTable n) (name : String) (x y : Node n) : Prop :=
  ∃ result r result' r', (Compiling.compileType t [] x name).run {} = .ok (result, r) ∧
    (Compiling.compileType t [] y name).run {} = .ok (result', r') ∧ r.SameDefinition name r'

theorem agree_iff {t : NodeTable n} {name : String} {x y : Node n} : t.Agree name x y ↔
    t.Compiles name x ∧ t.Compiles name y ∧ ∀ result r result' r',
      (Compiling.compileType t [] x name).run {} = .ok (result, r) →
      (Compiling.compileType t [] y name).run {} = .ok (result', r') →
        r.SameDefinition name r' := by
  constructor
  · rintro ⟨result, r, result', r', hx, hy, same⟩
    refine ⟨⟨result, r, hx⟩, ⟨result', r', hy⟩, fun _ _ _ _ hx' hy' => ?_⟩
    cases hx.symm.trans hx'
    cases hy.symm.trans hy'
    exact same
  · rintro ⟨⟨result, r, hx⟩, ⟨result', r', hy⟩, same⟩
    exact ⟨result, r, result', r', hx, hy, same _ _ _ _ hx hy⟩

variable {g : RawGraph} {t : NodeTable g.size}

/-- The fields of an object that is compiled in a fresh context, and no enumeration beside them. -/
theorem fresh_object (ht : t.Sound []) {key : ObjectKey g.size}
    {properties : List (String × Node g.size)} {required : List String}
    {additional : Option (Node g.size)} {other : Value} {name result : String}
    {r : Registry g.size} (yields : t.Yields (.object key properties required additional other))
    (h : (Compiling.compileType t [] (.object key properties required additional other) name).run {}
      = .ok (result, r)) :
    Keyed.find? name r.api.enums = none ∧ ∃ fields,
      List.Forall₂ (fun p f => t.fieldOf [(key, name)] required name p = .ok f) properties fields ∧
      Keyed.find? name r.api.types
        = some { name := name
                 fields := Compiling.withSomeField (firstsBy Field.name fields) } := by
  rw [Compiling.compileType, resolve_of_concrete (x := .object ..) trivial] at h
  dsimp only at h
  obtain ⟨run, hname, claimed, hs, -⟩ := Compiling.compileObject_run (o := {}) ht yields
    (Assembly.names_root (.lone name)) (by simp [Registry.Claimed]) h
  obtain rfl : name = result := hname.symm
  rw [Compiling.compileObject_eq] at h
  simp only [List.map_nil, List.not_mem_nil, if_false, Compiling.bind_eq_ok,
    Compiling.checkReserved_eq_ok, Compiling.isClaimed_eq_ok] at h
  obtain ⟨_, _, ⟨legal, rfl⟩, seen, _, ⟨hc, rfl⟩, h⟩ := h
  refine ⟨?_, ?_⟩
  · have consistent := (run.consistent ⟨Registry.consistent_empty, by
      rintro names ⟨⟩; exact ResourceNames.lone_free legal⟩).registry
    cases he : Keyed.find? name r.api.enums with
    | none => rfl
    | some e =>
        have enumeration := (consistent.enums name).mp (Keyed.mem_keys_of_find? he)
        exact absurd (enumeration.kind_unique ⟨claimed, hs⟩) (by decide)
  · cases seen with
    | true =>
        obtain ⟨_, he, -⟩ := Registry.isClaimed_eq_true hc
        cases he
    | false =>
        simp only [Bool.false_eq_true, if_false, Compiling.bind_eq_ok, Compiling.modify_eq_ok] at h
        obtain ⟨_, r₁, hr₁, fields, r₂, hf, _, r₃, hr₃, h⟩ := h
        obtain ⟨-, rfl⟩ := Compiling.pure_eq_ok.mp h
        have opened : r₁.Claimed [(key, name)] := by
          subst hr₁
          simp only [Registry.Claimed, List.mem_singleton, forall_eq]
          exact ⟨_, _, _, _, Registry.find?_claim ..⟩
        obtain ⟨-, fs, rfl, image⟩ :
            Assembly.Run g {} ⟨t, none, [(key, name)], r₁⟩ ⟨t, none, [(key, name)], r₂⟩ ∧ _ :=
          (Compiling.compileObject_runs ht [(key, name)]).fields ht (yields.settled ht).property
            opened hf
        refine ⟨fs, image.imp fun _ _ h => h.1, ?_⟩
        rw [← hr₃, appendField_eq, foldl_appendNew_nil, Registry.addType_output rfl]
        exact (Keyed.find?_insert ..).trans (if_pos rfl)

theorem compiles_enumeration {id : Fin g.size} {values : List Value} {type : Value} {name : String}
    (legal : name ∉ reservedTypeNames) : t.Compiles name (.enumeration id values type) := by
  unfold Compiles
  rw [Compiling.compileType, resolve_of_concrete (x := .enumeration ..) trivial]
  cases values with
  | nil => exact ⟨_, _, rfl⟩
  | cons v values => exact ⟨_, _, Compiling.compileEnum_fresh (List.cons_ne_nil v values) legal rfl⟩

/-- The enumeration of a node that is compiled in a fresh context, if it has values. -/
theorem fresh_enumeration {id : Fin g.size} {values : List Value} {type : Value}
    {name result : String} {r : Registry g.size}
    (h : (Compiling.compileType t [] (.enumeration id values type) name).run {}
      = .ok (result, r)) :
    Keyed.find? name r.api.enums
        = (if values = [] then none else some (EnumDef.ofValues name values)) ∧
      Keyed.find? name r.api.types = none := by
  rw [Compiling.compileType, resolve_of_concrete (x := .enumeration ..) trivial] at h
  dsimp only at h
  unfold Compiling.compileEnum at h
  cases values with
  | nil =>
      obtain ⟨-, rfl⟩ := Compiling.pure_eq_ok.mp h
      exact ⟨rfl, rfl⟩
  | cons v values =>
      simp only [List.isEmpty_cons, Bool.false_eq_true, if_false, Compiling.bind_eq_ok,
        Compiling.checkReserved_eq_ok, Compiling.isClaimed_eq_ok] at h
      obtain ⟨_, _, ⟨legal, rfl⟩, seen, _, ⟨hc, rfl⟩, h⟩ := h
      cases seen with
      | true =>
          obtain ⟨_, he, -⟩ := Registry.isClaimed_eq_true hc
          cases he
      | false =>
          simp only [Bool.false_eq_true, if_false, Compiling.bind_eq_ok,
            Compiling.modify_eq_ok] at h
          obtain ⟨_, _, rfl, h⟩ := h
          obtain ⟨-, rfl⟩ := Compiling.pure_eq_ok.mp h
          refine ⟨?_, rfl⟩
          rw [if_neg (List.cons_ne_nil v values)]
          show Keyed.find? name (Keyed.insert (EnumDef.ofValues name (v :: values)).name _ _) = _
          rw [EnumDef.ofValues_name, Keyed.find?_insert, if_pos rfl]

/-! ## Fields of similar properties -/

/-- The property leads back to the object of the key. -/
def Closes (t : NodeTable n) (key : ObjectKey n) (p : String × Node n) : Prop :=
  (t.element p.2).bind Node.objectKey? = some key

/-- An element that is no object has its type wherever it stands, and a similar one has the same. -/
theorem reference_similar {t : NodeTable n} {visiting visiting' : Visiting n} {name : String}
    {x y : Option (Node n)} (h : Option.Rel Node.Similar x y)
    (plain : x.bind Node.objectKey? = none) :
    t.reference visiting name x = t.reference visiting' name y ∧
      y.bind Node.objectKey? = none := by
  cases h with
  | none => exact ⟨rfl, rfl⟩
  | @some x _ similar =>
      cases similar with
      | same =>
          cases x with
          | object => cases plain
          | enumeration id values type => cases values <;> exact ⟨rfl, rfl⟩
          | _ => exact ⟨rfl, rfl⟩
      | scalar mapped => exact ⟨mapped, rfl⟩
      | @enumeration _ _ values values' _ _ equal =>
          have empty := equal.empty_iff
          cases values <;> cases values' <;> simp at empty <;> exact ⟨rfl, rfl⟩
      | object => cases plain
      | _ => exact ⟨rfl, rfl⟩

theorem reference_object {t : NodeTable n} {key outer : ObjectKey n} {parent name : String}
    {x : Option (Node n)} (hx : x.bind Node.objectKey? = some key) :
    t.reference [(outer, parent)] name x = .ok (if key = outer then parent else name) := by
  obtain ⟨x, rfl, hx⟩ := Option.bind_eq_some_iff.mp hx
  cases x with
  | object =>
      cases hx
      by_cases h : key = outer
      · simp [reference, h]
      · simp [reference, List.lookup_cons, beq_false_of_ne h, h]
  | _ => cases hx

theorem objectKey?_similar {x y : Option (Node n)} (h : Option.Rel Node.Similar x y)
    {key : ObjectKey n} (hx : x.bind Node.objectKey? = some key) :
    ∃ key', y.bind Node.objectKey? = some key' := by
  cases h with
  | none => cases hx
  | some similar =>
      cases similar with
      | same => exact ⟨key, hx⟩
      | object => exact ⟨_, rfl⟩
      | _ => cases hx

/-- Two similar elements have one type unless just one of them closes a cycle. -/
theorem reference_eq_iff {t : NodeTable n} {key key' : ObjectKey n}
    {parent name type type' : String} {x y : Option (Node n)} (h : Option.Rel Node.Similar x y)
    (hx : t.reference [(key, parent)] name x = .ok type)
    (hy : t.reference [(key', parent)] name y = .ok type') :
    type = type' ↔
      (x.bind Node.objectKey? = some key ↔ y.bind Node.objectKey? = some key') ∨ name = parent := by
  cases hk : x.bind Node.objectKey? with
  | none =>
      obtain ⟨same, hk'⟩ :
          t.reference [(key, parent)] name x = t.reference [(key', parent)] name y ∧ _ :=
        reference_similar h hk
      rw [hx, hy] at same
      simp [Except.ok.inj same, hk']
  | some inner =>
      obtain ⟨inner', hk'⟩ := objectKey?_similar h hk
      rw [reference_object hk, Except.ok.injEq] at hx
      rw [reference_object hk', Except.ok.injEq] at hy
      subst hx hy
      rw [hk', Option.some_inj, Option.some_inj]
      split <;> split <;> simp_all [eq_comm]

theorem fieldOf_eq_iff {t : NodeTable n} (ht : t.Sound []) {key key' : ObjectKey n}
    {required : List String} {parent : String} {p q : String × Node n} {f f' : Field}
    (hp : p.2.All (t.Knows [])) (hq : q.2.All (t.Knows [])) (named : p.1 = q.1)
    (h : p.2.Similar q.2) (hf : t.fieldOf [(key, parent)] required parent p = .ok f)
    (hf' : t.fieldOf [(key', parent)] required parent q = .ok f') :
    f = f' ↔ (t.Closes key p ↔ t.Closes key' q) ∨
      Naming.typeName (t.elementName p) parent = parent := by
  obtain ⟨type, href, rfl⟩ := fieldOf_eq_ok hf
  obtain ⟨type', href', rfl⟩ := fieldOf_eq_ok hf'
  have array := isArray_similar ht hp hq h
  have name : t.elementName q = t.elementName p := by rw [elementName, elementName, array, named]
  rw [name] at href'
  rw [Closes, Closes, ← reference_eq_iff (element_similar ht hp hq h) href href', named, array]
  simp

/-! ## Indistinct nodes -/

/-- Under the name the nodes have one definition. Of enumerations, a name stands for the same raw
values; of objects, the first properties of one field are one property, and if that closes a cycle
in just one of the objects, its type would have the name all the same. -/
def Indistinct (t : NodeTable n) (name : String) : Node n → Node n → Prop
  | .enumeration _ values _, .enumeration _ values' _ =>
    ∀ valueName, List.Forall₂ Value.Alike (values.filter (enumValueName · = valueName))
      (values'.filter (enumValueName · = valueName))
  | .object key properties _ _ _, .object key' properties' _ _ _ =>
    ∀ p ∈ firstsBy (fun p => Naming.sanitizeFieldName p.1) properties,
    ∀ q ∈ firstsBy (fun p => Naming.sanitizeFieldName p.1) properties',
      Naming.sanitizeFieldName p.1 = Naming.sanitizeFieldName q.1 →
        p.1 = q.1 ∧ ((t.Closes key p ↔ t.Closes key' q) ∨
          Naming.typeName (t.elementName p) name = name)
  | _, _ => False

theorem same_fields_iff {fields fields' : List Field}
    (distinct : (fields'.map Field.name).Nodup)
    (names : ∀ s, s ∈ fields.map Field.name ↔ s ∈ fields'.map Field.name) :
    (∀ f, f ∈ fields ↔ f ∈ fields') ↔
      ∀ f ∈ fields, ∀ f' ∈ fields', f.name = f'.name → f = f' := by
  constructor
  · intro same f hf f' hf' he
    exact List.inj_on_of_nodup_map distinct ((same f).mp hf) hf' he
  · intro equal f
    constructor
    · intro hf
      obtain ⟨f', hf', he⟩ := List.mem_map.mp ((names f.name).mp (List.mem_map_of_mem hf))
      exact equal f hf f' hf' he.symm ▸ hf'
    · intro hf'
      obtain ⟨f', hf, he⟩ := List.mem_map.mp ((names f.name).mpr (List.mem_map_of_mem hf'))
      exact equal f' hf f hf' he ▸ hf

theorem names_of_matching {properties properties' : List (String × Node n)}
    (members : Matching properties properties') (s : String) :
    s ∈ properties.map (fun p => Naming.sanitizeFieldName p.1) ↔
      s ∈ properties'.map (fun p => Naming.sanitizeFieldName p.1) := by
  have names (ps : List (String × Node n)) :
      ps.map (fun p => Naming.sanitizeFieldName p.1)
        = (Keyed.keys ps).map Naming.sanitizeFieldName := by
    rw [Keyed.keys, List.map_map]
    rfl
  rw [names, names, List.mem_map, List.mem_map]
  simp only [members.keys]

section Objects

variable {key key' : ObjectKey g.size} {name : String} {required : List String}

theorem fieldOf_named {p : String × Node g.size} {f : Field}
    (hf : t.fieldOf [(key, name)] required name p = .ok f) :
    Naming.sanitizeFieldName p.1 = f.name ∧ f.sourceName = some p.1 := by
  obtain ⟨_, -, rfl⟩ := fieldOf_eq_ok hf
  exact ⟨rfl, rfl⟩

variable {properties properties' : List (String × Node g.size)} {fields fields' : List Field}

theorem firsts_names (members : Matching properties properties')
    (image : List.Forall₂ (fun p f => t.fieldOf [(key, name)] required name p = .ok f)
      properties fields)
    (image' : List.Forall₂ (fun p f => t.fieldOf [(key', name)] required name p = .ok f)
      properties' fields') (s : String) :
    s ∈ (firstsBy Field.name fields).map Field.name ↔
      s ∈ (firstsBy Field.name fields').map Field.name := by
  have named (key : ObjectKey g.size) (p : String × Node g.size) (f : Field)
      (hf : t.fieldOf [(key, name)] required name p = .ok f) := (fieldOf_named hf).1
  rw [mem_keys_firstsBy, mem_keys_firstsBy, ← map_eq_of_forall₂ (named key) image,
    ← map_eq_of_forall₂ (named key') image']
  exact names_of_matching members s

theorem same_firsts_iff (ht : t.Sound [])
    (known : ∀ p ∈ properties, p.2.All (t.Knows []))
    (known' : ∀ p ∈ properties', p.2.All (t.Knows []))
    (members : Matching properties properties')
    (image : List.Forall₂ (fun p f => t.fieldOf [(key, name)] required name p = .ok f)
      properties fields)
    (image' : List.Forall₂ (fun p f => t.fieldOf [(key', name)] required name p = .ok f)
      properties' fields')
    {additional additional' : Option (Node g.size)} {other other' : Value} :
    (∀ f, f ∈ firstsBy Field.name fields ↔ f ∈ firstsBy Field.name fields') ↔
      t.Indistinct name (.object key properties required additional other)
        (.object key' properties' required additional' other') := by
  have named (key : ObjectKey g.size) (p : String × Node g.size) (f : Field)
      (hf : t.fieldOf [(key, name)] required name p = .ok f) := (fieldOf_named hf).1
  have firsts := forall₂_firstsBy (named key) image
  have firsts' := forall₂_firstsBy (named key') image'
  rw [same_fields_iff (nodup_keys_firstsBy fields') (firsts_names members image image')]
  have equal {p q : String × Node g.size} {f f' : Field} (hp : p ∈ properties)
      (hq : q ∈ properties') (he : p.1 = q.1)
      (hf : t.fieldOf [(key, name)] required name p = .ok f)
      (hf' : t.fieldOf [(key', name)] required name q = .ok f') :=
    fieldOf_eq_iff ht (known p hp) (known' q hq) he (members.similar p hp q hq he) hf hf'
  constructor
  · intro same p hp q hq he
    obtain ⟨f, hf, field⟩ := exists_of_forall₂_left firsts hp
    obtain ⟨f', hf', field'⟩ := exists_of_forall₂_left firsts' hq
    have hff : f = f' := same f hf f' hf'
      ((fieldOf_named field).1.symm.trans (he.trans (fieldOf_named field').1))
    have source : p.1 = q.1 := by
      have := (fieldOf_named field).2.symm.trans (hff ▸ (fieldOf_named field').2)
      exact Option.some.inj this
    exact ⟨source, (equal (firstsBy_subset _ hp) (firstsBy_subset _ hq) source field field').mp hff⟩
  · intro same f hf f' hf' he
    obtain ⟨p, hp, field⟩ := exists_of_forall₂_right firsts hf
    obtain ⟨q, hq, field'⟩ := exists_of_forall₂_right firsts' hf'
    obtain ⟨source, closing⟩ := same p hp q hq
      ((fieldOf_named field).1.trans (he.trans (fieldOf_named field').1.symm))
    exact (equal (firstsBy_subset _ hp) (firstsBy_subset _ hq) source field field').mpr closing

/-- Two object types built from equal objects are the same if the objects are indistinct. -/
theorem same_types_iff (ht : t.Sound [])
    (known : ∀ p ∈ properties, p.2.All (t.Knows []))
    (known' : ∀ p ∈ properties', p.2.All (t.Knows []))
    (members : Matching properties properties')
    (image : List.Forall₂ (fun p f => t.fieldOf [(key, name)] required name p = .ok f)
      properties fields)
    (image' : List.Forall₂ (fun p f => t.fieldOf [(key', name)] required name p = .ok f)
      properties' fields')
    {additional additional' : Option (Node g.size)} {other other' : Value} :
    TypeDef.Same { name := name, fields := Compiling.withSomeField (firstsBy Field.name fields) }
        { name := name, fields := Compiling.withSomeField (firstsBy Field.name fields') } ↔
      t.Indistinct name (.object key properties required additional other)
        (.object key' properties' required additional' other') := by
  rw [← same_firsts_iff ht known known' members image image', TypeDef.Same]
  have names := firsts_names members image image'
  generalize firstsBy Field.name fields = firsts at names
  generalize firstsBy Field.name fields' = firsts' at names
  cases firsts with
  | nil =>
      obtain rfl : firsts' = [] := by
        refine List.eq_nil_iff_forall_not_mem.mpr fun f hf => ?_
        exact absurd ((names f.name).mpr (List.mem_map_of_mem hf)) List.not_mem_nil
      simp
  | cons f firsts =>
      cases firsts' with
      | nil => exact absurd ((names f.name).mp (List.mem_cons_self ..)) List.not_mem_nil
      | cons f' firsts' => exact Iff.rfl

end Objects

theorem eq_of_looseEqItems_texts {values values' : List Value}
    (texts : ∀ v ∈ values, ∃ s, v = .str s) (h : Value.looseEqItems values values' = true) :
    values = values' := by
  induction values generalizing values' with
  | nil =>
      rw [Value.looseEqItems, List.isEmpty_iff] at h
      exact h.symm
  | cons v rest ih =>
      obtain ⟨⟨s, rfl⟩, rest_texts⟩ := List.forall_mem_cons.mp texts
      cases values' with
      | nil => simp [Value.looseEqItems] at h
      | cons w rest' =>
          rw [Value.looseEqItems_cons, Bool.and_eq_true] at h
          obtain ⟨head, tail⟩ := h
          cases w with
          | str s' =>
              have same : s = s' := by simpa [Value.innerEq, Value.looseEq, Value.isNaN] using head
              rw [same, ih rest_texts tail]
          | _ => simp [Value.innerEq, Value.looseEq, Value.isNaN] at head

/-- Equal enumerations of texts are indistinct. -/
theorem indistinct_of_texts {name : String} {id id' : Fin g.size} {values values' : List Value}
    {type type' : Value} (texts : ∀ v ∈ values, ∃ s, v = .str s)
    (equal : (Node.enumeration id values type).looseEq (.enumeration id' values' type') = true) :
    t.Indistinct name (.enumeration id values type) (.enumeration id' values' type') := by
  rw [Node.looseEq, Bool.and_eq_true] at equal
  obtain rfl := eq_of_looseEqItems_texts texts equal.1
  exact fun valueName => List.forall₂_same.mpr fun v _ => Or.inl rfl

/-- A name that was claimed with a node and is accepted for another has one definition for both, if
both compile, exactly if the nodes are indistinct. -/
theorem agree_iff_indistinct (ht : t.Sound []) {name : String} {x y : Node g.size}
    (hx : t.Yields x) (hy : t.Yields y) (definable : y.Definable)
    (accepted : x.sameOrEqual y = true) :
    t.Agree name x y ↔ t.Compiles name x ∧ t.Compiles name y ∧ t.Indistinct name x y := by
  rw [agree_iff]
  refine and_congr_right fun ⟨result, r, compiled⟩ =>
    and_congr_right fun ⟨result', r', compiled'⟩ => ?_
  have definitions : r.SameDefinition name r' ↔ t.Indistinct name x y := by
    cases Node.matched_of_same ht hx hy definable accepted with
    | @enumeration _ _ values values' _ _ empty =>
        obtain ⟨enums, types⟩ := fresh_enumeration compiled
        obtain ⟨enums', types'⟩ := fresh_enumeration compiled'
        rw [Registry.SameDefinition, enums, enums', types, types']
        by_cases hv : values = []
        · obtain rfl := empty.mp hv
          simp [hv, Indistinct]
        · rw [if_neg hv, if_neg (mt empty.mpr hv)]
          simp [EnumDef.same_ofValues_iff, Indistinct]
    | object members =>
        obtain ⟨enums, fields, image, types⟩ := fresh_object ht hx compiled
        obtain ⟨enums', fields', image', types'⟩ := fresh_object ht hy compiled'
        have known := (hx.settled ht).property
        have known' := (hy.settled ht).property
        rw [Registry.SameDefinition, enums, enums', types, types', Option.rel_some_some,
          same_types_iff ht known known' members image image']
        exact and_iff_right .none
  rw [← definitions]
  refine ⟨fun h => h _ _ _ _ compiled compiled', fun same _ _ _ _ h h' => ?_⟩
  cases compiled.symm.trans h
  cases compiled'.symm.trans h'
  exact same

end NodeTable

/-- The object that a name was claimed for has the same properties as one that it stands for. -/
theorem Assembly.Faithful.exists_claimed {s : Assembly n} (h : s.Faithful) {typeName : String}
    {key : ObjectKey n} {properties : List (String × Node n)} {required : List String}
    {additional : Option (Node n)} {other : Value}
    (yields : s.table.Yields (.object key properties required additional other))
    (refers : s.registry.Refers "type" (.object key properties required additional other)
      typeName) : ∃ key' properties' additional' other', Keyed.find? typeName s.registry.sources
        = some ("type", .node (.object key' properties' required additional' other')) ∧
      Matching properties' properties := by
  obtain ⟨source, claimed, same⟩ := refers
  cases source with
  | node x =>
      cases Node.matched_of_same h.sound (h.known _ _ _ claimed) yields trivial same with
      | object members => exact ⟨_, _, _, _, claimed, members⟩
  | _ => cases same

/-! ## The detector -/

/-- The tables that readings lead to, one after the other. -/
inductive Parsing.Reached (g : RawGraph) : NodeTable g.size → Prop
  | empty : Reached g .empty
  | run {t t' : NodeTable g.size} {raw : RawValue g.size} {node : Node g.size}
      (before : Reached g t) (read : Parsing.run g raw t = (.ok node, t')) : Reached g t'

theorem Parsing.Reached.sound {g : RawGraph} {t : NodeTable g.size} (h : Reached g t) :
    t.Sound [] := by
  induction h with
  | empty => exact NodeTable.sound_empty []
  | run _ read ih => exact (run_grown ih read).1.sound

/-- The name was claimed with a node that is taken for this one. Its definition is that of this node
exactly if both compile and are indistinct. -/
def Registry.Tells (r : Registry n) (t : NodeTable n) (kind : String) (x : Node n) (name : String) :
    Prop :=
  ∃ z, Keyed.find? name r.sources = some (kind, .node z) ∧ z.sameOrEqual x = true ∧
    (t.Agree name z x ↔ t.Compiles name z ∧ t.Compiles name x ∧ t.Indistinct name z x)

theorem Registry.sameOrEqual_of_accepted {r : Registry n} {name kind : String} {x y : Node n}
    (h : (r.claim name kind (.node x)).isClaimed name kind (.node y) = .ok true) :
    x.sameOrEqual y = true := by
  obtain ⟨source, hs, same⟩ := isClaimed_eq_true h
  rw [find?_claim] at hs
  cases hs
  exact same

theorem Registry.tells_of_refers {g : RawGraph} {t : NodeTable g.size} (ht : t.Sound [])
    {r : Registry g.size} (known : r.Known t) {kind name : String} {x : Node g.size}
    (hx : t.Yields x) (definable : x.Definable) (h : r.Refers kind x name) :
    r.Tells t kind x name := by
  obtain ⟨source, hs, same⟩ := h
  cases source with
  | node z =>
      have hz := known name kind z hs
      exact ⟨z, hs, same, NodeTable.agree_iff_indistinct ht hz hx definable same⟩
  | _ => cases same

/-- What the detector accepts for a name that was claimed with another node has the definition of
that node exactly if the two are indistinct, and so in every API the elements of all properties. -/
theorem accepted_agree_iff (o : CompileOptions) (s : Specs) :
    (∀ {t : NodeTable s.graph.size}, Parsing.Reached s.graph t → ∀ {x y : Node s.graph.size},
      t.Yields x → t.Yields y → y.Definable → ∀ (r : Registry s.graph.size) (kind name : String),
        (r.claim name kind (.node x)).isClaimed name kind (.node y) = .ok true →
          (t.Agree name x y ↔ t.Compiles name x ∧ t.Compiles name y ∧ t.Indistinct name x y)) ∧
    ∀ {api : Api} {log : List LogLine}, compile o s = .ok (api, log) →
      ∃ c, Compilation.addResources o s.specs {} = .ok c ∧ c.registry.api = api ∧
        ∀ p ∈ api.types, (∀ a ∈ api.resources, p.1 ≠ a.connectionType) →
          TypeImage (c.registry.Tells c.table) c.table c.registry p.1 p.2 := by
  constructor
  · intro t ht x y hx hy definable r kind name h
    exact NodeTable.agree_iff_indistinct ht.sound hx hy definable
      (Registry.sameOrEqual_of_accepted h)
  · intro api log h
    obtain ⟨c, hc, rfl, faithful⟩ := Assembly.compile_faithful h
    refine ⟨c, hc, rfl, faithful.typeImage rfl fun kind x name hx definable refers => ?_⟩
    exact Registry.tells_of_refers faithful.sound faithful.known hx definable refers

/-- Two enumerations of one value each. -/
def RawGraph.choices (v w : RawValue 2) : RawGraph where
  size := 2
  objects := #v[[("enum", .arr [v])], [("enum", .arr [w])]]
  nodup := by
    intro i
    match i with
    | 0 => simp [Keyed.keys]
    | 1 => simp [Keyed.keys]

theorem Parsing.run_enumeration {g : RawGraph} {t : NodeTable g.size} {i : Fin g.size}
    {values : List Value} {type : Value} (fresh : t.find? i = none)
    (layout : Layout.ofObject g i = .enumeration values type) :
    run g (.obj i) t
      = (.ok (.enumeration i values type), t.store i (.enumeration i values type)) := by
  show outcome (parse g [] (.obj i)) t = _
  rw [parse, bind_eq_ok]
  refine ⟨t, t, rfl, ?_⟩
  rw [fresh]
  simp only [List.not_mem_nil, dite_false, bind_eq_ok]
  exact ⟨_, t, by rw [layout, parseLayout]; rfl, (), _, rfl, rfl⟩

theorem choices_read {v w : RawValue 2} {x y : Value}
    (hv : v.fill ((RawGraph.choices v w).unfoldObject (some ⟨(0 : Fin 2), "enum", 0⟩)) = x)
    (hw : w.fill ((RawGraph.choices v w).unfoldObject (some ⟨(1 : Fin 2), "enum", 0⟩)) = y) :
    ∃ t, Parsing.Reached (.choices v w) t ∧ t.Yields (.enumeration (0 : Fin 2) [x] .null) ∧
      t.Yields (.enumeration (1 : Fin 2) [y] .null) := by
  have layout : Layout.ofObject (.choices v w) (0 : Fin 2) = .enumeration [x] .null :=
    congrArg (fun v => Layout.enumeration [v] .null) hv
  have layout' : Layout.ofObject (.choices v w) (1 : Fin 2) = .enumeration [y] .null :=
    congrArg (fun v => Layout.enumeration [v] .null) hw
  have read := Parsing.run_enumeration (NodeTable.find?_empty _) layout
  obtain ⟨grown, known⟩ := Parsing.run_grown (NodeTable.sound_empty []) read
  have fresh : ((NodeTable.empty (n := 2)).store 0 (.enumeration 0 [x] .null)).find? 1 = none := by
    simp [NodeTable.find?_store]
  have read' := Parsing.run_enumeration fresh layout'
  obtain ⟨grown', known'⟩ := Parsing.run_grown grown.sound read'
  refine ⟨_, .run (.run .empty read) read', ?_, NodeTable.yields_of_known known' trivial⟩
  exact (NodeTable.yields_of_known known trivial).extends grown.sound grown'.keeps

theorem choices_equal {i j : Fin n} {v w : Value} (h : v.looseEq w = true) :
    (Node.enumeration i [v] .null).looseEq (.enumeration j [w] .null) = true := by
  simp [Node.looseEq, Value.innerEq, Value.looseEqItems, Value.looseEq, h]

theorem choices_accepted {i j : Fin n} {v w : Value} (h : v.looseEq w = true)
    (r : Registry n) (name kind : String) :
    (r.claim name kind (.node (.enumeration i [v] .null))).isClaimed name kind
      (.node (.enumeration j [w] .null)) = .ok true := by
  simp [Registry.isClaimed, Registry.find?_claim, Source.same, Node.sameOrEqual, choices_equal h]

/-- Two enumerations of the same text have one definition, and what the elements of the properties
of a person have is told. -/
theorem texts_agree :
    (∃ t : NodeTable 2, t.Yields (.enumeration 0 [.str "x"] .null) ∧
      t.Agree "Letter" (.enumeration 0 [.str "x"] .null) (.enumeration 1 [.str "x"] .null)) ∧
    ∃ c d, Compilation.addResources {} Specs.family.specs {} = .ok c ∧
      Keyed.find? "Person" c.registry.api.types = some d ∧
      TypeImage (c.registry.Tells c.table) c.table c.registry "Person" d := by
  constructor
  · obtain ⟨t, reached, hx, hy⟩ := choices_read (v := .str "x") (w := .str "x") (x := .str "x")
      (y := .str "x") rfl rfl
    have accepted := choices_accepted (n := 2) (i := 0) (j := 1) (v := .str "x") (w := .str "x")
      (by simp [Value.looseEq]) {} "Letter" "enum"
    have told := (accepted_agree_iff {} ⟨.choices (.str "x") (.str "x"), []⟩).1 reached hx hy
      trivial {} "enum" "Letter" accepted
    refine ⟨t, hx, told.mpr ⟨?_, ?_, ?_⟩⟩
    · exact NodeTable.compiles_enumeration (by decide)
    · exact NodeTable.compiles_enumeration (by decide)
    · exact NodeTable.indistinct_of_texts (by simp) (choices_equal (by simp [Value.looseEq]))
  · obtain ⟨api, log, d, h, hd, unpaged⟩ := family_person
    obtain ⟨c, hc, rfl, image⟩ := (accepted_agree_iff {} Specs.family).2 h
    exact ⟨c, d, hc, hd, image ("Person", d) (Keyed.mem_of_find? hd) unpaged⟩

/-- An enumeration of `true` is accepted for one of `1`, and its definition is another. -/
theorem number_accepts_truth : ¬ ∀ {g : RawGraph} {t : NodeTable g.size}, Parsing.Reached g t →
    ∀ {x y : Node g.size}, t.Yields x → t.Yields y → y.Definable →
      ∀ (r : Registry g.size) (kind name : String),
        (r.claim name kind (.node x)).isClaimed name kind (.node y) = .ok true →
          t.Compiles name x → t.Compiles name y → t.Agree name x y := by
  intro sound
  obtain ⟨t, reached, hx, hy⟩ := choices_read (v := .int 1) (w := .bool true) (x := .int 1)
    (y := .bool true) rfl rfl
  have accepted := choices_accepted (n := 2) (i := 0) (j := 1) (v := .int 1) (w := .bool true)
    (by simp [Value.looseEq, Value.numeric?, Value.Numeric.eq]) {} "Flag" "enum"
  obtain ⟨_, _, _, _, compiled, compiled', same, -⟩ :=
    sound reached hx hy trivial {} "enum" "Flag" accepted
      (NodeTable.compiles_enumeration (by decide)) (NodeTable.compiles_enumeration (by decide))
  have enums := (NodeTable.fresh_enumeration compiled).1
  have enums' := (NodeTable.fresh_enumeration compiled').1
  rw [enums, enums', if_neg (by simp), if_neg (by simp), Option.rel_some_some,
    EnumDef.same_ofValues_iff] at same
  have number : enumValueName (.int 1) = "_1" := by cbv
  have other : enumValueName (.bool true) ≠ "_1" := by decide
  have values := same "_1"
  rw [List.filter_cons_of_pos (by simpa using number),
    List.filter_cons_of_neg (by simpa using other)] at values
  cases values

end ResourceGraph
