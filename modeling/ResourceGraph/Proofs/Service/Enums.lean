import ResourceGraph.Proofs.Api.Collisions
import ResourceGraph.Proofs.Api.Representation
import ResourceGraph.Proofs.Service.Answers

/-!
# Answers for raw values of enumerations

A record that holds a declared value of an enumeration is answered with the name of that value. This
fails where the enumeration does not represent the value, since a value before it is equal or since
its name stands for null, and where the property has no name and the enumeration has aliases.
-/

namespace ResourceGraph

open Query Execution

variable {n : Nat} {σ ε : Type} [Exceptions ε]

/-- A record that holds a value in a property, or holds it in a list if the field is one, is
answered with a name in its place, and no error is reported there. -/
def Service.Shows [GraphQL] (s : Service σ) (type : String) (f : Field) (property : String)
    (v : Value) (name : String) : Prop :=
  if f.isList = true then
    ∀ members items (i : Nat), (Value.obj members).get property = .arr items →
      items[i]? = some v →
      GraphQL.Answers s.types s.resolver? type f.name (.obj members) fun selection path result =>
        ∃ answers, result.value = .ok (some (.arr answers)) ∧ answers[i]? = some (.str name) ∧
          ∀ err ∈ result.errors, err.path ≠ path ++ [.key (GraphQL.key selection), .index i]
  else
    ∀ members, (Value.obj members).get property = v →
      GraphQL.Answers s.types s.resolver? type f.name (.obj members) fun _ _ result =>
        result = ⟨.ok (some (.str name)), []⟩

/-- A field can be selected, so it is answered in one way only. -/
theorem GraphQL.Answers.both [GraphQL] [Nonempty σ] {t : TypeSystem} {resolver? : FieldResolvers σ}
    {type field : String} {record : Value} {P Q : Selection → List PathStep → FieldResult → Prop}
    (h : Answers t resolver? type field record P) (h' : Answers t resolver? type field record Q) :
    ∃ selection path result, P selection path result ∧ Q selection path result := by
  obtain ⟨store⟩ := (inferInstance : Nonempty σ)
  obtain ⟨result, answer, hP⟩ := h (select field) [] store (fieldName_select field)
  obtain ⟨result', answer', hQ⟩ := h' (select field) [] store (fieldName_select field)
  obtain rfl := (Prod.mk.inj (answer.symm.trans answer')).1
  exact ⟨_, _, _, hP, hQ⟩

theorem GraphQL.Answers.imp [GraphQL] {t : TypeSystem} {resolver? : FieldResolvers σ}
    {type field : String} {record : Value} {P Q : Selection → List PathStep → FieldResult → Prop}
    (h : Answers t resolver? type field record P)
    (sub : ∀ selection path result, P selection path result → Q selection path result) :
    Answers t resolver? type field record Q := by
  intro selection path store named
  obtain ⟨result, answer, hP⟩ := h selection path store named
  exact ⟨result, answer, sub _ _ _ hP⟩

namespace Registry.Finished

variable {naming : Naming} {r : Registry n} {s : Service σ} {ps : Keyed.Entries Pagination}
  {store : Store σ ε} {p : String × TypeDef} {f : Field} {e : EnumDef}

section

variable [GraphQL] (serializes : GraphQL.SerializesEnums) [Nonempty σ] (h : r.Finished naming)
  (serves : s.Serves r.api ps store) (hp : p ∈ r.api.types) (hf : f ∈ p.2.fields)
include serializes h serves hp hf

/-- What is no list is not answered by a list. -/
theorem not_answers_list (list : f.isList = true) (lenient : f.isItemOptional = true)
    {members others : List (String × Value)}
    (read : ∀ st, (r.api.resolvers ps).answer store p.1 f (.obj members) [] st
      = (.ok (.obj others), st)) {P : List Value → GraphQL.Selection → List PathStep →
      FieldResult → Prop} :
    ¬ GraphQL.Answers s.types s.resolver? p.1 f.name (.obj members) fun selection path result =>
      ∃ answers, result.value = .ok (some (.arr answers)) ∧ P answers selection path result := by
  have ref : f.output.type = .orNull f.isOptional (.list (.named f.typeName)) := by
    rw [Field.output, Field.typeRef, list, lenient]
    rfl
  intro answers
  obtain ⟨_, _, result, ⟨items, listed, -⟩, unlisted⟩ :=
    answers.both (serializes.noItems (h.gives serves hp hf read) ref)
  exact unlisted items listed

variable (he : Keyed.find? f.typeName r.api.enums = some e)
include he

/-- A field of one value is answered with the name that the value read for it has. -/
theorem answers_single_iff (single : f.isList = false) {members : List (String × Value)} {w : Value}
    (read : ∀ st, (r.api.resolvers ps).answer store p.1 f (.obj members) [] st = (.ok w, st))
    (name : String) :
    (GraphQL.Answers s.types s.resolver? p.1 f.name (.obj members) fun _ _ result =>
        result = ⟨.ok (some (.str name)), []⟩)
      ↔ nameOf? (e.values.map EnumValue.member) w = some name := by
  have ref : f.output.type = .orNull f.isOptional (.named f.typeName) := by
    rw [Field.output, Field.typeRef, single]
    rfl
  have shown := serializes.value (h.gives serves hp hf read) ref
    (serves.enums _ (Keyed.mem_of_find? he))
  constructor
  · intro answers
    obtain ⟨_, _, result, rfl, shows⟩ := answers.both shown
    cases named : nameOf? (e.values.map EnumValue.member) w with
    | none =>
        rw [named] at shows
        exact absurd rfl (shows name)
    | some other =>
        rw [named] at shows
        cases shows
        rfl
  · intro named
    refine shown.imp fun _ _ result shows => ?_
    rw [named] at shows
    exact shows

/-- An item of a list is answered with the name that the value read for it has. -/
theorem answers_item_iff (list : f.isList = true) (lenient : f.isItemOptional = true)
    {members : List (String × Value)} {ws : List Value} {w : Value} {i : Nat}
    (item : ws[i]? = some w)
    (read : ∀ st, (r.api.resolvers ps).answer store p.1 f (.obj members) [] st = (.ok (.arr ws), st))
    (name : String) :
    (GraphQL.Answers s.types s.resolver? p.1 f.name (.obj members) fun selection path result =>
        ∃ answers, result.value = .ok (some (.arr answers)) ∧ answers[i]? = some (.str name) ∧
          ∀ err ∈ result.errors, err.path ≠ path ++ [.key (GraphQL.key selection), .index i])
      ↔ nameOf? (e.values.map EnumValue.member) w = some name := by
  have ref : f.output.type = .orNull f.isOptional (.list (.named f.typeName)) := by
    rw [Field.output, Field.typeRef, list, lenient]
    rfl
  have shown := serializes.items (h.gives serves hp hf read) ref
    (serves.enums _ (Keyed.mem_of_find? he))
  have named : (ws.map (nameOf? (e.values.map EnumValue.member)))[i]?
      = some (nameOf? (e.values.map EnumValue.member) w) := by
    rw [List.getElem?_map, item]
    rfl
  constructor
  · intro answers
    obtain ⟨_, _, result, ⟨items, listed, answer, -⟩, shows, -⟩ := answers.both shown
    cases listed.symm.trans shows
    rw [List.getElem?_map, named] at answer
    cases other : nameOf? (e.values.map EnumValue.member) w with
    | none => rw [other] at answer; cases answer
    | some other' =>
        rw [other] at answer
        cases answer
        rfl
  · intro own
    rw [own] at named
    refine shown.imp fun selection path result both => ⟨_, both.1, ?_, ?_⟩
    · rw [List.getElem?_map, named]
      rfl
    · intro err herr same
      obtain ⟨j, none, path'⟩ := both.2 err herr
      rw [path', List.append_assoc] at same
      obtain rfl : j = i := by simpa using List.append_cancel_left same
      cases named.symm.trans none

end

/-! ## What is read -/

theorem translate_eq (he : Keyed.find? f.typeName r.api.enums = some e) (v : Value) :
    r.api.translate f v = e.translate v := by
  rw [Api.translate, he]
  dsimp only
  split
  · rename_i unaliased
    have same : Resolver.substitute e.replacements = id := by
      rw [EnumDef.replacements, List.isEmpty_iff.mp unaliased]
      rfl
    cases v <;> simp [EnumDef.translate, same]
  · rfl

theorem translate_scalar {v : Value} (scalar : v.isScalar = true) :
    e.translate v = Resolver.substitute e.replacements v := by
  cases v <;> first | rfl | cases scalar

/-- An object is no alias of a scalar. -/
theorem translate_obj {given : List Value} (collects : e.Collects given)
    (scalars : ∀ v ∈ given, v.isScalar = true) (members : List (String × Value)) :
    e.translate (.obj members) = .obj members := by
  show Resolver.substitute e.replacements (.obj members) = _
  rcases e.substitute_eq (.obj members) with ⟨a, ha, -, loose, -⟩ | ⟨-, kept⟩
  · have scalar := scalars _ (collects.own (List.mem_append_right _ ha)).2
    generalize a.value = w at scalar loose
    cases w with
    | arr _ => cases scalar
    | obj _ => cases scalar
    | _ => cases loose
  · exact kept

/-- An object has no name in an enumeration of scalars. -/
theorem nameOf?_obj {given : List Value} (collects : e.Collects given)
    (scalars : ∀ v ∈ given, v.isScalar = true) (members : List (String × Value)) :
    nameOf? (e.values.map EnumValue.member) (.obj members) = none := by
  have missed : (e.values.map EnumValue.member).find? (·.internal.innerEq (.obj members)) = none := by
    refine List.find?_eq_none.mpr fun m hm equal => ?_
    obtain ⟨u, hu, rfl⟩ := List.mem_map.mp hm
    have scalar : u.member.internal.isScalar = true := by
      by_cases null : u.value = .null
      · rw [EnumMember.internal, EnumValue.member, null]
        rfl
      · rw [EnumDef.internal_of_ne_null null]
        exact collects.isScalar scalars hu
    cases (Value.equal_of_innerEq scalar equal).isScalar.2
  rw [nameOf?, missed]
  rfl

/-! ## Declared values -/

/-- A field of an enumeration shows the name of a declared value exactly if the enumeration
represents it and the property of the field is read. -/
theorem shows_iff [GraphQL] (serializes : GraphQL.SerializesEnums) [Nonempty σ]
    (h : r.Finished naming) (serves : s.Serves r.api ps store)
    (hp : p ∈ r.api.types) (hf : f ∈ p.2.fields)
    (he : Keyed.find? f.typeName r.api.enums = some e) (lenient : f.isItemOptional = true)
    {property : String} (source : f.sourceName = some property) {given : List Value}
    (collects : e.Collects given) (scalars : ∀ v ∈ given, v.isScalar = true) {v : Value}
    (some : v ≠ .null) (declared : ∃ d ∈ given, Value.Equal d v) :
    s.Shows p.1 f property v (enumValueName v) ↔
      ¬ (property = "" ∧ e.aliases ≠ []) ∧ e.Represents v := by
  have distinct := h.consistent.wellFormed.distinctValues _ (Keyed.mem_of_find? he)
  have scalar : v.isScalar = true := by
    obtain ⟨d, -, equal⟩ := declared
    exact equal.isScalar.2
  have answered := EnumDef.nameOf?_substitute_iff collects distinct scalars some declared
  by_cases unnamed : property = "" ∧ e.aliases ≠ []
  · -- the key that is read instead of the empty one may hold an object
    obtain ⟨rfl, aliases⟩ := unnamed
    refine iff_of_false (fun shows => ?_) fun both => both.1 ⟨rfl, aliases⟩
    have read (w : Value) (st : σ) :
        (r.api.resolvers ps).answer store p.1 f (.obj [("", w), ("unknown", .obj [])]) [] st
          = (.ok (.obj []), st) := by
      rw [h.answer_of_unnamed ps hp hf source he aliases]
      exact congrArg (fun w => (Except.ok w, st)) (translate_obj collects scalars [])
    unfold Service.Shows at shows
    cases list : f.isList with
    | false =>
        rw [list, if_neg (by decide)] at shows
        have named := (h.answers_single_iff serializes serves hp hf he list (read v) _).mp
          (shows _ rfl)
        rw [nameOf?_obj collects scalars] at named
        cases named
    | true =>
        rw [list, if_pos rfl] at shows
        exact h.not_answers_list serializes serves hp hf list lenient (read (.arr [v]))
          (shows _ [v] 0 rfl rfl)
  · have reads := h.reads_of_named ps hp hf source store fun both => unnamed
      ⟨both.1, by
        obtain ⟨e', he', aliases⟩ := both.2
        cases he.symm.trans he'
        exact aliases⟩
    have read (members : List (String × Value)) (st : σ) :
        (r.api.resolvers ps).answer store p.1 f (.obj members) [] st
          = (.ok (e.translate ((Value.obj members).get property)), st) := by
      rw [reads, translate_eq he]
    have held (w : Value) : (Value.obj [(property, w)]).get property = w := by
      simp [Value.get]
    rw [← answered, and_iff_right unnamed]
    unfold Service.Shows
    cases list : f.isList with
    | false =>
        rw [if_neg (by decide), ← translate_scalar scalar]
        constructor
        · intro shows
          have named := (h.answers_single_iff serializes serves hp hf he list (read [(property, v)]) _).mp
            (shows _ (held v))
          rwa [held] at named
        · intro named members holds
          refine (h.answers_single_iff serializes serves hp hf he list (read members) _).mpr ?_
          rw [holds]
          exact named
    | true =>
        rw [if_pos rfl]
        constructor
        · intro shows
          have read := read [(property, .arr [v])]
          rw [held] at read
          exact (h.answers_item_iff serializes serves hp hf he list lenient rfl read _).mp
            (shows _ [v] 0 (held _) rfl)
        · intro named members items i holds item
          have read := read members
          rw [holds] at read
          refine (h.answers_item_iff serializes serves hp hf he list lenient ?_ read _).mpr named
          rw [List.getElem?_map, item]
          rfl

end Registry.Finished

/-! ## Enumerations of equal values -/

namespace Value

theorem isScalar_of_innerEq {v w : Value} (scalar : w.isScalar = true)
    (h : v.innerEq w = true) : v.isScalar = true := by
  cases v with
  | arr _ => cases w <;> first | cases h | cases scalar
  | obj _ => cases w <;> first | cases h | cases scalar
  | knot _ => cases w <;> first | cases h | cases scalar
  | _ => rfl

theorem scalars_of_looseEqItems {vs ws : List Value} (scalars : ∀ w ∈ ws, w.isScalar = true)
    (h : looseEqItems vs ws = true) : ∀ v ∈ vs, v.isScalar = true := by
  induction vs generalizing ws with
  | nil => exact fun _ => nofun
  | cons v vs ih =>
      cases ws with
      | nil => cases h
      | cons w ws =>
          rw [looseEqItems_cons, Bool.and_eq_true] at h
          obtain ⟨hw, scalars⟩ := List.forall_mem_cons.mp scalars
          exact List.forall_mem_cons.mpr ⟨isScalar_of_innerEq hw h.1, ih scalars h.2⟩

theorem forall₂_of_looseEqItems {vs ws : List Value} (scalars : ∀ v ∈ vs, v.isScalar = true)
    (h : looseEqItems vs ws = true) : List.Forall₂ Equal vs ws := by
  induction vs generalizing ws with
  | nil =>
      rw [looseEqItems, List.isEmpty_iff] at h
      subst h
      exact .nil
  | cons v vs ih =>
      cases ws with
      | nil => cases h
      | cons w ws =>
          rw [looseEqItems_cons, Bool.and_eq_true] at h
          obtain ⟨hv, scalars⟩ := List.forall_mem_cons.mp scalars
          exact .cons (equal_of_innerEq hv h.1) (ih scalars h.2)

theorem EqualItems.forall₂ {vs ws : List Value} (h : EqualItems vs ws)
    (scalars : ∀ w ∈ ws, w.isScalar = true) : List.Forall₂ Equal vs ws := by
  rcases h with h | h
  · exact forall₂_of_looseEqItems (scalars_of_looseEqItems scalars h) h
  · exact (forall₂_of_looseEqItems scalars h).flip.imp fun _ _ equal => equal.symm

theorem forall₂_trans {us vs ws : List Value} (h : List.Forall₂ Equal us vs)
    (h' : List.Forall₂ Equal vs ws) : List.Forall₂ Equal us ws := by
  induction h generalizing ws with
  | nil => exact h'
  | cons head _ ih =>
      cases h' with
      | cons head' tail' => exact .cons (head.trans head') (ih tail')

end Value

/-- A similar element is an enumeration of equal values. -/
theorem Node.Similar.enumeration_of {x y : Option (Node n)} (h : Option.Rel Node.Similar x y)
    {id : Fin n} {values : List Value} {type : Value} (hy : y = some (.enumeration id values type))
    (scalars : ∀ v ∈ values, v.isScalar = true) :
    ∃ id' values' type', x = some (.enumeration id' values' type') ∧
      List.Forall₂ Value.Equal values' values := by
  subst hy
  cases h with
  | some similar =>
      cases similar with
      | same =>
          exact ⟨_, _, _, rfl, List.forall₂_same.mpr fun v hv => Value.equal_refl (scalars v hv)⟩
      | enumeration equal => exact ⟨_, _, _, rfl, equal.forall₂ scalars⟩

/-! ## Compiled enumerations -/

namespace Registry.Finished

variable {naming : Naming} {r : Registry n} {t : NodeTable n}

/-- An enumeration that is referred to is made from values that are equal to those of the node. -/
theorem enum_of_refers (h : r.Finished naming) (sound : t.Sound []) (known : r.Known t) {id : Fin n}
    {values : List Value} {type : Value} {name : String}
    (yields : t.Yields (.enumeration id values type))
    (refers : r.Refers "enum" (.enumeration id values type) name)
    (scalars : ∀ v ∈ values, v.isScalar = true) :
    ∃ given, Keyed.find? name r.api.enums = some (EnumDef.ofValues name given) ∧
      List.Forall₂ Value.Equal given values := by
  obtain ⟨source, hs, same⟩ := refers
  obtain ⟨e, he⟩ := Keyed.exists_of_mem_keys ((h.consistent.enums name).mpr ⟨source, hs⟩)
  obtain ⟨id', given, type', hs', -, made⟩ := h.made.enums _ (Keyed.mem_of_find? he)
  cases hs.symm.trans hs'
  have made : e = EnumDef.ofValues name given := made
  refine ⟨given, made ▸ he, ?_⟩
  have claimed : t.Yields (.enumeration id' given type') := known name "enum" _ hs'
  have same : (Node.enumeration id' given type').sameOrEqual (.enumeration id values type) = true :=
    same
  rw [Node.sameOrEqual, Bool.or_eq_true, decide_eq_true_eq] at same
  rcases same with identity | loose
  · cases claimed.eq_of_identity sound yields (by simp [Node.identity]) identity
    exact List.forall₂_same.mpr fun v hv => Value.equal_refl (scalars v hv)
  · rw [Node.looseEq, Bool.and_eq_true] at loose
    exact Value.EqualItems.forall₂ (Or.inl loose.1) scalars

end Registry.Finished

/-- An element whose definition is that of a known node. -/
def Registry.Knows (r : Registry n) (t : NodeTable n) (kind : String) (x : Node n)
    (name : String) : Prop :=
  t.Yields x ∧ r.Refers kind x name

namespace Assembly.Faithful

variable {s : Assembly n} {q : String × TypeDef} {key : ObjectKey n}
  {properties : List (String × Node n)} {required : List String} {additional : Option (Node n)}
  {other : Value}

/-- The type that stands for an object is the image of an object with similar properties. -/
theorem exists_matching (h : s.Faithful) (done : s.root = none) (hq : q ∈ s.registry.api.types)
    (unpaged : ∀ a ∈ s.registry.api.resources, q.1 ≠ a.connectionType)
    (yields : s.table.Yields (.object key properties required additional other))
    (refers : s.registry.Refers "type" (.object key properties required additional other) q.1) :
    ∃ properties', Matching properties' properties ∧
      (∀ p ∈ properties', p.2.All (s.table.Knows [])) ∧
      (properties' ≠ [] → List.Forall₂
        (FieldImage (s.registry.Knows s.table) s.table s.registry required q.1)
        (firstsBy (fun p => Naming.sanitizeFieldName p.1) properties') q.2.fields) := by
  have image : TypeImage (s.registry.Knows s.table) s.table s.registry q.1 q.2 :=
    h.typeImage done (fun _ _ _ hx _ hr => ⟨hx, hr⟩) q hq unpaged
  obtain ⟨key', properties', required', additional', other', claimed', -, image⟩ := image
  obtain ⟨_, _, _, _, claimed, members⟩ := h.exists_claimed yields refers
  cases claimed.symm.trans claimed'
  exact ⟨properties', members, ((h.known _ _ _ claimed).settled h.sound).property, image⟩

/-- Every property of an object has a field, which is its own or that of another property of the
same field name. -/
theorem exists_field (h : s.Faithful) (done : s.root = none) (hq : q ∈ s.registry.api.types)
    (unpaged : ∀ a ∈ s.registry.api.resources, q.1 ≠ a.connectionType)
    (yields : s.table.Yields (.object key properties required additional other))
    (refers : s.registry.Refers "type" (.object key properties required additional other) q.1)
    {p : String × Node n} (hp : p ∈ properties) :
    ∃ f ∈ q.2.fields, f.name = Naming.sanitizeFieldName p.1 ∧
      ∃ p' ∈ properties, Naming.sanitizeFieldName p'.1 = f.name ∧ f.sourceName = some p'.1 := by
  obtain ⟨properties', members, -, image⟩ := h.exists_matching done hq unpaged yields refers
  have named : Naming.sanitizeFieldName p.1
      ∈ (firstsBy (fun p => Naming.sanitizeFieldName p.1) properties').map
        fun p => Naming.sanitizeFieldName p.1 := by
    rw [mem_keys_firstsBy, NodeTable.names_of_matching members]
    exact List.mem_map_of_mem hp
  obtain ⟨p', hp', same⟩ := List.mem_map.mp named
  have mem := firstsBy_subset _ hp'
  obtain ⟨f, hf, field⟩ := exists_of_forall₂_left (image (List.ne_nil_of_mem mem)) hp'
  obtain ⟨p'', hp'', same', -⟩ := members.symm.exists_similar mem
  refine ⟨f, hf, field.name.trans same, p'', hp'', ?_, ?_⟩
  · rw [field.name, same']
  · rw [field.source, same']

/-- The field of a property that has an enumeration. -/
theorem enumeration_field (h : s.Faithful) (done : s.root = none) (hq : q ∈ s.registry.api.types)
    (unpaged : ∀ a ∈ s.registry.api.resources, q.1 ≠ a.connectionType)
    (yields : s.table.Yields (.object key properties required additional other))
    (refers : s.registry.Refers "type" (.object key properties required additional other) q.1)
    {p : String × Node n} (hp : p ∈ properties) {f : Field} (hf : f ∈ q.2.fields)
    (source : f.sourceName = some p.1) {id : Fin n} {values : List Value} {type : Value}
    (element : s.table.element p.2 = some (.enumeration id values type)) (nonempty : values ≠ [])
    (scalars : ∀ v ∈ values, v.isScalar = true) :
    (f.isList = true ↔ ∃ id items, s.table.resolve p.2 = some (.array id items)) ∧
      f.isItemOptional = true ∧ ∃ id' values' type',
        s.registry.Knows s.table "enum" (.enumeration id' values' type') f.typeName ∧
        List.Forall₂ Value.Equal values' values := by
  obtain ⟨properties', members, known', image⟩ := h.exists_matching done hq unpaged yields refers
  obtain ⟨p₀, hp₀, -⟩ := members.exists_similar hp
  obtain ⟨p', hp', field⟩ := exists_of_forall₂_right (image (List.ne_nil_of_mem hp₀)) hf
  have mem := firstsBy_subset _ hp'
  have named : p'.1 = p.1 := Option.some.inj (field.source.symm.trans source)
  have similar := members.similar p' mem p hp named
  have known := (yields.settled h.sound).property p hp
  obtain ⟨id', values', type', element', equal⟩ :=
    Node.Similar.enumeration_of
      (NodeTable.element_similar h.sound (known' p' mem) known similar) element scalars
  refine ⟨?_, field.plain.1, id', values', type', ?_, equal⟩
  · have array := NodeTable.isArray_similar h.sound (known' p' mem) known similar
    rw [field.list, ← NodeTable.isArray_iff, array, NodeTable.isArray_iff]
  · have type := field.type
    rw [element'] at type
    generalize f.typeName = name at type ⊢
    cases type with
    | emptyEnumeration =>
        cases equal
        exact absurd rfl nonempty
    | enumeration some_value named => exact named

end Assembly.Faithful

/-- Whatever the resources are, if a service is built for them then every property of an object has
a field in the type that stands for the object, under its own name or that of another property. A
field of a property that has an enumeration of scalars shows the name of a declared value exactly
if the enumeration represents it and the property is read. -/
theorem built_shows_iff [GraphQL] (builds : GraphQL.BuildsDefinitions)
    (serializes : GraphQL.SerializesEnums) {σ ε : Type} [Nonempty σ] [Exceptions ε] {specs : Specs}
    {store : Store σ ε} {config : ServiceConfig} {naming : Naming} {s : Service σ} {api : Api}
    {log : List LogLine} (h : Service.ofSpecs specs store config naming = .ok (s, api, log)) :
    ∃ c, Compilation.addResources ⟨naming, config.searchDepth⟩ specs.specs {} = .ok c ∧
      c.registry.api = api ∧
      ∀ q ∈ api.types, (∀ a ∈ api.resources, q.1 ≠ a.connectionType) →
        ∀ {key properties required additional other},
        c.table.Yields (.object key properties required additional other) →
        c.registry.Refers "type" (.object key properties required additional other) q.1 →
        ∀ p ∈ properties,
          (∃ f ∈ q.2.fields, f.name = Naming.sanitizeFieldName p.1 ∧ ∃ p' ∈ properties,
            Naming.sanitizeFieldName p'.1 = f.name ∧ f.sourceName = some p'.1) ∧
          ∀ {id values type}, c.table.element p.2 = some (.enumeration id values type) →
            values ≠ [] → (∀ v ∈ values, v.isScalar = true) →
            ∀ f ∈ q.2.fields, f.sourceName = some p.1 →
              (f.isList = true ↔ ∃ id items, c.table.resolve p.2 = some (.array id items)) ∧
              ∃ given e, e = EnumDef.ofValues f.typeName given ∧
                Keyed.find? f.typeName api.enums = some e ∧
                List.Forall₂ Value.Equal given values ∧
                ∀ v ∈ values, v ≠ .null →
                  (s.Shows q.1 f p.1 v (enumValueName v) ↔
                    ¬ (p.1 = "" ∧ e.aliases ≠ []) ∧ e.Represents v) := by
  obtain ⟨compiled, R, hR, built⟩ := Service.ofSpecs_eq_ok h
  obtain ⟨c, hc, rfl, finished⟩ := compile_finished compiled
  obtain ⟨c', hc', -, faithful⟩ := Assembly.compile_faithful compiled
  cases hc.symm.trans hc'
  cases hR.symm.trans (finished.ofApi_eq _)
  have serves := finished.serves built (builds compiled)
  refine ⟨c, hc, rfl, fun q hq unpaged _ _ _ _ _ yields refers p hp => ⟨?_, ?_⟩⟩
  · exact faithful.exists_field rfl hq unpaged yields refers hp
  · intro id values type element nonempty scalars f hf source
    obtain ⟨list, lenient, id', values', type', ⟨yields', refers'⟩, equal⟩ :=
      faithful.enumeration_field rfl hq unpaged yields refers hp hf source element nonempty scalars
    have scalars' : ∀ v ∈ values', v.isScalar = true := by
      intro v hv
      obtain ⟨w, -, hw⟩ := exists_of_forall₂_left equal hv
      exact hw.isScalar.1
    obtain ⟨given, he, equal'⟩ :=
      finished.enum_of_refers faithful.sound faithful.known yields' refers' scalars'
    have equal := Value.forall₂_trans equal' equal
    have collects := EnumDef.collects_ofValues f.typeName given
    have scalars'' : ∀ v ∈ given, v.isScalar = true := by
      intro v hv
      obtain ⟨w, -, hw⟩ := exists_of_forall₂_left equal hv
      exact hw.isScalar.1
    refine ⟨list, given, _, rfl, he, equal, fun v hv nonnull => ?_⟩
    obtain ⟨d, hd, declared⟩ := exists_of_forall₂_right equal hv
    exact finished.shows_iff serializes serves hq hf he lenient source collects scalars'' nonnull
      ⟨d, hd, declared⟩

/-- Persons with a state of the given values. -/
def Specs.withState (values : List (RawValue 3)) : Specs where
  graph :=
    { size := 3
      objects := #v[
        [("type", .str "object"), ("properties", .obj 1)],
        [("state", .obj 2)],
        [("enum", .arr values)]]
      nodup := by
        intro i
        match i with
        | 0 => simp [Keyed.keys]
        | 1 => simp [Keyed.keys]
        | 2 => simp [Keyed.keys] }
  specs := [{ name := "persons", schemas := [("Person", .obj 0)] }]

def Node.withState (values : List Value) : Node 3 :=
  .object (.parsed 0) [("state", .enumeration 2 values .null)] [] none .null

/-- The compiled persons: whether names are proper, the source and the fields of their type, the
enumeration of their state, and the page types. -/
def Compilation.stateParts (c : Compilation n) :=
  (c.registry.api.names.all Naming.isName, Keyed.find? "Person" c.registry.sources,
    (Keyed.find? "Person" c.registry.api.types).map fun d => d.fields.map fun f =>
      (f.sourceName, f.typeName, f.isList, f.isItemOptional),
    Keyed.find? "PersonState" c.registry.api.enums,
    c.registry.api.resources.map Resource.connectionType)

/-- The states are compiled to an enumeration. -/
def Specs.StatesTo (raws : List (RawValue 3)) (values : List Value) (e : EnumDef) : Prop :=
  (Compilation.addResources {} (Specs.withState raws).specs {}).toOption.map Compilation.stateParts
    = some (true, some ("type", .node (.withState values)),
      some [(some "state", "PersonState", false, true)], some e, ["PersonConnection"])

set_option synthInstance.maxSize 1000 in
instance (raws : List (RawValue 3)) (values : List Value) (e : EnumDef) :
    Decidable (Specs.StatesTo raws values e) :=
  decidable_of_iff ((Compilation.addResourcesUpTo {} (Specs.withState raws).specs {}).toOption.map
    Compilation.stateParts
      = some (true, some ("type", .node (.withState values)),
        some [(some "state", "PersonState", false, true)], some e, ["PersonConnection"])) <| by
    rw [Specs.StatesTo, Compilation.addResources_eq_upTo]

theorem aliases_states : Specs.StatesTo [.str "a-b", .str "a_b"] [.str "a-b", .str "a_b"]
    ⟨"PersonState", [⟨"a_b", .str "a-b"⟩], [⟨"a_b", .str "a_b"⟩]⟩ := by
  decide +kernel

theorem blanks_states : Specs.StatesTo [.null, .str "null"] [.null, .str "null"]
    ⟨"PersonState", [⟨"_null", .null⟩], [⟨"_null", .str "null"⟩]⟩ := by
  decide +kernel

/-- A service of persons with states, the field of the state, and where it comes from. -/
structure Specs.Stateful (raws : List (RawValue 3)) (values : List Value) (e : EnumDef)
    (s : Service CannedStore) (api : Api) (log : List LogLine) (c : Compilation 3) (d : TypeDef)
    (f : Field) : Prop where
  built : Service.ofSpecs (.withState raws) CannedStore.store {} .english = .ok (s, api, log)
  compiled : Compilation.addResources {} (Specs.withState raws).specs {} = .ok c
  person : ("Person", d) ∈ c.registry.api.types
  unpaged : ∀ a ∈ c.registry.api.resources, "Person" ≠ a.connectionType
  field : f ∈ d.fields
  source : f.sourceName = some "state"
  type : f.typeName = "PersonState"
  single : f.isList = false
  lenient : f.isItemOptional = true
  enum : Keyed.find? "PersonState" c.registry.api.enums = some e
  yields : c.table.Yields (.withState values)
  refers : c.registry.Refers "type" (.withState values) "Person"
  names : c.registry.api = api

theorem Specs.StatesTo.stateful {raws : List (RawValue 3)} {values : List Value} {e : EnumDef}
    (h : Specs.StatesTo raws values e) :
    ∃ s api log c d f, Specs.Stateful raws values e s api log c d f := by
  unfold StatesTo at h
  cases hc : Compilation.addResources {} (Specs.withState raws).specs {} with
  | error e =>
      rw [hc] at h
      cases h
  | ok c =>
      rw [hc] at h
      simp only [Except.toOption, Option.map_some, Option.some.injEq, Compilation.stateParts,
        Prod.mk.injEq, Option.map_eq_some_iff, List.all_eq_true] at h
      obtain ⟨named, source, ⟨d, hd, fields⟩, enum, resources⟩ := h
      obtain ⟨f, rest, hf, one⟩ := List.map_eq_cons_iff.mp fields
      simp only [Prod.mk.injEq] at one
      obtain ⟨⟨hsource, htype, hsingle, hlenient⟩, -⟩ := one
      obtain ⟨a, tail, ha, unpaged⟩ := List.map_eq_cons_iff.mp resources
      obtain ⟨connection, rest'⟩ := unpaged
      have last : tail = [] := List.map_eq_nil_iff.mp rest'
      let config : ServiceConfig := {}
      have compiled : compile ⟨.english, config.searchDepth⟩ (Specs.withState raws)
          = .ok (c.registry.api, c.log ++ c.registry.api.summary 1) := by
        rw [compile, hc]
        rfl
      obtain ⟨service, built⟩ :=
        (Service.exists_ofSpecs_iff compiled CannedStore.store).mpr named
      obtain ⟨c', hc', -, faithful⟩ := Assembly.compile_faithful compiled
      cases hc.symm.trans hc'
      exact ⟨service, c.registry.api, c.log ++ c.registry.api.summary 1, c, d, f, {
        built := built
        compiled := hc
        person := Keyed.mem_of_find? hd
        unpaged := by
          intro b hb
          rw [ha, last] at hb
          cases List.mem_singleton.mp hb
          rw [connection]
          decide
        field := hf ▸ List.mem_cons_self
        source := hsource
        type := htype
        single := hsingle
        lenient := hlenient
        enum := enum
        yields := faithful.known _ _ _ source
        refers := ⟨_, source, by simp [Source.same, Node.sameOrEqual]⟩
        names := rfl }⟩

/-- Both raw values of one name are shown as the name. -/
theorem aliases_shown : ∃ s api log d f,
    Service.ofSpecs (.withState [.str "a-b", .str "a_b"]) CannedStore.store {} .english
      = .ok (s, api, log) ∧
    ("Person", d) ∈ api.types ∧ f ∈ d.fields ∧ f.sourceName = some "state" ∧
    s.Shows "Person" f "state" (.str "a-b") "a_b" ∧
    s.Shows "Person" f "state" (.str "a_b") "a_b" := by
  obtain ⟨s, _, log, c, d, f, h⟩ := aliases_states.stateful
  cases h.names
  have : Nonempty CannedStore := ⟨{}⟩
  obtain ⟨c', hc', -, shows⟩ :=
    built_shows_iff GraphQL.buildsDefinitions GraphQL.serializesEnums h.built
  cases h.compiled.symm.trans hc'
  obtain ⟨-, state⟩ := shows _ h.person h.unpaged h.yields h.refers _ (List.mem_singleton_self _)
  have element : c.table.element (.enumeration 2 [.str "a-b", .str "a_b"] .null)
      = some (.enumeration 2 [.str "a-b", .str "a_b"] .null) := rfl
  obtain ⟨-, given, e, made, he, -, names⟩ :=
    state element (List.cons_ne_nil _ _) (by decide) f h.field h.source
  rw [h.type, h.enum] at he
  cases he
  have first : enumValueName (.str "a-b") = "a_b" := by decide
  have second : enumValueName (.str "a_b") = "a_b" := by decide
  have named : ¬ ("state" = "" ∧ [EnumValue.mk "a_b" (.str "a_b")] ≠ []) := by decide
  refine ⟨s, _, log, d, f, h.built, h.person, h.field, h.source, ?_, ?_⟩
  · have shown := (names (.str "a-b") (List.mem_cons_self ..) nofun).mpr ⟨named, [], .str "a-b",
      [], by rw [first]; rfl, nofun, .inl (by decide), nofun⟩
    rwa [first] at shown
  · have shown := (names (.str "a_b") (List.mem_cons_of_mem _ (List.mem_cons_self ..)) nofun).mpr
      ⟨named, [], .str "a-b", [], by rw [second]; rfl, nofun,
        .inr ⟨.str "a_b", by rw [second]; exact List.mem_cons_self .., by decide, by decide⟩, nofun⟩
    rwa [second] at shown

/-- The text `null` is not shown by its name if null has the name too. -/
theorem blank_not_shown : ∃ s api log d f,
    Service.ofSpecs (.withState [.null, .str "null"]) CannedStore.store {} .english
      = .ok (s, api, log) ∧
    ("Person", d) ∈ api.types ∧ f ∈ d.fields ∧ f.sourceName = some "state" ∧
    ¬ s.Shows "Person" f "state" (.str "null") (enumValueName (.str "null")) := by
  obtain ⟨s, _, log, c, d, f, h⟩ := blanks_states.stateful
  cases h.names
  have : Nonempty CannedStore := ⟨{}⟩
  obtain ⟨compiled, R, hR, built⟩ := Service.ofSpecs_eq_ok h.built
  obtain ⟨c', hc', api, finished⟩ := compile_finished compiled
  cases h.compiled.symm.trans hc'
  cases hR.symm.trans (finished.ofApi_eq _)
  have collects : (⟨"PersonState", [⟨"_null", .null⟩], [⟨"_null", .str "null"⟩]⟩ : EnumDef).Collects
      [.null, .str "null"] := EnumDef.collects_ofValues "PersonState" [.null, .str "null"]
  have scalars : ∀ v ∈ [.null, .str "null"], Value.isScalar v = true := by decide
  have enum := (congrArg (Keyed.find? · c.registry.api.enums) h.type).trans h.enum
  refine ⟨s, _, log, d, f, h.built, h.person, h.field, h.source, fun shows => ?_⟩
  have serves := finished.serves built (GraphQL.buildsDefinitions compiled)
  have iff := finished.shows_iff GraphQL.serializesEnums serves h.person h.field enum h.lenient h.source
    collects scalars (v := .str "null") nofun
    ⟨.str "null", List.mem_cons_of_mem _ (List.mem_cons_self ..), .str _⟩
  obtain ⟨-, before, raw, after, split, some, -⟩ := iff.mp shows
  rcases before with _ | ⟨u, before⟩
  · cases split
    exact some rfl
  · have tail := (List.cons.inj split).2
    exact List.append_ne_nil_of_right_ne_nil _ (List.cons_ne_nil _ _) tail.symm

end ResourceGraph
