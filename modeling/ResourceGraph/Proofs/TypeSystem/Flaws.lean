import ResourceGraph.Proofs.TypeSystem.Bound

/-!
# Compiled APIs have no flaws

The text of a compiled API in which every name is proper gives a type system: names are distinct and
known, every field and argument has a type that fits its place, and no input holds itself, since
the fields of inputs are scalars and enumerations.
-/

namespace ResourceGraph

open Query TypeSystem

variable {n : Nat}

/-! ## Names -/

namespace TypeSystem

theorem repeats_eq_nil {seen names : List String} (distinct : names.Nodup)
    (fresh : ∀ s ∈ names, s ∉ seen) : repeats seen names = [] := by
  induction names generalizing seen with
  | nil => rfl
  | cons s names ih =>
      obtain ⟨hs, distinct⟩ := List.nodup_cons.mp distinct
      obtain ⟨new, fresh⟩ := List.forall_mem_cons.mp fresh
      rw [repeats, if_neg new]
      apply ih distinct
      intro s' hs' seen
      rcases List.mem_cons.mp seen with rfl | seen
      · exact hs hs'
      · exact fresh s' hs' seen

theorem repeatedOnce_eq_nil {names : List String} (distinct : names.Nodup) :
    repeatedOnce names = [] := by
  apply List.filter_eq_nil_iff.mpr
  intro s _ more
  have once := List.nodup_iff_count_le_one.mp distinct s
  exact absurd (of_decide_eq_true more) (by omega)

theorem name_ofNode (t : TypeNode) : (TypeRef.ofNode t).name = t.name.text := by
  induction t with
  | named n => rfl
  | list o t ih => exact ih
  | nonNull t ih => exact ih

end TypeSystem

theorem TypeRef.orNull_name (isOptional : Bool) (t : TypeRef) :
    (TypeRef.orNull isOptional t).name = t.name := by
  cases isOptional <;> rfl

theorem Field.typeRef_name (f : Field) : f.typeRef.name = f.typeName := by
  rw [typeRef, TypeRef.orNull_name]
  split
  · exact TypeRef.orNull_name ..
  · rfl

theorem Argument.slot_type (a : Argument) : a.slot.type.name = a.typeName :=
  TypeRef.orNull_name ..

/-- The names of types that a definition refers to. -/
def Definition.mentions : Definition → List String
  | .enum _ => []
  | .type t => t.fields.flatMap fun f => f.arguments.map Argument.typeName ++ [f.typeName]

/-- Values, fields, and arguments of one field have distinct names. -/
def Definition.Distinct : Definition → Prop
  | .enum e => (e.values.map EnumValue.name).Nodup
  | .type t => (t.fields.map Field.name).Nodup ∧
    ∀ f ∈ t.fields, (f.arguments.map Argument.name).Nodup

namespace Definition.Declares

variable {d : Definition} {node : TypeDefinition}

theorem definedName? (h : d.Declares node) : TypeSystem.definedName? node = some d.name := by
  cases d <;> cases node <;> first | exact h.elim | skip
  · exact congrArg some h.1
  · exact congrArg some h.2.1
  · exact congrArg some h.2.1

theorem references_eq (h : d.Declares node) (sound : d.Sound) : references node = d.mentions := by
  cases d with
  | enum e =>
      cases node with
      | enum n vs => rfl
      | _ => exact h.elim
  | type t =>
      cases node with
      | object n fs =>
          have same := congrArg (List.flatMap fun o : OutputField =>
            o.arguments.map (fun a => a.type.name) ++ [o.type.name]) h.2.2
          simp only [List.flatMap_map, outputField, Field.output, List.map_map,
            Function.comp_def, inputSlot, name_ofNode, Field.typeRef_name,
            Argument.slot_type] at same
          simp only [references, Reader.fieldReferences, List.map_flatMap, List.map_append,
            List.map_map, List.map_cons, List.map_nil, Function.comp_def]
          exact same
      | input n fs =>
          have same := congrArg (List.map fun o : InputSlot => o.type.name) h.2.2
          simp only [List.map_map, Function.comp_def, inputSlot, name_ofNode, Field.slot,
            Field.typeRef_name] at same
          have plain : ∀ f ∈ t.fields,
              [f.typeName] = f.arguments.map Argument.typeName ++ [f.typeName] := by
            intro f hf
            simp [sound.2 h.1 f hf]
          rw [references, same, mentions, List.map_eq_flatMap]
          exact List.flatMap_congr plain
      | _ => exact h.elim

theorem fieldNames_nodup (h : d.Declares node) (distinct : d.Distinct) :
    (fieldNames node).Nodup := by
  cases d with
  | enum e =>
      cases node with
      | enum n vs => exact List.nodup_nil
      | _ => exact h.elim
  | type t =>
      cases node with
      | object n fs =>
          have same := congrArg (List.map OutputField.name) h.2.2
          simp only [List.map_map, Function.comp_def, outputField, Field.output] at same
          show (fs.map fun f => f.name.text).Nodup
          rw [same]
          exact distinct.1
      | input n fs =>
          have same := congrArg (List.map InputSlot.name) h.2.2
          simp only [List.map_map, Function.comp_def, inputSlot, Field.slot] at same
          show (fs.map fun f => f.name.text).Nodup
          rw [same]
          exact distinct.1
      | _ => exact h.elim

/-- The arguments of a field that is read have distinct names. -/
theorem arguments_nodup {n : Name} {fs : List FieldNode} (h : d.Declares (.object n fs))
    (distinct : d.Distinct) : ∀ f ∈ fs, (f.arguments.map (·.name.text)).Nodup := by
  cases d with
  | enum e => exact h.elim
  | type t =>
      intro f hf
      have listed : outputField f ∈ t.fields.map Field.output := h.2.2 ▸ List.mem_map_of_mem hf
      obtain ⟨f', hf', same⟩ := List.mem_map.mp listed
      have names := congrArg (fun o : OutputField => o.arguments.map InputSlot.name) same
      simp only [Field.output, outputField, List.map_map, Function.comp_def, Argument.slot,
        inputSlot] at names
      exact names ▸ distinct.2 f' hf'

/-- A definition that is read has no flaw in its names. -/
theorem nameFlaws_eq_nil (h : d.Declares node) (sound : d.Sound) (distinct : d.Distinct)
    {known : List String} (refers : ∀ s ∈ d.mentions, s ∈ known) {earlier : List TypeDefinition}
    (fresh : ∀ e ∈ earlier, TypeSystem.definedName? e ≠ some d.name) :
    nameFlaws known earlier node = [] := by
  have alone : earlier.filter (fun e => TypeSystem.definedName? e = some d.name) = [] := by
    apply List.filter_eq_nil_iff.mpr
    intro e he same
    exact fresh e he (of_decide_eq_true same)
  have known : (references node).filter (· ∉ known) = [] := by
    rw [h.references_eq sound]
    apply List.filter_eq_nil_iff.mpr
    intro s hs unknown
    exact of_decide_eq_true unknown (refers s hs)
  have fields : repeats [] (fieldNames node) = [] :=
    repeats_eq_nil (h.fieldNames_nodup distinct) (by simp)
  unfold nameFlaws
  rw [h.definedName?]
  dsimp only
  rw [alone, known]
  cases node with
  | enum m vs =>
      cases d with
      | enum e =>
          have values : repeats [] (vs.map Name.text) = [] :=
            repeats_eq_nil (h.2 ▸ distinct) (by simp)
          simp [values, fields]
      | type t => exact h.elim
  | object m fs =>
      have arguments : ∀ f ∈ fs, repeatedOnce (f.arguments.map (·.name.text)) = [] :=
        fun f hf => repeatedOnce_eq_nil (h.arguments_nodup distinct f hf)
      simp only [List.isEmpty_nil, if_true, List.flatMap_nil, fields, repeats, List.map_nil,
        List.nil_append, List.append_nil, List.flatMap_eq_nil_iff]
      intro f hf
      rw [arguments f hf, List.map_nil]
  | input m fs => simp [fields, repeats]
  | other m b rs => cases d <;> exact h.elim

end Definition.Declares

theorem allNameFlaws_eq_nil {known : List String} {ds : List Definition}
    {nodes earlier : List TypeDefinition} (declared : List.Forall₂ Definition.Declares ds nodes)
    (sound : ∀ d ∈ ds, d.Sound ∧ d.Distinct ∧ ∀ s ∈ d.mentions, s ∈ known)
    (names : (ds.map Definition.name).Nodup)
    (fresh : ∀ d ∈ ds, ∀ e ∈ earlier, definedName? e ≠ some d.name) :
    allNameFlaws known earlier nodes = [] := by
  induction declared generalizing earlier with
  | nil => rfl
  | @cons d node ds nodes head _ ih =>
      obtain ⟨⟨sound, distinct, refers⟩, rest⟩ := List.forall_mem_cons.mp sound
      obtain ⟨new, fresh⟩ := List.forall_mem_cons.mp fresh
      obtain ⟨hd, names⟩ := List.nodup_cons.mp names
      rw [allNameFlaws, head.nameFlaws_eq_nil sound distinct refers new, List.nil_append]
      apply ih rest names
      intro d' hd' e he same
      rcases List.mem_append.mp he with he | he
      · exact fresh d' hd' e he same
      · rw [List.mem_singleton.mp he, head.definedName?] at same
        exact hd (List.mem_map.mpr ⟨d', hd', (Option.some.inj same).symm⟩)

/-! ## Types -/

namespace TypeSystem

/-- A proper name is not one of those that describe types. -/
theorem reservedFlaws_eq_nil {name : String} (h : Naming.isName name = true) :
    reservedFlaws name = [] := by
  have plain : isReserved name = false := by
    rw [Naming.isName] at h
    rw [isReserved]
    generalize name.toList = cs at h ⊢
    cases cs with
    | nil => cases h
    | cons c rest =>
        obtain ⟨-, -, guarded⟩ := Naming.isNameText_cons.mp h
        by_cases hc : c = '_'
        · cases rest with
          | nil => simp [List.isPrefixOf]
          | cons d rest =>
              have hd : '_' ≠ d := fun hd => guarded hc (by rw [hd]; rfl)
              simp [List.isPrefixOf, hd]
        · have hc : '_' ≠ c := fun h => hc h.symm
          simp [List.isPrefixOf, hc]
  rw [reservedFlaws, plain]
  rfl

variable {t : TypeSystem}

/-- Where no input has to hold another, none holds itself. -/
theorem cyclesFrom_eq_nil (held : ∀ name, heldInputs t name = []) (room : Nat) (name : String)
    (trail : List (String × String)) (visited : List String) :
    (cyclesFrom t room name trail visited).2 = [] := by
  cases room with
  | zero => rfl
  | succ room =>
      rw [cyclesFrom, held]
      split <;> rfl

theorem allTypeFlaws_eq_nil (held : ∀ name, heldInputs t name = [])
    {es : List (String × NamedType)} (fits : ∀ e ∈ es, typeFlaws t e.2 = [])
    (visited : List String) : allTypeFlaws t visited es = [] := by
  induction es generalizing visited with
  | nil => rfl
  | cons e es ih =>
      obtain ⟨head, tail⟩ := List.forall_mem_cons.mp fits
      simp only [allTypeFlaws, head, cyclesFrom_eq_nil held, List.append_nil, ih tail]

theorem mem_addMissing {es : Keyed.Entries NamedType} {ts : List NamedType}
    {e : String × NamedType} (h : e ∈ addMissing es ts) : e ∈ es ∨ e.2 ∈ ts := by
  unfold addMissing at h
  induction ts generalizing es with
  | nil => exact Or.inl h
  | cons t ts ih =>
      rcases ih h with h | h
      · dsimp only at h
        split at h
        · exact Or.inl h
        · rcases List.mem_append.mp h with h | h
          · exact Or.inl h
          · rw [List.mem_singleton.mp h]
            exact Or.inr (List.mem_cons_self ..)
      · exact Or.inr (List.mem_cons_of_mem _ h)

theorem mem_foldl_addMissing {es : Keyed.Entries NamedType} {ts : List NamedType}
    {e : String × NamedType}
    (h : e ∈ ts.foldl (fun es t => addMissing es (t :: scalarsOf t)) es) :
    e ∈ es ∨ e.2 ∈ withScalars ts := by
  induction ts generalizing es with
  | nil => exact Or.inl h
  | cons t ts ih =>
      rw [withScalars, List.flatMap_cons, List.mem_append]
      rcases ih h with h | h
      · exact (mem_addMissing h).imp_right Or.inl
      · exact Or.inr (Or.inr h)

/-- The types of definitions are their own, scalars, and those that describe types. -/
theorem mem_ofDefinitions {nodes : List TypeDefinition} {e : String × NamedType}
    (h : e ∈ (ofDefinitions nodes).types) :
    e.2 ∈ nodes.filterMap namedType? ∨ (∃ s, e.2 = .scalar s) ∨ e.2 ∈ introspectionTypes := by
  unfold ofDefinitions at h
  dsimp only at h
  generalize introspectionTypes = standard at h ⊢
  rcases mem_addMissing h with h | h
  · rcases mem_foldl_addMissing h with h | h
    · cases h
    · obtain ⟨t, ht, h⟩ := List.mem_flatMap.mp h
      rcases List.mem_cons.mp h with same | h
      · exact Or.inl (same ▸ ht)
      · exact Or.inr (Or.inl (scalar_of_scalarsOf h))
  · rcases List.mem_cons.mp h with same | h
    · exact Or.inr (Or.inl ⟨_, same⟩)
    · rcases List.mem_cons.mp h with same | h
      · exact Or.inr (Or.inl ⟨_, same⟩)
      · exact Or.inr (Or.inr h)

theorem name_of_type? {nodes : List TypeDefinition} {name : String} {type : NamedType}
    (found : (ofDefinitions nodes).type? name = some type) : type.name = name := by
  rw [type?_ofDefinitions, Option.or_eq_some_iff] at found
  rcases found with found | ⟨-, found⟩
  · exact beq_iff_eq.mp (List.find?_some (p := fun t : NamedType => t.name == name) found)
  · exact beq_iff_eq.mp (List.find?_some (p := fun t : NamedType => t.name == name) found)

section

variable (nodes : List TypeDefinition)

theorem queryType_ofDefinitions : (ofDefinitions nodes).queryType
    = if Keyed.hasKey "Query" (ofDefinitions nodes).types then some "Query" else none := by
  rw [ofDefinitions]

theorem mutationType_ofDefinitions : (ofDefinitions nodes).mutationType
    = if Keyed.hasKey "Mutation" (ofDefinitions nodes).types then some "Mutation" else none := by
  rw [ofDefinitions]

theorem subscriptionType_ofDefinitions : (ofDefinitions nodes).subscriptionType
    = if Keyed.hasKey "Subscription" (ofDefinitions nodes).types then some "Subscription"
      else none := by
  rw [ofDefinitions]

end

/-- The only root is the one for queries, if that is an object. -/
theorem rootFlaws_eq_nil {nodes : List TypeDefinition} {fields : List OutputField}
    (query : (ofDefinitions nodes).type? "Query" = some (.object "Query" fields))
    (mutation : Keyed.hasKey "Mutation" (ofDefinitions nodes).types = false)
    (subscription : Keyed.hasKey "Subscription" (ofDefinitions nodes).types = false) :
    rootFlaws (ofDefinitions nodes) = [] := by
  have there : Keyed.hasKey "Query" (ofDefinitions nodes).types = true :=
    Keyed.hasKey_iff.mpr (Keyed.mem_keys_of_find? query)
  have queryType : (ofDefinitions nodes).queryType = some "Query" := by
    rw [queryType_ofDefinitions, there, if_pos rfl]
  have mutationType : (ofDefinitions nodes).mutationType = none := by
    rw [mutationType_ofDefinitions, mutation, if_neg (by decide)]
  have subscriptionType : (ofDefinitions nodes).subscriptionType = none := by
    rw [subscriptionType_ofDefinitions, subscription, if_neg (by decide)]
  generalize ofDefinitions nodes = t at query queryType mutationType subscriptionType
  have fields : t.objectFields? "Query" = some fields := by rw [objectFields?, query]
  simp [rootFlaws, queryType, mutationType, subscriptionType, fields]

variable (t) in
/-- What fields of inputs and arguments may be of. -/
def Leaf (name : String) : Prop := ∃ type, t.type? name = some type ∧ type.isLeaf = true

variable (t) in
def Output (name : String) : Prop := ∃ type, t.type? name = some type ∧ type.isOutput = true

theorem Leaf.input {name : String} (h : t.Leaf name) : ∃ type, t.type? name = some type ∧
    type.isInput = true ∧ ∀ n fs, type ≠ .input n fs := by
  obtain ⟨type, ht, leaf⟩ := h
  refine ⟨type, ht, ?_⟩
  cases type <;> simp_all [NamedType.isLeaf, NamedType.isInput]

theorem Leaf.output {name : String} (h : t.Leaf name) : t.Output name := by
  obtain ⟨type, ht, leaf⟩ := h
  refine ⟨type, ht, ?_⟩
  cases type <;> simp_all [NamedType.isLeaf, NamedType.isOutput]

theorem inputFlaws_eq_nil {place : String} {s : InputSlot} (named : Naming.isName s.name = true)
    (leaf : t.Leaf s.type.name) : inputFlaws t place s = [] := by
  obtain ⟨type, ht, fits, -⟩ := leaf.input
  simp [inputFlaws, reservedFlaws_eq_nil named, isInputType, ht, fits]

theorem outputFlaws_eq_nil {type : String} {f : OutputField} (named : Naming.isName f.name = true)
    (output : t.Output f.type.name)
    (slots : ∀ a ∈ f.arguments, Naming.isName a.name = true ∧ t.Leaf a.type.name) :
    outputFlaws t type f = [] := by
  obtain ⟨found, ht, fits⟩ := output
  simp only [outputFlaws, reservedFlaws_eq_nil named, isOutputType, ht, Option.any_some, fits,
    if_true, List.nil_append, List.flatMap_eq_nil_iff]
  intro a ha
  exact inputFlaws_eq_nil (slots a ha).1 (slots a ha).2

/-- The types of fields and arguments fit their places. -/
def Fits (t : TypeSystem) : Definition → Prop
  | .enum _ => True
  | .type d => ∀ f ∈ d.fields, (if d.isInput then t.Leaf f.typeName else t.Output f.typeName) ∧
    ∀ a ∈ f.arguments, t.Leaf a.typeName

theorem typeFlaws_scalar (s : Scalar) : typeFlaws t (.scalar s) = [] := by
  have named : Naming.isName s.name = true := by cases s <;> decide
  unfold typeFlaws
  split
  · rfl
  · exact (List.append_nil _).trans (reservedFlaws_eq_nil named)

theorem typeFlaws_eq_nil {d : Definition} (proper : ∀ s ∈ d.names, Naming.isName s = true)
    (sound : d.Sound) (fits : t.Fits d) : typeFlaws t d.namedType = [] := by
  cases d with
  | enum e =>
      obtain ⟨named, members⟩ := List.forall_mem_cons.mp proper
      have members : ∀ v ∈ e.values, reservedFlaws v.name = [] := fun v hv =>
        reservedFlaws_eq_nil (members _ (List.mem_map_of_mem hv))
      unfold typeFlaws
      split
      · rfl
      · simpa [Definition.namedType, NamedType.name, reservedFlaws_eq_nil named, sound.1]
          using members
  | type d =>
      obtain ⟨named, fields⟩ := List.forall_mem_cons.mp proper
      have inside : ∀ f ∈ d.fields, ∀ s ∈ f.names, Naming.isName s = true := fun f hf s hs =>
        fields s (List.mem_flatMap.mpr ⟨f, hf, hs⟩)
      unfold typeFlaws
      split
      · rfl
      · cases input : d.isInput with
        | true =>
            have none : ∀ f ∈ d.fields,
                inputFlaws t (d.name ++ "." ++ f.slot.name) f.slot = [] := by
              intro f hf
              apply inputFlaws_eq_nil (inside f hf _ (List.mem_cons_self ..))
              have leaf := (fits f hf).1
              rw [input, if_pos rfl] at leaf
              exact f.typeRef_name.symm ▸ leaf
            simpa [Definition.namedType, input, NamedType.name, reservedFlaws_eq_nil named,
              sound.1] using none
        | false =>
            have none : ∀ f ∈ d.fields, outputFlaws t d.name f.output = [] := by
              intro f hf
              apply outputFlaws_eq_nil (inside f hf _ (List.mem_cons_self ..))
              · have output := (fits f hf).1
                rw [input, if_neg (by decide)] at output
                exact f.typeRef_name.symm ▸ output
              · intro slot hs
                obtain ⟨a, ha, rfl⟩ := List.mem_map.mp hs
                refine ⟨inside f hf _ ?_, a.slot_type.symm ▸ (fits f hf).2 a ha⟩
                simp only [Field.names, List.mem_cons, List.mem_flatMap]
                exact Or.inr (Or.inr ⟨a, ha, Or.inl rfl⟩)
            simpa [Definition.namedType, input, NamedType.name, reservedFlaws_eq_nil named,
              sound.1] using none

/-- An input whose fields are leaves holds no input. -/
theorem heldInputs_eq_nil {name : String}
    (leaves : ∀ n fs, t.type? name = some (.input n fs) → ∀ s ∈ fs, t.Leaf s.type.name) :
    heldInputs t name = [] := by
  unfold heldInputs
  split
  · rename_i n fs found
    apply List.filterMap_eq_nil_iff.mpr
    intro s hs
    split
    · rename_i inner hinner
      obtain ⟨type, ht, -, leaf⟩ := (leaves n fs found s hs).input
      rw [hinner] at ht
      have ht : t.type? inner = some type := ht
      rw [ht]
      cases type with
      | input n' fs' => exact absurd rfl (leaf n' fs')
      | _ => rfl
    · rfl
  · rfl

end TypeSystem

/-! ## Compiled APIs -/

theorem Resource.queryFields_arguments (a : Resource) :
    ∀ f ∈ a.queryFields, (f.arguments.map Argument.name).Nodup := by
  simp [queryFields]

theorem scalar_of_name : ∀ s ∈ scalarNames, ∃ c : Scalar, c.name = s ∧
    scalarsOf.scalarType? s = some (.scalar c) := by
  have known : ∀ s ∈ scalarNames, (Scalar.ofName? s).any (·.name == s) = true := by decide
  intro s hs
  obtain ⟨c, found, same⟩ := (Option.any_eq_true _ _).mp (known s hs)
  exact ⟨c, beq_iff_eq.mp same, by rw [scalarsOf.scalarType?, found]; rfl⟩

/-- A scalar is given together with a type that refers to it. -/
theorem scalar_mem_scalarsOf {d : Definition} (sound : d.Sound) {name : String}
    (mentioned : name ∈ d.mentions) (hs : name ∈ scalarNames) :
    ∃ c : Scalar, c.name = name ∧ .scalar c ∈ scalarsOf d.namedType := by
  obtain ⟨c, same, typed⟩ := scalar_of_name name hs
  refine ⟨c, same, ?_⟩
  cases d with
  | enum e => cases mentioned
  | type d =>
      obtain ⟨f, hf, hn⟩ := List.mem_flatMap.mp mentioned
      rw [Definition.namedType]
      cases input : d.isInput with
      | true =>
          rw [sound.2 input f hf] at hn
          have held : name ∈ d.fields.map (·.slot.type.name) :=
            List.mem_map.mpr ⟨f, hf, f.typeRef_name.trans (List.mem_singleton.mp hn).symm⟩
          rw [if_pos rfl, scalarsOf, List.map_map]
          exact List.mem_filterMap.mpr ⟨name, held, typed⟩
      | false =>
          have held : name ∈ d.fields.flatMap fun f =>
              f.output.type.name :: f.output.arguments.map (·.type.name) := by
            refine List.mem_flatMap.mpr ⟨f, hf, ?_⟩
            simp only [Field.output, Field.typeRef_name, List.map_map, List.mem_cons]
            rcases List.mem_append.mp hn with hn | hn
            · obtain ⟨a, ha, rfl⟩ := List.mem_map.mp hn
              exact Or.inr (List.mem_map.mpr ⟨a, ha, a.slot_type⟩)
            · exact Or.inl (List.mem_singleton.mp hn)
          rw [if_neg (by decide), scalarsOf, List.flatMap_map]
          exact List.mem_filterMap.mpr ⟨name, held, typed⟩

namespace Registry.Finished

variable {naming : Naming} {r : Registry n}

theorem distinct (h : r.Finished naming) : ∀ d ∈ r.api.definitions, d.Distinct := by
  have wellFormed := h.consistent.wellFormed
  have plain {fs : List Field} (bare : ∀ f ∈ fs, f.arguments = []) :
      ∀ f ∈ fs, (f.arguments.map Argument.name).Nodup := by
    intro f hf
    simp [bare f hf]
  intro d hd
  simp only [Api.definitions, List.mem_append, List.mem_map, List.mem_cons, List.not_mem_nil,
    or_false] at hd
  rcases hd with ((⟨p, hp, rfl⟩ | ⟨p, hp, rfl⟩) | ⟨p, hp, rfl⟩) | rfl | rfl
  · exact wellFormed.distinctValues p hp
  · exact ⟨wellFormed.distinctFields p (List.mem_append_left _ hp),
      plain fun f hf => ((h.made.types p hp).2 f hf).1⟩
  · exact ⟨wellFormed.distinctFields p (List.mem_append_right _ hp),
      plain (h.made.inputs p hp).2⟩
  · refine ⟨wellFormed.distinctResults, plain fun f hf => ?_⟩
    rcases List.mem_append.mp hf with hf | hf
    · obtain ⟨a, -, rfl⟩ := List.mem_map.mp hf
      rfl
    · rw [List.mem_singleton.mp hf]
  · refine ⟨wellFormed.distinctQueries, fun f hf => ?_⟩
    rcases List.mem_append.mp hf with hf | hf
    · rw [h.consistent.queries] at hf
      obtain ⟨a, -, hf⟩ := List.mem_flatMap.mp hf
      exact a.queryFields_arguments f hf
    · rw [List.mem_singleton.mp hf]
      decide

/-- A name that a definition of a compiled API refers to. -/
inductive Refers (a : Api) : (input : Bool) → (name : String) → Prop
  | scalar {input name} (h : name ∈ scalarNames) : Refers a input name
  | enum {input} (e : EnumDef) (h : .enum e ∈ a.definitions) : Refers a input e.name
  | object (t : TypeDef) (h : .type t ∈ a.definitions) (output : t.isInput = false) :
      Refers a false t.name

/-- Fields of output types refer to what can be output, fields of inputs and arguments to scalars and
enumerations. -/
theorem refers (h : r.Finished naming) : ∀ d, .type d ∈ r.api.definitions → ∀ f ∈ d.fields,
    Refers r.api d.isInput f.typeName ∧ ∀ a ∈ f.arguments, a.typeName ∈ scalarNames := by
  have wellFormed := h.consistent.wellFormed
  have enum {input : Bool} {s : String} (hs : s ∈ Keyed.keys r.api.enums) :
      Refers r.api input s := by
    obtain ⟨e, he⟩ := Keyed.exists_of_mem_keys hs
    have he := Keyed.mem_of_find? he
    have same : e.name = s := wellFormed.enumNames _ he
    exact same ▸ .enum e (Api.enum_mem_definitions he)
  have object {s : String} (hs : s ∈ Keyed.keys r.api.types) : Refers r.api false s := by
    obtain ⟨t, ht⟩ := Keyed.exists_of_mem_keys hs
    have ht := Keyed.mem_of_find? ht
    have same : t.name = s := wellFormed.typeNames _ (List.mem_append_left _ ht)
    exact same ▸ .object t (Api.type_mem_definitions ht) (h.made.types _ ht).1
  have root {f : Field} (hf : f ∈ r.api.queryType.fields ++ r.api.searchResultsType.fields) :
      Refers r.api false f.typeName := by
    rcases wellFormed.rootRefs f hf with hs | hs | hs
    · exact .scalar hs
    · rw [hs]
      exact .object _ (by simp [Api.definitions]) rfl
    · exact object hs
  intro d hd f hf
  simp only [Api.definitions, List.mem_append, List.mem_map, List.mem_cons, List.not_mem_nil,
    or_false, reduceCtorEq, and_false, exists_false, false_or, Definition.type.injEq] at hd
  rcases hd with (⟨p, hp, rfl⟩ | ⟨p, hp, rfl⟩) | rfl | rfl
  · obtain ⟨output, plain⟩ := h.made.types p hp
    refine ⟨?_, by simp [(plain f hf).1]⟩
    rw [output]
    rcases wellFormed.typeRefs p hp f hf with hs | hs | hs
    · exact .scalar hs
    · exact enum hs
    · exact object hs
  · obtain ⟨input, plain⟩ := h.made.inputs p hp
    refine ⟨?_, by simp [plain f hf]⟩
    rcases wellFormed.inputRefs p hp f hf with hs | hs
    · exact .scalar hs
    · exact enum hs
  · refine ⟨root (List.mem_append_right _ hf), fun a ha => ?_⟩
    rcases List.mem_append.mp hf with hf | hf
    · obtain ⟨b, -, rfl⟩ := List.mem_map.mp hf
      cases ha
    · rw [List.mem_singleton.mp hf] at ha
      cases ha
  · exact ⟨root (List.mem_append_left _ hf), wellFormed.argumentRefs f hf⟩

theorem mentions_known (h : r.Finished naming) {d : Definition} (hd : d ∈ r.api.definitions) :
    ∀ s ∈ d.mentions, s ∈ standardNames ++ r.api.definitions.map Definition.name := by
  have scalars : ∀ s ∈ scalarNames, s ∈ standardNames := by decide
  cases d with
  | enum e => simp [Definition.mentions]
  | type d =>
      intro s hs
      obtain ⟨f, hf, hs⟩ := List.mem_flatMap.mp hs
      obtain ⟨own, arguments⟩ := h.refers d hd f hf
      rw [List.mem_append]
      rcases List.mem_append.mp hs with hs | hs
      · obtain ⟨a, ha, rfl⟩ := List.mem_map.mp hs
        exact Or.inl (scalars _ (arguments a ha))
      · rw [List.mem_singleton.mp hs]
        generalize f.typeName = name, d.isInput = input at own
        cases own with
        | scalar hs => exact Or.inl (scalars _ hs)
        | enum e he => exact Or.inr (List.mem_map.mpr ⟨_, he, rfl⟩)
        | object t ht => exact Or.inr (List.mem_map.mpr ⟨_, ht, rfl⟩)

section

variable (h : r.Finished naming) (proper : ∀ s ∈ r.api.names, Naming.isName s = true)
  {nodes : List TypeDefinition}
  (declared : List.Forall₂ Definition.Declares r.api.definitions nodes)
include h proper declared

/-- A scalar that a definition refers to is there. -/
theorem type?_scalar {d : Definition} (hd : d ∈ r.api.definitions) {name : String}
    (mentioned : name ∈ d.mentions) (hs : name ∈ scalarNames) :
    ∃ s, (ofDefinitions nodes).type? name = some (.scalar s) := by
  obtain ⟨s, rfl, listed⟩ := scalar_mem_scalarsOf (h.sound d hd) mentioned hs
  have there : NamedType.scalar s ∈ withScalars (r.api.definitions.map Definition.namedType) :=
    List.mem_flatMap.mpr ⟨_, List.mem_map_of_mem hd, List.mem_cons_of_mem _ listed⟩
  rw [type?_ofDefinitions, filterMap_of_declares declared fun d hd => h.free proper hd]
  cases found : (withScalars (r.api.definitions.map Definition.namedType)).find?
      (·.name == s.name) with
  | none => exact absurd (List.find?_eq_none.mp found _ there) (by simp [NamedType.name])
  | some type =>
      have same : type.name = s.name := beq_iff_eq.mp
        (List.find?_some (p := fun t : NamedType => t.name == s.name) found)
      obtain ⟨own, ho, ht⟩ := List.mem_flatMap.mp (List.mem_of_find?_eq_some found)
      obtain ⟨d', hd', rfl⟩ := List.mem_map.mp ho
      rcases List.mem_cons.mp ht with rfl | ht
      · rw [d'.namedType_name] at same
        exact absurd same ((h.free proper hd').not_scalar s)
      · obtain ⟨s', rfl⟩ := scalar_of_scalarsOf ht
        exact ⟨s', rfl⟩

/-- Every definition fits the type system that it is part of. -/
theorem fits : ∀ d ∈ r.api.definitions, (ofDefinitions nodes).Fits d := by
  have definition := h.type?_definition proper declared
  have scalar {d : Definition} (hd : d ∈ r.api.definitions) {name : String}
      (mentioned : name ∈ d.mentions) (hs : name ∈ scalarNames) :
      (ofDefinitions nodes).Leaf name := by
    obtain ⟨s, found⟩ := h.type?_scalar proper declared hd mentioned hs
    exact ⟨_, found, rfl⟩
  generalize ofDefinitions nodes = t at definition scalar ⊢
  intro d hd
  cases d with
  | enum e => trivial
  | type d =>
      intro f hf
      obtain ⟨refers, arguments⟩ := h.refers d hd f hf
      have own : f.typeName ∈ (Definition.type d).mentions :=
        List.mem_flatMap.mpr ⟨f, hf, by simp⟩
      constructor
      · generalize f.typeName = name, d.isInput = input at refers own
        have leaf (ht : t.Leaf name) : if input then t.Leaf name else t.Output name := by
          split
          · exact ht
          · exact ht.output
        cases refers with
        | scalar hs => exact leaf (scalar hd own hs)
        | enum e he => exact leaf ⟨_, definition _ he, rfl⟩
        | object d' hd' output =>
            refine ⟨_, definition _ hd', ?_⟩
            rw [Definition.namedType, output]
            rfl
      · intro a ha
        exact scalar hd (List.mem_flatMap.mpr ⟨f, hf,
          List.mem_append_left _ (List.mem_map_of_mem ha)⟩) (arguments a ha)

theorem own_of_mem {e : String × NamedType} (he : e ∈ (ofDefinitions nodes).types) :
    (∃ d ∈ r.api.definitions, e.2 = d.namedType) ∨ (∃ s, e.2 = .scalar s) ∨
      e.2 ∈ introspectionTypes := by
  have own := mem_ofDefinitions he
  rw [filterMap_of_declares declared fun d hd => h.free proper hd, List.mem_map] at own
  exact own.imp_left fun ⟨d, hd, same⟩ => ⟨d, hd, same.symm⟩

theorem not_holds (name : String) : heldInputs (ofDefinitions nodes) name = [] := by
  apply heldInputs_eq_nil
  intro n fs found s hs
  rcases h.own_of_mem proper declared (Keyed.mem_of_find? found) with
    ⟨d, hd, same⟩ | ⟨s, same⟩ | standard
  · cases d with
    | enum e => cases same
    | type d =>
        have fits := h.fits proper declared _ hd
        rw [Definition.namedType] at same
        split at same
        · rename_i input
          cases same
          obtain ⟨f, hf, rfl⟩ := List.mem_map.mp hs
          have leaf := (fits f hf).1
          rw [if_pos input] at leaf
          exact f.typeRef_name.symm ▸ leaf
        · cases same
  · cases same
  · have none : ∀ t ∈ introspectionTypes, t.isInput = true → t.isLeaf = true := by decide
    cases none _ standard rfl

/-- A reserved name that the API does not define is not there. -/
theorem not_hasKey {name : String} (reserved : name ∈ reservedTypeNames)
    (other : name ∉ ["SearchResults", "Query"]) (unscaled : ∀ s : Scalar, s.name ≠ name)
    (described : ∀ t ∈ introspectionTypes, t.name ≠ name) :
    Keyed.hasKey name (ofDefinitions nodes).types = false := by
  rw [← Bool.not_eq_true, Keyed.hasKey_iff]
  intro there
  obtain ⟨type, found⟩ := Keyed.exists_of_mem_keys there
  have named := name_of_type? found
  rcases h.own_of_mem proper declared (Keyed.mem_of_find? found) with
    ⟨d, hd, same⟩ | ⟨s, same⟩ | standard
  · have same : type = d.namedType := same
    rw [same, d.namedType_name] at named
    have listed := List.mem_map_of_mem (f := Definition.name) hd
    rw [h.consistent.wellFormed.definition_names, named] at listed
    rcases List.mem_append.mp listed with own | root
    · exact h.consistent.wellFormed.legal _ own reserved
    · exact other root
  · have same : type = .scalar s := same
    rw [same] at named
    exact unscaled s named
  · exact described type standard named

/-- No type of a compiled API has a flaw. -/
theorem flaws_eq_nil : flaws (ofDefinitions nodes) = [] := by
  have fits := h.fits proper declared
  have own := fun e => h.own_of_mem proper declared (e := e)
  have query := h.type?_definition proper declared _ Api.queryType_mem_definitions
  have mutation : Keyed.hasKey "Mutation" (ofDefinitions nodes).types = false :=
    h.not_hasKey proper declared (by decide) (by decide) (by intro s; cases s <;> decide)
      (by decide)
  have subscription : Keyed.hasKey "Subscription" (ofDefinitions nodes).types = false :=
    h.not_hasKey proper declared (by decide) (by decide) (by intro s; cases s <;> decide)
      (by decide)
  rw [flaws, rootFlaws_eq_nil query mutation subscription, List.nil_append]
  apply allTypeFlaws_eq_nil (h.not_holds proper declared)
  intro e he
  rcases own e he with ⟨d, hd, same⟩ | ⟨s, same⟩ | standard
  · rw [same]
    exact typeFlaws_eq_nil (fun s hs => proper s (List.mem_flatMap.mpr ⟨d, hd, hs⟩))
      (h.sound d hd) (fits d hd)
  · rw [same, typeFlaws_scalar]
  · have described : isIntrospectionType e.2.name = true :=
      List.any_eq_true.mpr ⟨_, standard, beq_self_eq_true _⟩
    unfold typeFlaws
    rw [if_pos described]

end

/-- The text of a compiled API gives a type system exactly if every name in it is proper. -/
theorem read_iff (h : r.Finished naming) :
    (∃ t, TypeSystem.read r.api.text = .ok t) ↔ ∀ s ∈ r.api.names, Naming.isName s = true := by
  constructor
  · rintro ⟨t, read⟩
    obtain ⟨doc, hdoc, -⟩ := TypeSystem.of_read read
    exact (h.reads_back hdoc).2
  · intro proper
    obtain ⟨doc, hdoc, declared⟩ := r.api.read_text proper h.sound
    have names : doc.types.filterMap definedName? = r.api.definitions.map Definition.name := by
      generalize doc.types = nodes, r.api.definitions = ds at declared
      induction declared with
      | nil => rfl
      | cons head _ ih => rw [List.filterMap_cons, head.definedName?, List.map_cons, ih]
    have named : allNameFlaws (standardNames ++ doc.types.filterMap definedName?) [] doc.types
        = [] := by
      rw [names]
      exact allNameFlaws_eq_nil declared
        (fun d hd => ⟨h.sound d hd, h.distinct d hd, h.mentions_known hd⟩)
        h.consistent.wellFormed.definitions_distinct (by simp)
    refine ⟨ofDefinitions doc.types, ?_⟩
    unfold TypeSystem.read
    rw [hdoc]
    dsimp only
    rw [named]
    dsimp only
    rw [h.flaws_eq_nil proper declared]

end Registry.Finished

end ResourceGraph
