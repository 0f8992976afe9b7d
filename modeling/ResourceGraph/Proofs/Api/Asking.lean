import ResourceGraph.Proofs.Api.Demand

/-!
# Compilation fails only where its demand is not met

Whatever compilation does is one of two things as far as names are concerned: it meets its demand,
after which everything that it asked for is there; or, in a registry under an index in which the
demand is met, it succeeds and stays under that index. Both are proved together, function by
function.
-/

namespace ResourceGraph

variable {n : Nat}

namespace Registry

/-- The sources fit the table, and what they ask for is there, but for the names under
construction. -/
structure Settles (r : Registry n) (t : NodeTable n) (opened : List String) : Prop where
  fit : ∀ p ∈ r.sources, p.2.2.Fit t
  inside : ∀ name kind s, name ∉ opened → r.index name = some (kind, s) →
    r.index.WantsInside name s

/-- The sources fit the table, and the index supports them. -/
structure Under (r : Registry n) (t : NodeTable n) (I : Index) : Prop where
  fit : ∀ p ∈ r.sources, p.2.2.Fit t
  supported : ∀ name kind s, r.index name = some (kind, s) → I.Supports kind name s

variable {r : Registry n} {t : NodeTable n} {I : Index} {opened : List String}
  {name kind : String} {source : Source n}

theorem index_of_find? {s : Source n} (h : Keyed.find? name r.sources = some (kind, s)) :
    r.index name = some (kind, s.shape) := by
  rw [index, h]
  rfl

theorem index_claim (name' : String) : (r.claim name kind source).index name'
    = if name' = name then some (kind, source.shape) else r.index name' := by
  unfold index claim
  dsimp only
  rw [Keyed.find?_insert]
  split <;> rfl

theorem below_claim (fresh : Keyed.find? name r.sources = none) :
    r.index.Below (r.claim name kind source).index := by
  intro name' e he
  rw [index_claim]
  split
  · rename_i same
    rw [same, index, fresh] at he
    cases he
  · exact he

theorem fit_claim (h : ∀ p ∈ r.sources, p.2.2.Fit t) (fit : source.Fit t) :
    ∀ p ∈ (r.claim name kind source).sources, p.2.2.Fit t := by
  intro p hp
  rcases Keyed.mem_of_mem_insert hp with rfl | hp
  · exact fit
  · exact h p hp

theorem Settles.claim (h : r.Settles t opened) (fresh : Keyed.find? name r.sources = none)
    (fit : source.Fit t) : (r.claim name kind source).Settles t (name :: opened) := by
  refine ⟨fit_claim h.fit fit, ?_⟩
  intro name' kind' s closed found
  rw [List.mem_cons, not_or] at closed
  rw [index_claim, if_neg closed.1] at found
  exact (h.inside name' kind' s closed.2 found).mono (below_claim fresh)

theorem Settles.close {s : Source 1} (h : r.Settles t (name :: opened))
    (found : r.index name = some (kind, s)) (wants : r.index.WantsInside name s) :
    r.Settles t opened := by
  refine ⟨h.fit, ?_⟩
  intro name' kind' s' closed found'
  by_cases same : name' = name
  · subst same
    cases found.symm.trans found'
    exact wants
  · apply h.inside name' kind' s' _ found'
    rw [List.mem_cons, not_or]
    exact ⟨same, closed⟩

theorem Under.claim (h : r.Under t I) (fit : source.Fit t)
    (supports : I.Supports kind name source.shape) : (r.claim name kind source).Under t I := by
  refine ⟨fit_claim h.fit fit, ?_⟩
  intro name' kind' s found
  rw [index_claim] at found
  split at found
  · rename_i same
    cases found
    exact same ▸ supports
  · exact h.supported name' kind' s found

/-- A name that the index supports is free or claimed by an equal source. -/
theorem Under.isClaimed (ht : t.Sound []) (hI : I.Closed) (h : r.Under t I) (fit : source.Fit t)
    (supports : I.Supports kind name source.shape) :
    r.isClaimed name kind source = .ok false ∨ r.isClaimed name kind source = .ok true := by
  unfold Registry.isClaimed
  cases hf : Keyed.find? name r.sources with
  | none => exact Or.inl rfl
  | some existing =>
      obtain ⟨kind', s⟩ := existing
      have fit' := h.fit _ (Keyed.mem_of_find? hf)
      obtain ⟨s₁, found₁, same₁⟩ := h.supported _ _ _ (index_of_find? hf)
      obtain ⟨s₂, found₂, same₂⟩ := supports
      cases found₁.symm.trans found₂
      have proper := hI.proper _ _ _ found₁
      have same : s.same source = true := by
        rw [fit'.same ht fit]
        exact Source.sameShape_trans fit'.proper proper fit.proper
          (Source.sameShape_symm proper fit'.proper same₁) same₂
      exact Or.inr (if_pos ⟨rfl, same⟩)

end Registry

namespace Compiling

/-- A computation asks for what `D` says of an index: its success provides that, and where that is
provided it succeeds. -/
structure Asks {α : Type} (t : NodeTable n) (D : Index → Prop) (x : Compiling n α) : Prop where
  meets : ∀ opened r a r', r.Settles t opened → x.run r = .ok (a, r') →
    r.index.Below r'.index ∧ r'.Settles t opened ∧ D r'.index
  succeeds : ∀ I r, I.Closed → D I → r.Under t I → ∃ a r', x.run r = .ok (a, r') ∧ r'.Under t I

/-- What is provided stays provided. -/
def Lasting (D : Index → Prop) : Prop := ∀ I J : Index, I.Below J → D I → D J

variable {α β : Type} {t : NodeTable n} {D E : Index → Prop}

theorem lasting_const (p : Prop) : Lasting fun _ => p := fun _ _ _ hp => hp

theorem Asks.congr {x : Compiling n α} (h : Asks t D x) (iff : ∀ I, D I ↔ E I) : Asks t E x := by
  obtain rfl : D = E := funext fun I => propext (iff I)
  exact h

theorem Asks.pure (a : α) : Asks t (fun _ => True) (Pure.pure a : Compiling n α) where
  meets opened r b r' hr h := by
    obtain ⟨-, rfl⟩ := pure_eq_ok.mp h
    exact ⟨.refl _, hr, trivial⟩
  succeeds I r _ _ hr := ⟨a, r, rfl, hr⟩

theorem Asks.bind {x : Compiling n α} {f : α → Compiling n β} (lasting : Lasting D)
    (hx : Asks t D x) (hf : ∀ a, Asks t E (f a)) : Asks t (fun I => D I ∧ E I) (x >>= f) where
  meets opened r b r' hr h := by
    obtain ⟨a, r₁, ha, hb⟩ := bind_eq_ok.mp h
    obtain ⟨below, settles, met⟩ := hx.meets opened r a r₁ hr ha
    obtain ⟨below', settles', met'⟩ := (hf a).meets opened r₁ b r' settles hb
    exact ⟨below.trans below', settles', lasting _ _ below' met, met'⟩
  succeeds I r hI met hr := by
    obtain ⟨a, r₁, ha, under⟩ := hx.succeeds I r hI met.1 hr
    obtain ⟨b, r₂, hb, under'⟩ := (hf a).succeeds I r₁ hI met.2 under
    exact ⟨b, r₂, bind_eq_ok.mpr ⟨a, r₁, ha, hb⟩, under'⟩

/-- What comes after may ask for nothing. -/
theorem Asks.andThen {x : Compiling n α} {f : α → Compiling n β} (lasting : Lasting D)
    (hx : Asks t D x) (hf : ∀ a, Asks t (fun _ => True) (f a)) : Asks t D (x >>= f) :=
  (hx.bind lasting hf).congr fun _ => and_iff_left trivial

/-- Defining what is claimed asks for nothing. -/
theorem asks_define {f : Registry n → Registry n} (same : ∀ r, (f r).sources = r.sources) :
    Asks t (fun _ => True) (modify f : Compiling n PUnit) where
  meets opened r u r' hr h := by
    obtain rfl := modify_eq_ok.mp h
    have index : (f r).index = r.index := by
      unfold Registry.index
      rw [same]
    refine ⟨index ▸ .refl _, ⟨same r ▸ hr.fit, ?_⟩, trivial⟩
    rw [index]
    exact hr.inside
  succeeds I r _ _ hr := by
    refine ⟨PUnit.unit, f r, rfl, same r ▸ hr.fit, ?_⟩
    unfold Registry.index
    rw [same]
    exact hr.supported

theorem asks_addEnum (e : EnumDef) :
    Asks t (fun _ => True) (modify fun r => r.addEnum e : Compiling n PUnit) :=
  asks_define fun _ => rfl

theorem asks_addType (d : TypeDef) :
    Asks t (fun _ => True) (modify fun r => r.addType d : Compiling n PUnit) :=
  asks_define fun _ => rfl

theorem asks_checkReserved (name kind : String) :
    Asks t (fun _ => name ∉ reservedTypeNames) (checkReserved name kind : Compiling n Unit) where
  meets opened r u r' hr h := by
    obtain ⟨legal, rfl⟩ := checkReserved_eq_ok.mp h
    exact ⟨.refl _, hr, legal⟩
  succeeds I r _ legal hr := ⟨(), r, checkReserved_eq_ok.mpr ⟨legal, rfl⟩, hr⟩

theorem asks_scalarName (x : Option (Node n)) :
    Asks t (fun _ => ∃ type, t.scalarOf x = .ok type) (scalarName t x) where
  meets opened r type r' hr h := by
    obtain ⟨mapped, rfl⟩ := scalarName_eq_ok.mp h
    exact ⟨.refl _, hr, type, mapped⟩
  succeeds I r _ met hr := by
    obtain ⟨type, mapped⟩ := met
    exact ⟨type, r, scalarName_eq_ok.mpr ⟨mapped, rfl⟩, hr⟩

/-- A name is claimed for a source and then what the source asks for is compiled, or the name was
claimed by an equal source and nothing is left to do. -/
theorem asks_claim (ht : t.Sound []) {source : Source n} (fit : source.Fit t) {name kind : String}
    {k : Bool → Compiling n α} {a : α} {z : Compiling n α} (found : k true = Pure.pure a)
    (fresh : ∀ r, (k false).run r = z.run (r.claim name kind source))
    (hz : Asks t (fun I => I.WantsInside name source.shape) z) :
    Asks t (fun I => I.Supports kind name source.shape) (isClaimed name kind source >>= k) where
  meets opened r b r' hr h := by
    simp only [bind_eq_ok, isClaimed_eq_ok] at h
    obtain ⟨claimed, _, ⟨hc, rfl⟩, h⟩ := h
    cases claimed with
    | true =>
        rw [found] at h
        obtain ⟨-, rfl⟩ := pure_eq_ok.mp h
        obtain ⟨existing, he, same⟩ := Registry.isClaimed_eq_true hc
        refine ⟨.refl _, hr, existing.shape, Registry.index_of_find? he, ?_⟩
        exact (hr.fit _ (Keyed.mem_of_find? he)).same ht fit ▸ same
    | false =>
        rw [fresh] at h
        have new := Registry.isClaimed_eq_false hc
        obtain ⟨below, settles, wants⟩ := hz.meets _ _ b r' (hr.claim new fit) h
        have own : r'.index name = some (kind, source.shape) := by
          apply below
          rw [Registry.index_claim, if_pos rfl]
        refine ⟨(Registry.below_claim new).trans below, settles.close own wants, ?_⟩
        exact ⟨_, own, Source.sameShape_self fit.proper⟩
  succeeds I r hI supports hr := by
    rcases hr.isClaimed ht hI fit supports with hc | hc
    · have inside := hI.inside_of_supports fit.proper supports
      obtain ⟨b, r', h, under⟩ := hz.succeeds I _ hI inside (hr.claim fit supports)
      refine ⟨b, r', bind_eq_ok.mpr ⟨false, r, isClaimed_eq_ok.mpr ⟨hc, rfl⟩, ?_⟩, under⟩
      rw [fresh]
      exact h
    · refine ⟨a, r, bind_eq_ok.mpr ⟨true, r, isClaimed_eq_ok.mpr ⟨hc, rfl⟩, ?_⟩, hr⟩
      rw [found]
      rfl

/-! ## Elements -/

theorem wantsType_enumeration {I : Index} {name : String} {id : Fin 1} {values : List Value}
    {type : Value} : I.WantsType name (some (.enumeration id values type)) ↔
      (values.isEmpty = false → name ∉ reservedTypeNames ∧
        I.Supports "enum" name (.node (.enumeration id values type))) := by
  constructor
  · intro h some
    cases h with
    | emptyEnumeration => cases some
    | enumeration legal supports => exact ⟨legal, supports⟩
  · intro h
    cases values with
    | nil => exact .emptyEnumeration id type
    | cons v values => exact .enumeration (h rfl).1 (h rfl).2

theorem asks_compileEnum (ht : t.Sound []) {id : Fin n} {values : List Value} {type : Value}
    (stands : t.Stands (.enumeration id values type)) (name : String) :
    Asks t (fun I => I.WantsType name (some (Node.enumeration id values type).shape))
      (compileEnum id values type name) := by
  have fit := Source.fit_node ht stands trivial
  rw [compileEnum]
  cases some : values.isEmpty with
  | true =>
      apply (Asks.pure _).congr
      intro I
      rw [Node.shape_enumeration, wantsType_enumeration, some]
      simp
  | false =>
      have shape : Source.shape (.node (.enumeration id values type))
          = .node (.enumeration 0 values type) :=
        congrArg Source.node (Node.shape_enumeration id values type)
      have defines : Asks t
          (fun I => I.WantsInside name (Source.shape (.node (.enumeration id values type))))
          (do modify fun r => r.addEnum (EnumDef.ofValues name values); Pure.pure name) := by
        apply ((asks_addEnum _).andThen (lasting_const _) fun _ => .pure name).congr
        intro I
        rw [shape]
        exact Iff.rfl
      rw [if_neg Bool.false_ne_true]
      refine ((asks_checkReserved name "enum").bind (lasting_const _) fun _ =>
        asks_claim (a := name) ht fit rfl (fun _ => rfl) defines).congr ?_
      intro I
      rw [shape, Node.shape_enumeration, wantsType_enumeration, some]
      simp

theorem wantsType_object {I : Index} {name : String} {key : ObjectKey 1}
    {properties : List (String × Node 1)} {required : List String} {additional : Option (Node 1)}
    {other : Value} :
    I.WantsType name (some (.object key properties required additional other)) ↔
      name ∉ reservedTypeNames ∧
        I.Supports "type" name (.node (.object key properties required additional other)) := by
  constructor
  · intro h
    cases h with
    | object legal supports => exact ⟨legal, supports⟩
  · exact fun ⟨legal, supports⟩ => .object legal supports

theorem wantsInside_object {I : Index} {name : String} {key : ObjectKey n}
    {properties : List (String × Node n)} {required : List String} {additional : Option (Node n)}
    {other : Value} :
    I.WantsInside name (Source.shape (.node (.object key properties required additional other))) ↔
      ∀ p ∈ properties, I.WantsProperty name (p.1, p.2.shape) := by
  rw [show Source.shape (.node _) = .node (Node.shape _) from rfl, Node.shape_object]
  exact List.forall_mem_map

/-- What is neither an enumeration nor an object asks for a scalar. -/
theorem wantsType_iff_scalarOf {I : Index} {name : String} {x : Option (Node n)}
    (enumeration : ∀ id values type, x ≠ some (.enumeration id values type))
    (object : ∀ key properties required additional other,
      x ≠ some (.object key properties required additional other))
    (concrete : ∀ y, x = some y → y.IsConcrete) :
    (∃ type, t.scalarOf x = .ok type) ↔ I.WantsType name (x.map Node.shape) := by
  cases x with
  | none => exact ⟨fun _ => .missing, fun _ => ⟨_, rfl⟩⟩
  | some x =>
      cases x with
      | scalar key type format =>
          rw [Option.map_some, Node.shape_scalar]
          constructor
          · exact fun ⟨type, mapped⟩ => .scalar mapped
          · intro h
            cases h with
            | scalar mapped => exact ⟨_, mapped⟩
      | array id items =>
          rw [Option.map_some, Node.shape_array]
          exact ⟨fun _ => .array _ _, fun _ => ⟨_, rfl⟩⟩
      | enumeration id values type => exact absurd rfl (enumeration id values type)
      | object key properties required additional other =>
          exact absurd rfl (object key properties required additional other)
      | composite => exact (concrete _ rfl).elim
      | ref => exact (concrete _ rfl).elim

theorem wantsProperty_of_single {I : Index} {parent : String} {p : String × Node 1}
    (single : ∀ id items, p.2.collapse ≠ some (.array id items)) : I.WantsProperty parent p ↔
      I.WantsType (Naming.typeName (Naming.sanitizeFieldName p.1) parent) p.2.collapse := by
  constructor
  · intro h
    cases h with
    | untyped list => exact absurd list (single _ _)
    | items list => exact absurd list (single _ _)
    | plain _ wants => exact wants
  · exact .plain single

theorem wantsProperty_of_items {I : Index} {parent : String} {p : String × Node 1} {id : Fin 1}
    {items : Node 1} (list : p.2.collapse = some (.array id (some items))) :
    I.WantsProperty parent p ↔
      I.WantsType (Naming.typeName (Naming.sanitizeFieldName p.1 ++ "Item") parent)
        items.collapse := by
  constructor
  · intro h
    cases h with
    | untyped list' => cases list.symm.trans list'
    | items list' wants =>
        cases list.symm.trans list'
        exact wants
    | plain single _ => exact absurd list (single _ _)
  · exact .items list

theorem lasting_wantsType (name : String) (x : Option (Node 1)) :
    Lasting fun I => I.WantsType name x := fun _ _ h hx => hx.mono h

theorem lasting_wantsProperty (parent : String) (p : String × Node 1) :
    Lasting fun I => I.WantsProperty parent p := fun _ _ h hp => hp.mono h

/-! ## Object types -/

/-- A compiler of objects inside `visiting` asks for what its objects want. -/
def AsksObjects (t : NodeTable n) (visiting : Visiting n) (object : Objects n) : Prop :=
  ∀ {z : Node n} {key properties required additional other}, t.Grounded z →
    t.resolve z = some (.object key properties required additional other) →
    Encloses t visiting (sizeOf z) → ∀ name,
    Asks t
      (fun I => I.WantsType name
        (some (Node.object key properties required additional other).shape))
      (object key properties required additional other name)

section

variable {visiting : Visiting n} {object : Objects n}

theorem AsksObjects.type (asks : AsksObjects t visiting object) (ht : t.Sound []) {z : Node n}
    (hz : t.Grounded z) (encloses : Encloses t visiting (sizeOf z)) (name : String) :
    Asks t (fun I => I.WantsType name z.shape.collapse) (typeWith t object z name) := by
  have concrete : ∀ y, t.resolve z = some y → y.IsConcrete :=
    fun y hy => (NodeTable.Stands.yields ⟨z, hz, hy⟩).settled ht |>.concrete
  rw [← NodeTable.resolve_shape hz]
  unfold typeWith
  generalize hx : t.resolve z = x at concrete
  cases x with
  | none => exact (asks_scalarName _).congr fun I => wantsType_iff_scalarOf nofun nofun concrete
  | some x =>
      cases x with
      | enumeration id values type => exact asks_compileEnum ht ⟨z, hz, hx⟩ name
      | object key properties required additional other =>
          exact asks hz hx encloses name
      | _ => exact (asks_scalarName _).congr fun I => wantsType_iff_scalarOf nofun nofun concrete

theorem AsksObjects.field (asks : AsksObjects t visiting object) (ht : t.Sound []) {z : Node n}
    (hz : t.Grounded z) (encloses : Encloses t visiting (sizeOf z)) (required : List String)
    (parent name : String) :
    Asks t (fun I => I.WantsProperty parent (name, z.shape))
      (fieldWith t object required parent name z) := by
  have shape : (name, z.shape).2.collapse = (t.resolve z).map Node.shape :=
    (NodeTable.resolve_shape hz).symm
  have concrete : ∀ y, t.resolve z = some y → y.IsConcrete :=
    fun y hy => (NodeTable.Stands.yields ⟨z, hz, hy⟩).settled ht |>.concrete
  unfold fieldWith
  dsimp only
  generalize hx : t.resolve z = x at shape concrete
  cases x with
  | none =>
      apply ((asks_scalarName _).andThen (lasting_const _) fun _ => .pure _).congr
      intro I
      rw [wantsProperty_of_single (shape ▸ nofun), shape]
      exact wantsType_iff_scalarOf nofun nofun nofun
  | some x =>
      cases x with
      | enumeration id values type =>
          rw [Option.map_some, Node.shape_enumeration] at shape
          apply ((asks_compileEnum ht ⟨z, hz, hx⟩ _).andThen (lasting_wantsType _ _)
            fun _ => .pure _).congr
          intro I
          rw [wantsProperty_of_single (shape ▸ nofun), shape, Node.shape_enumeration]
      | scalar key type format =>
          rw [Option.map_some, Node.shape_scalar] at shape
          apply ((asks_scalarName _).andThen (lasting_const _) fun _ => .pure _).congr
          intro I
          rw [wantsProperty_of_single (shape ▸ nofun), shape, ← Node.shape_scalar]
          exact wantsType_iff_scalarOf nofun nofun concrete
      | array id items =>
          rw [Option.map_some, Node.shape_array] at shape
          cases items with
          | none =>
              apply (Asks.pure _).congr
              exact fun I => ⟨fun _ => .untyped shape, fun _ => trivial⟩
          | some items =>
              obtain ⟨grounded, lt⟩ := NodeTable.resolve_items hz hx
              apply ((asks.type ht grounded (encloses.mono (Nat.le_of_lt lt)) _).andThen
                (lasting_wantsType _ _) fun _ => .pure _).congr
              exact fun I => (wantsProperty_of_items shape).symm
      | object key properties required additional other =>
          rw [Option.map_some, Node.shape_object] at shape
          apply ((asks hz hx encloses _).andThen (lasting_wantsType _ _)
            fun _ => .pure _).congr
          intro I
          rw [wantsProperty_of_single (shape ▸ nofun), shape, Node.shape_object]
      | composite => exact (concrete _ rfl).elim
      | ref => exact (concrete _ rfl).elim

theorem AsksObjects.fields (asks : AsksObjects t visiting object) (ht : t.Sound [])
    {properties : List (String × Node n)}
    (inside : ∀ p ∈ properties, t.Grounded p.2 ∧ Encloses t visiting (sizeOf p.2))
    (required : List String) (parent : String) (fields : List Field) :
    Asks t (fun I => ∀ p ∈ properties, I.WantsProperty parent (p.1, p.2.shape))
      (fieldsWith t object required parent properties fields) := by
  induction properties generalizing fields with
  | nil =>
      apply (Asks.pure fields).congr
      simp
  | cons p rest ih =>
      obtain ⟨⟨hz, encloses⟩, inside⟩ := List.forall_mem_cons.mp inside
      apply ((asks.field ht hz encloses required parent p.1).bind
        (lasting_wantsProperty _ _) fun field => ih inside (appendField fields field)).congr
      intro I
      rw [List.forall_mem_cons]

end

theorem asks_compileObject (ht : t.Sound []) (visiting : Visiting n) :
    AsksObjects t visiting (compileObject t visiting) := by
  induction visiting using visiting_induction with
  | step visiting ih =>
      intro z key properties required additional other hz resolved encloses name
      obtain ⟨size, below⟩ := NodeTable.resolve_object hz resolved
      have fit := Source.fit_node ht ⟨z, hz, resolved⟩ trivial
      have inside : ∀ p ∈ properties,
          t.Grounded p.2 ∧ Encloses t ((key, name) :: visiting) (sizeOf p.2) :=
        fun p hp => ⟨(below p hp).1, encloses.cons size (below p hp).2 name⟩
      have inner : AsksObjects t ((key, name) :: visiting) _ :=
        ih key name (encloses.not_mem size)
      have fields := inner.fields ht inside required name []
      have defines : Asks t (fun I => I.WantsInside name
          (Source.shape (.node (.object key properties required additional other)))) (do
            let fields ←
              fieldsWith t (compileObject t ((key, name) :: visiting)) required name properties []
            modify (·.addType { name := name, fields := withSomeField fields })
            Pure.pure name) := by
        apply (fields.andThen _ _).congr
        · exact fun I => wantsInside_object.symm
        · intro I J h wants p hp
          exact (wants p hp).mono h
        · intro fields
          exact (asks_addType _).andThen (lasting_const _) fun _ => .pure name
      rw [compileObject_eq, if_neg (encloses.not_mem size)]
      refine ((asks_checkReserved name "type").bind (lasting_const _) fun _ =>
        asks_claim (a := name) ht fit rfl (fun _ => rfl) defines).congr ?_
      intro I
      rw [Node.shape_object, wantsType_object, ← Node.shape_object]
      rfl

/-! ## Page types and filters -/

theorem asks_compileConnection (ht : t.Sound []) (typeName : String) :
    Asks t
      (fun I => I.Supports "type" (typeName ++ "Connection")
        (.literal [.str "connection", .str typeName]))
      (compileConnection typeName) :=
  asks_claim (a := ()) ht (Source.fit_text "connection" typeName) rfl (fun _ => rfl)
    (asks_addType { name := typeName ++ "Connection", fields := connectionFields typeName })

theorem asks_get : Asks t (fun _ => True) (get : Compiling n (Registry n)) where
  meets opened r a r' hr h := by
    cases h
    exact ⟨.refl _, hr, trivial⟩
  succeeds I r _ _ hr := ⟨r, r, rfl, hr⟩

theorem asks_filterField? {p : String × Node n} (hp : t.Grounded p.2) (typeName : String) :
    Asks t (fun _ => Index.Mapped p.2.shape.collapse) (filterField? t typeName p) := by
  have nothing (D : Index → Prop) (given : ∀ I, D I) : Asks t D (Pure.pure none) :=
    (Asks.pure (none : Option Field)).congr fun I => iff_of_true trivial (given I)
  rw [← NodeTable.resolve_shape hp, filterField?]
  dsimp only
  cases t.resolve p.2 with
  | none => exact nothing _ fun _ => trivial
  | some x =>
      rw [Option.map_some]
      cases x with
      | scalar key type format =>
          rw [Node.shape_scalar]
          apply ((asks_scalarName _).andThen (lasting_const _) fun _ => .pure _).congr
          exact fun I => Iff.rfl
      | enumeration id values type =>
          rw [Node.shape_enumeration]
          exact asks_get.andThen (lasting_const _) fun _ => .pure _
      | array id items => exact nothing _ fun _ => by rw [Node.shape_array]; trivial
      | object key properties required additional other =>
          exact nothing _ fun _ => by rw [Node.shape_object]; trivial
      | composite id kind branches => exact nothing _ fun _ => by rw [Node.shape_composite]; trivial
      | ref id target => exact nothing _ fun _ => by rw [Node.shape_ref]; trivial

theorem asks_filterFields (typeName : String) {properties : List (String × Node n)}
    (grounded : ∀ p ∈ properties, t.Grounded p.2) (fields : List Field) :
    Asks t (fun _ => ∀ p ∈ properties, Index.Mapped p.2.shape.collapse)
      (filterFields t typeName properties fields) := by
  induction properties generalizing fields with
  | nil =>
      apply (Asks.pure fields).congr
      simp
  | cons p rest ih =>
      obtain ⟨hp, grounded⟩ := List.forall_mem_cons.mp grounded
      rw [filterFields]
      apply ((asks_filterField? hp typeName).bind (lasting_const _) _).congr
      · intro I
        rw [List.forall_mem_cons]
      · intro f
        cases f with
        | none => exact ih grounded fields
        | some f => exact ih grounded (appendField fields f)

/-- The filter asks for its own name only: its properties have been compiled before. -/
theorem asks_compileFilter (ht : t.Sound []) (typeName : String)
    {properties : List (String × Node n)} (grounded : ∀ p ∈ properties, t.Grounded p.2)
    (mapped : ∀ p ∈ properties, Index.Mapped p.2.shape.collapse) :
    Asks t
      (fun I => I.Supports "input" (typeName ++ "Filter")
        (.literal [.str "filter", .str typeName]))
      (compileFilter t properties typeName) := by
  have fields := (asks_filterFields typeName grounded commonFilterFields).congr
    (E := fun _ => True) fun _ => iff_of_true mapped trivial
  have defines : Asks t (fun _ => True) (do
      let fields ← filterFields t typeName properties commonFilterFields
      modify fun r => r.addType
        { name := typeName ++ "Filter", fields := fields, isInput := true }) :=
    fields.andThen (lasting_const _) fun _ => asks_addType _
  exact asks_claim (a := ()) ht (Source.fit_text "filter" typeName) rfl (fun _ => rfl) defines

end Compiling

end ResourceGraph
