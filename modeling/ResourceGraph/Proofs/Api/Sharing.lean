import Mathlib
import ResourceGraph.Proofs.Api.Walk
import ResourceGraph.Proofs.Schema.Trees

/-!
# Sharing does not matter

Two compilations of the same trees go hand in hand, whichever parts of the trees are one object and
whichever are copies: their nodes have the same shapes, so they read the same, resolve alike, and
ask for the same names with sources of one shape. The outcome is the same, also where it is a
failure.
-/

namespace ResourceGraph

variable {n m : Nat}

/-! ## Sources of one shape -/

namespace Source

def shape : Source n → Source 1
  | .absent => .absent
  | .literal items => .literal items
  | .node x => .node x.shape

/-- A source that is a node stands in the table. -/
def Stands (t : NodeTable n) : Source n → Prop
  | .node x => t.Stands x ∧ x.Definable
  | _ => True

/-- Whether two shapes of sources are equal. -/
def sameShape : Source 1 → Source 1 → Bool
  | .absent, .absent => true
  | .literal xs, .literal ys => Value.looseEqItems xs ys
  | .node x, .node y => x.looseEq y
  | _, _ => false

theorem same_shape {t : NodeTable n} (ht : t.Sound []) {s s' : Source n} (hs : s.Stands t)
    (hs' : s'.Stands t) : s.same s' = sameShape s.shape s'.shape := by
  cases s with
  | node x =>
      cases s' with
      | node y => exact NodeTable.sameOrEqual_shape ht hs.1.yields hs'.1.yields hs.1.plain hs.2
      | _ => rfl
  | _ => cases s' <;> rfl

/-- Whether the comparison of two shapes of sources never ends. -/
def EndlessShape : Source 1 → Source 1 → Prop
  | .literal xs, .literal ys => Value.compareItems xs ys = .endless
  | .node x, .node y => Node.compare false x y = .endless
  | _, _ => False

theorem endless_shape {t : NodeTable n} (ht : t.Sound []) {s s' : Source n} (hs : s.Stands t)
    (hs' : s'.Stands t) : s.compare s' = .endless ↔ EndlessShape s.shape s'.shape := by
  cases s with
  | node x =>
      cases s' with
      | node y => exact NodeTable.compareOnce_shape ht hs.1.yields hs'.1.yields hs.1.plain hs.2
      | _ => exact iff_of_false nofun id
  | absent => cases s' <;> exact iff_of_false nofun id
  | literal items =>
      cases s' with
      | literal items' => exact Iff.rfl
      | _ => exact iff_of_false nofun id

/-- Sources of one shape, each in its table. -/
structure Twins (t : NodeTable n) (t' : NodeTable m) (s : Source n) (s' : Source m) : Prop where
  shape : s.shape = s'.shape
  left : s.Stands t
  right : s'.Stands t'

variable {t : NodeTable n} {t' : NodeTable m}

theorem twins_literal (items : List Value) : Twins t t' (.literal items) (.literal items) :=
  ⟨rfl, trivial, trivial⟩

theorem twins_enumeration {id : Fin n} {id' : Fin m} {values : List Value} {type : Value}
    (left : t.Stands (.enumeration id values type))
    (right : t'.Stands (.enumeration id' values type)) :
    Twins t t' (.node (.enumeration id values type)) (.node (.enumeration id' values type)) :=
  ⟨by simp [shape], ⟨left, trivial⟩, ⟨right, trivial⟩⟩

theorem twins_object {key : ObjectKey n} {key' : ObjectKey m}
    {properties : List (String × Node n)} {properties' : List (String × Node m)}
    {required : List String} {additional : Option (Node n)} {additional' : Option (Node m)}
    {other : Value} (same : NodeTable.TwinProperties properties properties')
    (extra : additional.map Node.shape = additional'.map Node.shape)
    (left : t.Stands (.object key properties required additional other))
    (right : t'.Stands (.object key' properties' required additional' other)) :
    Twins t t' (.node (.object key properties required additional other))
      (.node (.object key' properties' required additional' other)) := by
  refine ⟨?_, ⟨left, trivial⟩, ⟨right, trivial⟩⟩
  rw [shape, shape, Node.shape_object, Node.shape_object,
    NodeTable.shapes_of_twinProperties same, extra]

end Source

/-! ## Registries of one shape -/

namespace Registry

/-- The same definitions, for names that were claimed with sources of one shape. -/
structure Mirrors (t : NodeTable n) (t' : NodeTable m) (r : Registry n) (r' : Registry m) :
    Prop where
  api : r.api = r'.api
  sources : Keyed.mapEntries (fun s => (s.1, s.2.shape)) r.sources
    = Keyed.mapEntries (fun s => (s.1, s.2.shape)) r'.sources
  left : ∀ p ∈ r.sources, p.2.2.Stands t
  right : ∀ p ∈ r'.sources, p.2.2.Stands t'

variable {t : NodeTable n} {t' : NodeTable m} {r : Registry n} {r' : Registry m}
  {s : Source n} {s' : Source m}

/-- A name is claimed on both sides or on none, with sources of one shape. -/
theorem Mirrors.found (h : Mirrors t t' r r') (name : String) :
    Keyed.find? name r.sources = none ∧ Keyed.find? name r'.sources = none ∨
      ∃ kind source source', Keyed.find? name r.sources = some (kind, source) ∧
        Keyed.find? name r'.sources = some (kind, source') ∧ Source.Twins t t' source source' := by
  have found := congrArg (Keyed.find? name) h.sources
  rw [Keyed.find?_mapEntries, Keyed.find?_mapEntries] at found
  cases hf : Keyed.find? name r.sources with
  | none =>
      cases hf' : Keyed.find? name r'.sources with
      | none => exact Or.inl ⟨rfl, rfl⟩
      | some existing' => simp [hf, hf'] at found
  | some existing =>
      cases hf' : Keyed.find? name r'.sources with
      | none => simp [hf, hf'] at found
      | some existing' =>
          simp only [hf, hf', Option.map_some, Option.some.injEq, Prod.mk.injEq] at found
          obtain ⟨kinds, shapes⟩ := found
          exact Or.inr ⟨existing.1, existing.2, existing'.2, rfl, by rw [kinds], shapes,
            h.left _ (Keyed.mem_of_find? hf), h.right _ (Keyed.mem_of_find? hf')⟩

/-- Whether a name may be used is the same on both sides. -/
theorem Mirrors.isClaimed (ht : t.Sound []) (ht' : t'.Sound []) (h : Mirrors t t' r r')
    (hs : Source.Twins t t' s s') (name kind : String) :
    r.isClaimed name kind s = r'.isClaimed name kind s' := by
  unfold Registry.isClaimed
  rcases h.found name with ⟨none, none'⟩ | ⟨existingKind, source, source', found, found', twins⟩
  · rw [none, none']
  · rw [found, found']
    dsimp only
    rw [Source.same_shape ht twins.left hs.left, Source.same_shape ht' twins.right hs.right,
      twins.shape, hs.shape]

theorem Mirrors.comparesEndlessly (ht : t.Sound []) (ht' : t'.Sound []) (h : Mirrors t t' r r')
    (hs : Source.Twins t t' s s') (name kind : String) :
    r.comparesEndlessly name kind s = r'.comparesEndlessly name kind s' := by
  unfold Registry.comparesEndlessly
  rcases h.found name with ⟨none, none'⟩ | ⟨existingKind, source, source', found, found', twins⟩
  · rw [none, none']
  · rw [found, found']
    refine decide_eq_decide.mpr (and_congr_right' ?_)
    rw [Source.endless_shape ht twins.left hs.left, Source.endless_shape ht' twins.right hs.right,
      twins.shape, hs.shape]

/-- The answer to a request is the same on both sides. -/
theorem Mirrors.answer (ht : t.Sound []) (ht' : t'.Sound []) (h : Mirrors t t' r r')
    (hs : Source.Twins t t' s s') (name kind : String) :
    r.answer name kind s = r'.answer name kind s' := by
  rw [Registry.answer, Registry.answer, h.comparesEndlessly ht ht' hs, h.isClaimed ht ht' hs]

theorem Mirrors.claim (h : Mirrors t t' r r') (hs : Source.Twins t t' s s') (name kind : String) :
    Mirrors t t' (r.claim name kind s) (r'.claim name kind s') := by
  refine ⟨h.api, ?_, fun p hp => ?_, fun p hp => ?_⟩
  · show Keyed.mapEntries _ (Keyed.insert name (kind, s) r.sources)
      = Keyed.mapEntries _ (Keyed.insert name (kind, s') r'.sources)
    rw [Keyed.mapEntries_insert, Keyed.mapEntries_insert, h.sources, hs.shape]
  · rcases Keyed.mem_of_mem_insert hp with rfl | hp
    · exact hs.left
    · exact h.left p hp
  · rcases Keyed.mem_of_mem_insert hp with rfl | hp
    · exact hs.right
    · exact h.right p hp

theorem Mirrors.addEnum (h : Mirrors t t' r r') (e : EnumDef) :
    Mirrors t t' (r.addEnum e) (r'.addEnum e) :=
  ⟨by rw [Registry.addEnum, Registry.addEnum, h.api], h.sources, h.left, h.right⟩

theorem Mirrors.addType (h : Mirrors t t' r r') (d : TypeDef) :
    Mirrors t t' (r.addType d) (r'.addType d) :=
  ⟨by rw [Registry.addType, Registry.addType, h.api], h.sources, h.left, h.right⟩

theorem Mirrors.extends {u : NodeTable n} {u' : NodeTable m} (ht : t.Sound []) (hle : t.Extends u)
    (ht' : t'.Sound []) (hle' : t'.Extends u') (h : Mirrors t t' r r') : Mirrors u u' r r' := by
  refine ⟨h.api, h.sources, fun p hp => ?_, fun p hp => ?_⟩
  · have stands := h.left p hp
    cases hs : p.2.2 with
    | node x =>
        rw [hs] at stands
        exact ⟨stands.1.extends ht hle, stands.2⟩
    | _ => trivial
  · have stands := h.right p hp
    cases hs : p.2.2 with
    | node x =>
        rw [hs] at stands
        exact ⟨stands.1.extends ht' hle', stands.2⟩
    | _ => trivial

end Registry

/-! ## Compiling hand in hand -/

namespace Compiling

/-- From related registries both succeed with the same result and related registries, or both fail
alike. -/
def Alike {α : Type} (R : Registry n → Registry m → Prop) (x : Compiling n α)
    (y : Compiling m α) : Prop :=
  ∀ r r', R r r' →
    (∃ a s s', x.run r = .ok (a, s) ∧ y.run r' = .ok (a, s') ∧ R s s') ∨
      ∃ e, x.run r = .error e ∧ y.run r' = .error e

variable {α β : Type} {R : Registry n → Registry m → Prop}

theorem Alike.pure (a : α) : Alike R (Pure.pure a) (Pure.pure a) :=
  fun r r' h => Or.inl ⟨a, r, r', rfl, rfl, h⟩

theorem Alike.bind {x : Compiling n α} {y : Compiling m α} {f : α → Compiling n β}
    {f' : α → Compiling m β} (hx : Alike R x y) (hf : ∀ a, Alike R (f a) (f' a)) :
    Alike R (x >>= f) (y >>= f') := by
  intro r r' h
  rw [StateT.run_bind, StateT.run_bind]
  rcases hx r r' h with ⟨a, s, s', hs, hs', h⟩ | ⟨e, hs, hs'⟩
  · rw [hs, hs']
    exact hf a s s' h
  · rw [hs, hs']
    exact Or.inr ⟨e, rfl, rfl⟩

theorem Alike.modify {f : Registry n → Registry n} {f' : Registry m → Registry m}
    (h : ∀ r r', R r r' → R (f r) (f' r')) :
    Alike R (MonadStateOf.modifyGet fun r => (PUnit.unit, f r))
      (MonadStateOf.modifyGet fun r => (PUnit.unit, f' r)) :=
  fun r r' hr => Or.inl ⟨PUnit.unit, f r, f' r', rfl, rfl, h r r' hr⟩

theorem Alike.throw (e : CompileError) :
    Alike (α := α) R (MonadExceptOf.throw e) (MonadExceptOf.throw e) :=
  fun _ _ _ => Or.inr ⟨e, rfl, rfl⟩

theorem alike_checkReserved (name kind : String) :
    Alike R (checkReserved name kind) (checkReserved name kind) := by
  unfold checkReserved
  split
  · exact .throw _
  · exact .pure _

variable {t : NodeTable n} {t' : NodeTable m}

theorem alike_scalarName {x : Option (Node n)} {x' : Option (Node m)}
    (h : NodeTable.Twins t t' x x') : Alike R (scalarName t x) (scalarName t' x') := by
  unfold scalarName
  rw [h.scalarOf]
  split
  · exact .pure _
  · exact .throw _

theorem isClaimed_run (name kind : String) (s : Source n) (r : Registry n) :
    (isClaimed name kind s).run r = (r.answer name kind s).map fun claimed => (claimed, r) := by
  unfold isClaimed
  rw [StateT.run_bind, StateT.run_get, pure_bind]
  cases r.answer name kind s <;> rfl

theorem alike_isClaimed (ht : t.Sound []) (ht' : t'.Sound []) {s : Source n} {s' : Source m}
    (hs : Source.Twins t t' s s') (name kind : String) :
    Alike (Registry.Mirrors t t') (isClaimed name kind s) (isClaimed name kind s') := by
  intro r r' h
  rw [isClaimed_run, isClaimed_run, h.answer ht ht' hs]
  cases r'.answer name kind s' with
  | ok b => exact Or.inl ⟨b, r, r', rfl, rfl, h⟩
  | error e => exact Or.inr ⟨e, rfl, rfl⟩

theorem alike_compileEnum (ht : t.Sound []) (ht' : t'.Sound []) {id : Fin n} {id' : Fin m}
    {values : List Value} {type : Value} (left : t.Stands (.enumeration id values type))
    (right : t'.Stands (.enumeration id' values type)) (name : String) :
    Alike (Registry.Mirrors t t') (compileEnum id values type name)
      (compileEnum id' values type name) := by
  have twins := Source.twins_enumeration left right
  unfold compileEnum
  split
  · exact .pure _
  · refine (alike_checkReserved name "enum").bind fun _ => ?_
    refine (alike_isClaimed ht ht' twins name "enum").bind fun claimed => ?_
    cases claimed with
    | true => exact .pure _
    | false =>
        exact (Alike.modify fun r r' h => (h.claim twins name "enum").addEnum _).bind
          fun _ => .pure _

/-! ## Object types -/

/-- The objects under construction are larger than what is compiled inside them. -/
def Encloses (t : NodeTable n) (visiting : Visiting n) (bound : Nat) : Prop :=
  ∀ v ∈ visiting, bound < t.sizeAt v.1

theorem Encloses.not_mem {visiting : Visiting n} {bound : Nat} {key : ObjectKey n}
    (h : Encloses t visiting bound) (hk : t.sizeAt key ≤ bound) : key ∉ visiting.map (·.1) := by
  intro hm
  obtain ⟨v, hv, rfl⟩ := List.mem_map.mp hm
  exact Nat.lt_irrefl _ (Nat.lt_of_lt_of_le (h v hv) hk)

theorem Encloses.mono {visiting : Visiting n} {bound bound' : Nat}
    (h : Encloses t visiting bound) (hle : bound' ≤ bound) : Encloses t visiting bound' :=
  fun v hv => Nat.lt_of_le_of_lt hle (h v hv)

/-- What is smaller than an object may be compiled inside it. -/
theorem Encloses.cons {visiting : Visiting n} {bound size : Nat} {key : ObjectKey n}
    (h : Encloses t visiting bound) (hk : t.sizeAt key ≤ bound) (smaller : size < t.sizeAt key)
    (name : String) : Encloses t ((key, name) :: visiting) size := by
  refine List.forall_mem_cons.mpr ⟨smaller, fun v hv => ?_⟩
  exact Nat.lt_trans (Nat.lt_of_lt_of_le smaller hk) (h v hv)

/-- Compilers of objects, inside `visiting` and `visiting'`, compile objects that are twins alike. -/
def AlikeObjects (t : NodeTable n) (t' : NodeTable m) (visiting : Visiting n) (visiting' : Visiting m)
    (object : Objects n) (object' : Objects m) : Prop :=
  ∀ {z : Node n} {z' : Node m} {key key' properties properties' required additional additional'
    other}, t.Grounded z → t'.Grounded z' →
      t.resolve z = some (.object key properties required additional other) →
      t'.resolve z' = some (.object key' properties' required additional' other) →
      NodeTable.TwinProperties properties properties' →
      additional.map Node.shape = additional'.map Node.shape →
      Encloses t visiting (sizeOf z) → Encloses t' visiting' (sizeOf z') → ∀ name,
      Alike (Registry.Mirrors t t') (object key properties required additional other name)
        (object' key' properties' required additional' other name)

section

variable {visiting : Visiting n} {visiting' : Visiting m} {object : Objects n}
  {object' : Objects m}

theorem AlikeObjects.type (same : AlikeObjects t t' visiting visiting' object object') (ht : t.Sound [])
    (ht' : t'.Sound []) {z : Node n} {z' : Node m} (hz : t.Grounded z) (hz' : t'.Grounded z')
    (twin : z.shape = z'.shape) (encloses : Encloses t visiting (sizeOf z))
    (encloses' : Encloses t' visiting' (sizeOf z')) (name : String) :
    Alike (Registry.Mirrors t t') (typeWith t object z name) (typeWith t' object' z' name) := by
  have twins := NodeTable.twins_resolve ht hz hz' twin
  unfold typeWith
  generalize hx : t.resolve z = x at twins
  generalize hx' : t'.resolve z' = x' at twins
  cases twins with
  | enumeration left right => exact alike_compileEnum ht ht' left right name
  | object props extra left right => exact same hz hz' hx hx' props extra encloses encloses' name
  | none => exact alike_scalarName .none
  | scalar => exact alike_scalarName .scalar
  | untyped => exact alike_scalarName .untyped
  | array same => exact alike_scalarName (.array same)

theorem AlikeObjects.field (same : AlikeObjects t t' visiting visiting' object object') (ht : t.Sound [])
    (ht' : t'.Sound []) {z : Node n} {z' : Node m} (hz : t.Grounded z) (hz' : t'.Grounded z')
    (twin : z.shape = z'.shape) (encloses : Encloses t visiting (sizeOf z))
    (encloses' : Encloses t' visiting' (sizeOf z')) (required : List String)
    (parent name : String) :
    Alike (Registry.Mirrors t t') (fieldWith t object required parent name z)
      (fieldWith t' object' required parent name z') := by
  have twins := NodeTable.twins_resolve ht hz hz' twin
  unfold fieldWith
  dsimp only
  generalize hx : t.resolve z = x at twins
  generalize hx' : t'.resolve z' = x' at twins
  cases twins with
  | enumeration left right =>
      exact (alike_compileEnum ht ht' left right _).bind fun _ => .pure _
  | untyped => exact .pure _
  | @array id id' items items' twin =>
      obtain ⟨grounded, lt⟩ := NodeTable.resolve_items hz hx
      obtain ⟨grounded', lt'⟩ := NodeTable.resolve_items hz' hx'
      exact (same.type ht ht' grounded grounded' twin (encloses.mono (Nat.le_of_lt lt))
        (encloses'.mono (Nat.le_of_lt lt')) _).bind fun _ => .pure _
  | object props extra left right =>
      exact (same hz hz' hx hx' props extra encloses encloses' _).bind fun _ => .pure _
  | none => exact (alike_scalarName .none).bind fun _ => .pure _
  | scalar => exact (alike_scalarName .scalar).bind fun _ => .pure _

theorem AlikeObjects.fields (same : AlikeObjects t t' visiting visiting' object object') (ht : t.Sound [])
    (ht' : t'.Sound []) {properties : List (String × Node n)}
    {properties' : List (String × Node m)}
    (twins : NodeTable.TwinProperties properties properties')
    (inside : ∀ p ∈ properties, t.Grounded p.2 ∧ Encloses t visiting (sizeOf p.2))
    (inside' : ∀ p ∈ properties', t'.Grounded p.2 ∧ Encloses t' visiting' (sizeOf p.2))
    (required : List String) (parent : String) (fields : List Field) :
    Alike (Registry.Mirrors t t') (fieldsWith t object required parent properties fields)
      (fieldsWith t' object' required parent properties' fields) := by
  induction twins generalizing fields with
  | nil => exact .pure _
  | @cons p p' rest rest' head _ ih =>
      obtain ⟨name, node⟩ := p
      obtain ⟨name', node'⟩ := p'
      obtain ⟨rfl, twin⟩ : name = name' ∧ node.shape = node'.shape := head
      obtain ⟨⟨hz, encloses⟩, inside⟩ := List.forall_mem_cons.mp inside
      obtain ⟨⟨hz', encloses'⟩, inside'⟩ := List.forall_mem_cons.mp inside'
      exact (same.field ht ht' hz hz' twin encloses encloses' required parent name).bind
        fun field => ih inside inside' (appendField fields field)

end

/-- Objects that are twins compile alike. -/
theorem alike_compileObject (ht : t.Sound []) (ht' : t'.Sound []) (visiting : Visiting n)
    (visiting' : Visiting m) :
    AlikeObjects t t' visiting visiting' (compileObject t visiting) (compileObject t' visiting') := by
  induction visiting using visiting_induction generalizing visiting' with
  | step visiting ih =>
      intro z z' key key' properties properties' required additional additional' other hz hz'
        resolved resolved' same extra encloses encloses' name
      obtain ⟨size, below⟩ := NodeTable.resolve_object hz resolved
      obtain ⟨size', below'⟩ := NodeTable.resolve_object hz' resolved'
      have twins := Source.twins_object same extra ⟨z, hz, resolved⟩ ⟨z', hz', resolved'⟩
      rw [compileObject_eq, compileObject_eq, if_neg (encloses.not_mem size),
        if_neg (encloses'.not_mem size')]
      refine (alike_checkReserved name "type").bind fun _ => ?_
      refine (alike_isClaimed ht ht' twins name "type").bind fun claimed => ?_
      cases claimed with
      | true => exact .pure _
      | false =>
          refine (Alike.modify fun r r' h => h.claim twins name "type").bind fun _ => ?_
          have inside : ∀ p ∈ properties,
              t.Grounded p.2 ∧ Encloses t ((key, name) :: visiting) (sizeOf p.2) :=
            fun p hp => ⟨(below p hp).1, encloses.cons size (below p hp).2 name⟩
          have inside' : ∀ p ∈ properties',
              t'.Grounded p.2 ∧ Encloses t' ((key', name) :: visiting') (sizeOf p.2) :=
            fun p hp => ⟨(below' p hp).1, encloses'.cons size' (below' p hp).2 name⟩
          have inner : AlikeObjects t t' ((key, name) :: visiting) ((key', name) :: visiting') _ _ :=
            ih key name (encloses.not_mem size) ((key', name) :: visiting')
          refine (inner.fields ht ht' same inside inside' required name []).bind fun fields => ?_
          exact (Alike.modify fun r r' h => h.addType _).bind fun _ => .pure _

/-! ## Page types and filters -/

theorem alike_compileConnection (ht : t.Sound []) (ht' : t'.Sound []) (typeName : String) :
    Alike (Registry.Mirrors t t') (compileConnection typeName) (compileConnection typeName) := by
  have twins : Source.Twins t t' (.literal [.str "connection", .str typeName])
      (.literal [.str "connection", .str typeName]) := Source.twins_literal _
  unfold compileConnection
  refine (alike_isClaimed ht ht' twins _ _).bind fun claimed => ?_
  cases claimed with
  | true => exact .pure _
  | false => exact .modify fun r r' h => (h.claim twins _ _).addType _

theorem alike_filterField? (ht : t.Sound []) {p : String × Node n} {p' : String × Node m}
    (hp : t.Grounded p.2) (hp' : t'.Grounded p'.2) (same : p.1 = p'.1 ∧ p.2.shape = p'.2.shape)
    (typeName : String) :
    Alike (Registry.Mirrors t t') (filterField? t typeName p) (filterField? t' typeName p') := by
  have twins := NodeTable.twins_resolve ht hp hp' same.2
  unfold filterField?
  dsimp only
  rw [same.1]
  generalize t.resolve p.2 = x at twins
  generalize t'.resolve p'.2 = x' at twins
  cases twins with
  | enumeration left right =>
      intro r r' h
      refine Or.inl ⟨_, r, r', rfl, ?_, h⟩
      rw [h.api]
      rfl
  | scalar => exact (alike_scalarName .scalar).bind fun _ => .pure _
  | _ => exact .pure _

theorem alike_filterFields (ht : t.Sound []) {properties : List (String × Node n)}
    {properties' : List (String × Node m)}
    (same : NodeTable.TwinProperties properties properties')
    (grounded : ∀ p ∈ properties, t.Grounded p.2) (grounded' : ∀ p ∈ properties', t'.Grounded p.2)
    (typeName : String) (fields : List Field) :
    Alike (Registry.Mirrors t t') (filterFields t typeName properties fields)
      (filterFields t' typeName properties' fields) := by
  induction same generalizing fields with
  | nil => exact .pure _
  | cons head _ ih =>
      obtain ⟨hp, hrest⟩ := List.forall_mem_cons.mp grounded
      obtain ⟨hp', hrest'⟩ := List.forall_mem_cons.mp grounded'
      rw [filterFields, filterFields]
      refine (alike_filterField? ht hp hp' head typeName).bind fun field => ?_
      cases field with
      | none => exact ih hrest hrest' fields
      | some f => exact ih hrest hrest' (appendField fields f)

theorem alike_compileFilter (ht : t.Sound []) (ht' : t'.Sound [])
    {properties : List (String × Node n)} {properties' : List (String × Node m)}
    (same : NodeTable.TwinProperties properties properties')
    (grounded : ∀ p ∈ properties, t.Grounded p.2) (grounded' : ∀ p ∈ properties', t'.Grounded p.2)
    (typeName : String) :
    Alike (Registry.Mirrors t t') (compileFilter t properties typeName)
      (compileFilter t' properties' typeName) := by
  have twins : Source.Twins t t' (.literal [.str "filter", .str typeName])
      (.literal [.str "filter", .str typeName]) := Source.twins_literal _
  unfold compileFilter
  refine (alike_isClaimed ht ht' twins _ _).bind fun claimed => ?_
  cases claimed with
  | true => exact .pure _
  | false =>
      refine (Alike.modify fun r r' h => h.claim twins _ _).bind fun _ => ?_
      refine (alike_filterFields ht same grounded grounded' typeName _).bind fun fields => ?_
      exact .modify fun r r' h => h.addType _

end Compiling

/-! ## Resources -/

theorem mainSchema?_mapEntries {α β : Type} (f : α → β) (es : Keyed.Entries α)
    (singular : String) :
    mainSchema? (Keyed.mapEntries f es) singular = (mainSchema? es singular).map f := by
  unfold mainSchema?
  rw [Keyed.find?_mapEntries]
  cases Keyed.find? (Text.capitalize singular) es with
  | some a => rfl
  | none =>
      rw [Keyed.mapEntries, List.find?_map]
      simp [Function.comp_def]

theorem exists_of_mainSchema? {α : Type} {es : Keyed.Entries α} {singular : String} {a : α}
    (h : mainSchema? es singular = some a) : ∃ p ∈ es, p.2 = a := by
  unfold mainSchema? at h
  split at h
  · rename_i b hb
    cases h
    exact ⟨_, Keyed.mem_of_find? hb, rfl⟩
  · obtain ⟨p, hp, rfl⟩ := Option.map_eq_some_iff.mp h
    exact ⟨p, List.mem_of_find?_eq_some hp, rfl⟩

namespace Compilation

open Compiling

variable {g g' : RawGraph} {o : CompileOptions}

/-- Two compilations of the same trees. -/
structure Mirrors (c : Compilation g.size) (c' : Compilation g'.size) : Prop where
  sound : c.table.Sound []
  sound' : c'.table.Sound []
  reads : c.table.Reads g
  reads' : c'.table.Reads g'
  registry : Registry.Mirrors c.table c'.table c.registry c'.registry
  log : c.log = c'.log

/-- Both compilations go on as mirrors, or both fail alike. -/
def Alike {ε : Type} (x : Except ε (Compilation g.size)) (y : Except ε (Compilation g'.size)) :
    Prop :=
  (∃ c c', x = .ok c ∧ y = .ok c' ∧ Mirrors c c') ∨ ∃ e, x = .error e ∧ y = .error e

theorem mirrors_initial : Mirrors ({} : Compilation g.size) ({} : Compilation g'.size) where
  sound := NodeTable.sound_empty []
  sound' := NodeTable.sound_empty []
  reads := fun i x h => by simp at h
  reads' := fun i x h => by simp at h
  registry := ⟨rfl, rfl, by simp, by simp⟩
  log := rfl

theorem Mirrors.skip {c : Compilation g.size} {c' : Compilation g'.size} (h : Mirrors c c')
    (resource : String) (s : Skip) : Mirrors (c.skip resource s) (c'.skip resource s) :=
  { h with log := congrArg (· ++ _) h.log }

theorem alike_addObject {t : NodeTable g.size} {t' : NodeTable g'.size} (ht : t.Sound [])
    (ht' : t'.Sound []) {z : Node g.size} {z' : Node g'.size} (hz : t.Grounded z)
    (hz' : t'.Grounded z') {key : ObjectKey g.size} {key' : ObjectKey g'.size}
    {properties : List (String × Node g.size)} {properties' : List (String × Node g'.size)}
    {required : List String} {additional : Option (Node g.size)}
    {additional' : Option (Node g'.size)} {other : Value}
    (resolved : t.resolve z = some (.object key properties required additional other))
    (resolved' : t'.resolve z' = some (.object key' properties' required additional' other))
    (same : NodeTable.TwinProperties properties properties')
    (extra : additional.map Node.shape = additional'.map Node.shape)
    (names : ResourceNames) (resource : String) :
    Compiling.Alike (Registry.Mirrors t t')
      (addObject o t names resource key properties required additional other)
      (addObject o t' names resource key' properties' required additional' other) := by
  have stands : t.Stands _ := ⟨z, hz, resolved⟩
  have stands' : t'.Stands _ := ⟨z', hz', resolved'⟩
  have paths : t.stringPaths o.searchDepth ""
        (some (.object key properties required additional other))
      = t'.stringPaths o.searchDepth ""
        (some (.object key' properties' required additional' other)) :=
    (NodeTable.Twins.object same extra stands stands').stringPaths ht
  unfold addObject
  dsimp only
  rw [paths]
  refine (alike_compileObject ht ht' [] [] hz hz' resolved resolved' same extra
    (by simp [Encloses]) (by simp [Encloses]) names.typeName).bind fun _ => ?_
  refine (alike_compileConnection ht ht' names.typeName).bind fun _ => ?_
  refine (alike_compileFilter ht ht' same stands.properties stands'.properties
    names.typeName).bind fun _ => ?_
  refine .modify fun r r' h => ⟨?_, h.sources, h.left, h.right⟩
  exact congrArg (Api.addResource · _) h.api

/-- Values that unfold to one tree are read alike. -/
theorem Mirrors.run {c : Compilation g.size} {c' : Compilation g'.size} (h : Mirrors c c')
    {raw : RawValue g.size} {raw' : RawValue g'.size} (acyclic : g.Acyclic raw)
    (acyclic' : g'.Acyclic raw') (same : g.unfold raw = g'.unfold raw') :
    (∃ e t t', Parsing.run g raw c.table = (.error e, t) ∧
      Parsing.run g' raw' c'.table = (.error e, t')) ∨
    ∃ x t x' t', Parsing.run g raw c.table = (.ok x, t) ∧
      Parsing.run g' raw' c'.table = (.ok x', t') ∧ t.Grounded x ∧ t'.Grounded x' ∧
      x.shape = x'.shape ∧ Mirrors { c with table := t } { c' with table := t' } := by
  rcases hr : Parsing.run g raw c.table with ⟨e | x, t⟩
  · have read := same ▸ Parsing.run_error h.reads acyclic hr
    rcases hr' : Parsing.run g' raw' c'.table with ⟨e' | x', t'⟩
    · cases read.symm.trans (Parsing.run_error h.reads' acyclic' hr')
      exact Or.inl ⟨e, t, t', rfl, rfl⟩
    · cases read.symm.trans (Parsing.run_grounded h.sound' h.reads' acyclic' hr').1
  · obtain ⟨read, reads, grounded⟩ := Parsing.run_grounded h.sound h.reads acyclic hr
    have read := same ▸ read
    rcases hr' : Parsing.run g' raw' c'.table with ⟨e' | x', t'⟩
    · cases read.symm.trans (Parsing.run_error h.reads' acyclic' hr')
    · obtain ⟨read', reads', grounded'⟩ :=
        Parsing.run_grounded h.sound' h.reads' acyclic' hr'
      have grown := (Parsing.run_grown h.sound hr).1
      have grown' := (Parsing.run_grown h.sound' hr').1
      refine Or.inr ⟨x, t, x', t', rfl, rfl, grounded, grounded',
        Except.ok.inj (read.symm.trans read'), ?_⟩
      exact ⟨grown.sound, grown'.sound, reads, reads',
        h.registry.extends h.sound grown.keeps h.sound' grown'.keeps, h.log⟩

/-- A resource compiles alike from main schemas that unfold to one tree. -/
theorem alike_addMain {c : Compilation g.size} {c' : Compilation g'.size} (h : Mirrors c c')
    {spec : ResourceSpec g.size} {spec' : ResourceSpec g'.size} (named : spec.name = spec'.name)
    {raw : RawValue g.size} {raw' : RawValue g'.size}
    (main : mainSchema? spec.schemas (o.naming.singular spec.name) = some raw)
    (main' : mainSchema? spec'.schemas (o.naming.singular spec'.name) = some raw')
    (given : raw ≠ .null) (given' : raw' ≠ .null) (acyclic : g.Acyclic raw)
    (acyclic' : g'.Acyclic raw') (tree : g.unfold raw = g'.unfold raw') :
    Alike (c.addResource o spec) (c'.addResource o spec') := by
  rw [addResource_eq main given, addResource_eq main' given', named, h.registry.api]
  cases (ResourceNames.of o.naming spec'.name).conflict? c'.registry.api with
  | some s => exact Or.inl ⟨_, _, rfl, rfl, h.skip _ s⟩
  | none =>
      rcases h.run acyclic acyclic' tree with
        ⟨e, t, t', hr, hr'⟩ | ⟨x, t, x', t', hr, hr', grounded, grounded', shape, mirrors⟩
      · rw [hr, hr']
        exact Or.inr ⟨_, rfl, rfl⟩
      · rw [hr, hr']
        dsimp only
        have twins := NodeTable.twins_resolve mirrors.sound grounded grounded' shape
        generalize resolved : t.resolve x = y at twins
        generalize resolved' : t'.resolve x' = y' at twins
        have described := twins.describe
        cases twins with
        | object same extra left right =>
            dsimp only
            have alike := alike_addObject (o := o) mirrors.sound mirrors.sound' grounded grounded'
              resolved resolved' same extra (ResourceNames.of o.naming spec'.name) spec'.name
            rcases alike _ _ mirrors.registry with ⟨_, r, r', hadd, hadd', registry⟩ | ⟨e, hadd, hadd'⟩
            · rw [hadd, hadd']
              exact Or.inl ⟨_, _, rfl, rfl, { mirrors with registry := registry }⟩
            · rw [hadd, hadd']
              exact Or.inr ⟨e, rfl, rfl⟩
        | _ =>
            dsimp only
            rw [described]
            exact Or.inl ⟨_, _, rfl, rfl, mirrors.skip _ _⟩

/-- A resource compiles alike from schemas that unfold to the same trees. -/
theorem alike_addResource {c : Compilation g.size} {c' : Compilation g'.size} (h : Mirrors c c')
    {spec : ResourceSpec g.size} {spec' : ResourceSpec g'.size} (named : spec.name = spec'.name)
    (acyclic : ∀ p ∈ spec.schemas, g.Acyclic p.2) (acyclic' : ∀ p ∈ spec'.schemas, g'.Acyclic p.2)
    (same : Keyed.mapEntries g.unfold spec.schemas = Keyed.mapEntries g'.unfold spec'.schemas) :
    Alike (c.addResource o spec) (c'.addResource o spec') := by
  have mains : (mainSchema? spec.schemas (o.naming.singular spec.name)).map g.unfold
      = (mainSchema? spec'.schemas (o.naming.singular spec'.name)).map g'.unfold := by
    rw [← mainSchema?_mapEntries, ← mainSchema?_mapEntries, same, named]
  have without (main : mainSchema? spec.schemas (o.naming.singular spec.name) = none ∨
        mainSchema? spec.schemas (o.naming.singular spec.name) = some .null)
      (main' : mainSchema? spec'.schemas (o.naming.singular spec'.name) = none ∨
        mainSchema? spec'.schemas (o.naming.singular spec'.name) = some .null) :
      Alike (c.addResource o spec) (c'.addResource o spec') := by
    rw [addResource_none main, addResource_none main', named]
    exact Or.inl ⟨_, _, rfl, rfl, h.skip _ _⟩
  cases main : mainSchema? spec.schemas (o.naming.singular spec.name) with
  | none =>
      cases main' : mainSchema? spec'.schemas (o.naming.singular spec'.name) with
      | some raw' => simp [main, main'] at mains
      | none => exact without (Or.inl main) (Or.inl main')
  | some raw =>
      cases main' : mainSchema? spec'.schemas (o.naming.singular spec'.name) with
      | none => simp [main, main'] at mains
      | some raw' =>
          rw [main, main'] at mains
          have tree := Option.some.inj mains
          by_cases given : raw = .null
          · have given' : raw' = .null := by
              rw [given, g.unfold_null] at tree
              exact g'.unfold_eq_null_iff.mp tree.symm
            exact without (Or.inr (given ▸ main)) (Or.inr (given' ▸ main'))
          · have given' : raw' ≠ .null := fun given' => given (g.unfold_eq_null_iff.mp (by
              rw [tree, given', g'.unfold_null]))
            obtain ⟨p, hp, rfl⟩ := exists_of_mainSchema? main
            obtain ⟨p', hp', rfl⟩ := exists_of_mainSchema? main'
            exact alike_addMain h named main main' given given' (acyclic p hp) (acyclic' p' hp') tree

/-- The schemas of resources unfold to the same trees, name by name. -/
def SameTrees (spec : ResourceSpec g.size) (spec' : ResourceSpec g'.size) : Prop :=
  spec.name = spec'.name ∧
    Keyed.mapEntries g.unfold spec.schemas = Keyed.mapEntries g'.unfold spec'.schemas

theorem alike_addResources {specs : List (ResourceSpec g.size)}
    {specs' : List (ResourceSpec g'.size)} (same : List.Forall₂ SameTrees specs specs')
    (acyclic : ∀ spec ∈ specs, ∀ p ∈ spec.schemas, g.Acyclic p.2)
    (acyclic' : ∀ spec ∈ specs', ∀ p ∈ spec.schemas, g'.Acyclic p.2)
    {c : Compilation g.size} {c' : Compilation g'.size} (h : Mirrors c c') :
    Alike (addResources o specs c) (addResources o specs' c') := by
  induction same generalizing c c' with
  | nil => exact Or.inl ⟨c, c', rfl, rfl, h⟩
  | cons head _ ih =>
      obtain ⟨acyclic, acyclicRest⟩ := List.forall_mem_cons.mp acyclic
      obtain ⟨acyclic', acyclicRest'⟩ := List.forall_mem_cons.mp acyclic'
      rw [addResources, addResources]
      rcases alike_addResource (o := o) h head.1 acyclic acyclic' head.2 with
        ⟨d, d', hd, hd', mirrors⟩ | ⟨e, he, he'⟩
      · rw [hd, hd']
        exact ih acyclicRest acyclicRest' mirrors
      · rw [he, he', h.log]
        exact Or.inr ⟨_, rfl, rfl⟩

end Compilation

namespace Specs

/-- No schema has an object that contains itself. -/
def Acyclic (s : Specs) : Prop := ∀ spec ∈ s.specs, ∀ p ∈ spec.schemas, s.graph.Acyclic p.2

/-- The specifications as documents, each schema written out as a tree. -/
def documents (s : Specs) : List (String × Keyed.Entries Value) :=
  s.specs.map fun spec => (spec.name, Keyed.mapEntries s.graph.unfold spec.schemas)

theorem sameTrees_of_documents {s s' : Specs} (h : s.documents = s'.documents) :
    List.Forall₂ Compilation.SameTrees s.specs s'.specs := by
  have pairs := List.forall₂_eq_eq_eq ▸ h
  rw [documents, documents, List.forall₂_map_left_iff, List.forall₂_map_right_iff] at pairs
  exact pairs.imp fun _ _ same => Prod.mk.inj same

end Specs

/-- The outcome of a compilation depends on the documents alone, not on which of their objects are
shared: the same definitions, searchable paths and warnings, or the same failure after the same
warnings. -/
theorem compile_eq_of_documents (o : CompileOptions) {s s' : Specs} (acyclic : s.Acyclic)
    (acyclic' : s'.Acyclic) (same : s.documents = s'.documents) : compile o s = compile o s' := by
  have trees := Specs.sameTrees_of_documents same
  unfold compile
  rcases Compilation.alike_addResources (o := o) trees acyclic acyclic'
      Compilation.mirrors_initial with ⟨c, c', hc, hc', mirrors⟩ | ⟨e, he, he'⟩
  · rw [hc, hc']
    dsimp only
    rw [mirrors.registry.api, mirrors.log, trees.length_eq]
  · rw [he, he']

/-- Persons with an enumeration in two places, where it is one object. -/
def Specs.shared : Specs where
  graph :=
    { size := 5
      objects := #v[
        [("type", .str "object"), ("properties", .obj 1)],
        [("address", .obj 2), ("addressLine", .obj 4)],
        [("type", .str "object"), ("properties", .obj 3)],
        [("line", .obj 4)],
        [("enum", .arr [.str "street", .int 1])]]
      nodup := by decide }
  specs := [{ name := "persons", schemas := [("Person", .obj 0)] }]

/-- The same persons, where the enumeration is written down twice. -/
def Specs.copied : Specs where
  graph :=
    { size := 6
      objects := #v[
        [("type", .str "object"), ("properties", .obj 1)],
        [("address", .obj 2), ("addressLine", .obj 5)],
        [("type", .str "object"), ("properties", .obj 3)],
        [("line", .obj 4)],
        [("enum", .arr [.str "street", .int 1])],
        [("enum", .arr [.str "street", .int 1])]]
      nodup := by decide }
  specs := [{ name := "persons", schemas := [("Person", .obj 0)] }]

theorem Specs.shared_acyclic : Specs.shared.Acyclic :=
  fun _ _ _ _ => RawGraph.acyclic_of_forward (by decide) _

theorem Specs.copied_acyclic : Specs.copied.Acyclic :=
  fun _ _ _ _ => RawGraph.acyclic_of_forward (by decide) _

set_option maxRecDepth 4000 in
theorem Specs.shared_documents : Specs.shared.documents = Specs.copied.documents := by
  cbv

theorem compile_shared_eq_copied : Specs.shared.Acyclic ∧ Specs.copied.Acyclic ∧
    Specs.shared.documents = Specs.copied.documents ∧
    compile {} Specs.shared = compile {} Specs.copied :=
  ⟨Specs.shared_acyclic, Specs.copied_acyclic, Specs.shared_documents,
    compile_eq_of_documents {} Specs.shared_acyclic Specs.copied_acyclic Specs.shared_documents⟩

end ResourceGraph
