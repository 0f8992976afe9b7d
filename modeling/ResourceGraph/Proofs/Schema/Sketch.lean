import Mathlib
import ResourceGraph.Proofs.Schema.Decision
import ResourceGraph.Proofs.Schema.Evaluation
import ResourceGraph.Proofs.Schema.Reading
import ResourceGraph.Proofs.Schema.Tracing

/-!
# Nodes and schemas, level by level

A raw schema can be read to a depth with no table and no record of what is being read, and a node
can be laid out to a depth by following its references. A sketch is the result of both: however the
graph of the schema is entered, and whatever was read before, the node of a raw schema has its
sketch to every depth.
-/

namespace ResourceGraph

variable {n : Nat}

/-- A schema to some depth, with the raw objects that it comes from. -/
inductive Sketch (n : Nat) where
  /-- What lies below the depth. -/
  | deeper
  | scalar (source : Option (Fin n)) (type format : Value)
  | enumeration (id : Fin n) (values : List Value) (type : Value)
  | array (id : Fin n) (items : Option (Sketch n))
  | composite (id : Fin n) (kind : CompositeKind) (branches : List (Sketch n))
  | object (id : Fin n) (properties : List (String × Sketch n)) (required : List String)
      (additional : Option (Sketch n)) (other : Value)

section

variable {α : Type} {m : Type → Type} [Monad m]

def optionally (f : α → m (Sketch n)) : Option α → m (Option (Sketch n))
  | none => return none
  | some a => return some (← f a)

def named (f : α → m (Sketch n)) (p : String × α) : m (String × Sketch n) :=
  return (p.1, ← f p.2)

end

def Layout.sketchBy (f : RawValue n → Except SchemaError (Sketch n)) (i : Fin n) :
    Layout n → Except SchemaError (Sketch n)
  | .composite kind branches => return .composite i kind (← branches.mapM f)
  | .enumeration values type => return .enumeration i values type
  | .array items => return .array i (← optionally f items)
  | .object properties required additional other => do
    let additional ← optionally f additional
    let properties ← properties.mapM (named f)
    return .object i properties (← required) additional other
  | .scalar type format => return .scalar (some i) type format

/-- Reads a raw schema to a depth. -/
def RawGraph.sketch (g : RawGraph) : Nat → RawValue g.size → Except SchemaError (Sketch g.size)
  | 0, _ => return .deeper
  | depth + 1, .obj i => (Layout.ofObject g i).sketchBy (g.sketch depth) i
  | _ + 1, _ => return .scalar none .null .null

/-- No object that is made from a composite has a sketch, and no reference that leads nowhere. -/
def Node.sketchBy (f : Node n → Option (Sketch n)) : Node n → Option (Sketch n)
  | .composite i kind branches => return .composite i kind (← branches.mapM f)
  | .enumeration i values type => return .enumeration i values type
  | .array i items => return .array i (← optionally f items)
  | .object (.parsed i) properties required additional other => do
    let additional ← optionally f additional
    let properties ← properties.mapM (named f)
    return .object i properties required additional other
  | .scalar (.parsed i) type format => return .scalar (some i) type format
  | .scalar (.serial _) type format => return .scalar none type format
  | .object (.merged _) _ _ _ _ => none
  | .ref _ _ => none

/-- Lays a node out to a depth, with the nodes that the references in it lead to. -/
def NodeTable.sketch (t : NodeTable n) : Nat → Node n → Option (Sketch n)
  | 0, _ => return .deeper
  | depth + 1, x => do (← t.deref x).sketchBy (t.sketch depth)

/-! ## One level -/

/-- The node is that of the raw value: it is in the table, or it leads into the table or to an
object that is being read. -/
inductive NodeTable.Denotes (t : NodeTable n) (within : List (Fin n)) : RawValue n → Node n → Prop
  | found {i : Fin n} {x : Node n} (h : t.find? i = some x) : Denotes t within (.obj i) x
  | back (serial : Nat) {i : Fin n} (h : i ∈ within ∨ ∃ x, t.find? i = some x) :
      Denotes t within (.obj i) (.ref serial i)
  | leaf {raw : RawValue n} (h : ∀ i, raw = .obj i → False) (serial : Nat) :
      Denotes t within raw (.scalar (.serial serial) .null .null)

/-- The node of a raw object with this layout, where the parts of the node are those of the raw
values in the layout. -/
inductive Layout.Makes (D : RawValue n → Node n → Prop) (i : Fin n) : Layout n → Node n → Prop
  | composite (kind : CompositeKind) {branches : List (RawValue n)} {xs : List (Node n)}
      (h : List.Forall₂ D branches xs) : Makes D i (.composite kind branches) (.composite i kind xs)
  | enumeration (values : List Value) (type : Value) :
      Makes D i (.enumeration values type) (.enumeration i values type)
  | array {items : Option (RawValue n)} {x : Option (Node n)} (h : Option.Rel D items x) :
      Makes D i (.array items) (.array i x)
  | object {properties : List (String × RawValue n)} {ps : List (String × Node n)}
      {required : Except SchemaError (List String)} {req : List String}
      {additional : Option (RawValue n)} {extra : Option (Node n)} (other : Value)
      (h : List.Forall₂ (fun p q => p.1 = q.1 ∧ D p.2 q.2) properties ps)
      (hreq : required = .ok req) (hextra : Option.Rel D additional extra) :
      Makes D i (.object properties required additional other)
        (.object (.parsed i) ps req extra other)
  | scalar (type format : Value) : Makes D i (.scalar type format) (.scalar (.parsed i) type format)

theorem optionRel_mono {α β : Type} {D D' : α → β → Prop} (h : ∀ a b, D a b → D' a b)
    {a : Option α} {b : Option β} (hab : Option.Rel D a b) : Option.Rel D' a b := by
  cases hab with
  | none => exact .none
  | some hd => exact .some (h _ _ hd)

theorem Layout.Makes.mono {D D' : RawValue n → Node n → Prop} (h : ∀ raw x, D raw x → D' raw x)
    {i : Fin n} {l : Layout n} {x : Node n} (hm : l.Makes D i x) : l.Makes D' i x := by
  cases hm with
  | composite kind hb => exact .composite kind (hb.imp h)
  | enumeration values type => exact .enumeration values type
  | array hi => exact .array (optionRel_mono h hi)
  | object other hp hreq hextra =>
      exact .object other (hp.imp fun _ _ hd => ⟨hd.1, h _ _ hd.2⟩) hreq (optionRel_mono h hextra)
  | scalar type format => exact .scalar type format

namespace NodeTable

variable {t t' : NodeTable n} {within : List (Fin n)}

theorem Denotes.mono (h : t.Extends t') {raw : RawValue n} {x : Node n}
    (hx : t.Denotes within raw x) : t'.Denotes within raw x := by
  cases hx with
  | found hf => exact .found (h _ _ hf)
  | back serial hb => exact .back serial (hb.imp_right fun ⟨y, hy⟩ => ⟨y, h _ _ hy⟩)
  | leaf hl serial => exact .leaf hl serial

theorem Denotes.cons {raw : RawValue n} {x : Node n} (hx : t.Denotes within raw x) (i : Fin n) :
    t.Denotes (i :: within) raw x := by
  cases hx with
  | found hf => exact .found hf
  | back serial hb => exact .back serial (hb.imp_left (List.mem_cons_of_mem i))
  | leaf hl serial => exact .leaf hl serial

theorem extends_store {i : Fin n} (none : t.find? i = none) (x : Node n) :
    t.Extends (t.store i x) := by
  intro j y hy
  rw [find?_store, if_neg]
  · exact hy
  · rintro rfl
    rw [none] at hy
    cases hy

theorem Denotes.store {i : Fin n} (none : t.find? i = none) (x : Node n) {raw : RawValue n}
    {y : Node n} (hy : t.Denotes (i :: within) raw y) : (t.store i x).Denotes within raw y := by
  have keeps := extends_store none x
  cases hy with
  | found hf => exact .found (keeps _ _ hf)
  | leaf hl serial => exact .leaf hl serial
  | back serial hb =>
      refine .back serial ?_
      rcases hb with hb | ⟨z, hz⟩
      · rcases List.mem_cons.mp hb with rfl | hb
        · exact Or.inr ⟨x, by rw [find?_store, if_pos rfl]⟩
        · exact Or.inl hb
      · exact Or.inr ⟨z, keeps _ _ hz⟩

/-- Every node of the table is made from the layout of its object. -/
def Reflects (g : RawGraph) (t : NodeTable g.size) (within : List (Fin g.size)) : Prop :=
  ∀ i x, t.find? i = some x → (Layout.ofObject g i).Makes (t.Denotes within) i x

variable {g : RawGraph}

theorem reflects_empty (within : List (Fin g.size)) : Reflects g .empty within := by
  intro i x hx
  rw [find?_empty] at hx
  cases hx

theorem Reflects.store {t : NodeTable g.size} {within : List (Fin g.size)} {i : Fin g.size}
    {x : Node g.size} (h : t.Reflects g (i :: within)) (none : t.find? i = none)
    (hx : (Layout.ofObject g i).Makes (t.Denotes (i :: within)) i x) :
    (t.store i x).Reflects g within := by
  intro j y hy
  rw [find?_store] at hy
  split at hy
  · rename_i same
    cases same
    cases hy
    exact hx.mono fun _ _ hd => hd.store none x
  · exact (h j y hy).mono fun _ _ hd => hd.store none x

end NodeTable

/-! ## Reading keeps the levels right -/

namespace Parsing

variable {g : RawGraph} {within : List (Fin g.size)} {α β : Type}

/-- A reading that succeeds keeps the table right, and gives what is right in the table it
leaves. -/
def Ensures (g : RawGraph) (within : List (Fin g.size)) (x : Parsing g.size α)
    (D : NodeTable g.size → α → Prop) : Prop :=
  ∀ t a t', t.Sound within → t.Reflects g within → outcome x t = (.ok a, t') →
    Grown within t t' ∧ t'.Reflects g within ∧ D t' a

variable {D : NodeTable g.size → α → Prop} {D' : NodeTable g.size → β → Prop}

theorem ensures_pure (a : α) (h : ∀ t, D t a) : Ensures g within (pure a) D := by
  intro t b t' sound reflects run
  cases run
  exact ⟨.refl sound, reflects, h t⟩

theorem ensures_lift {x : Except SchemaError α} (h : ∀ a t, x = .ok a → D t a) :
    Ensures g within (liftM x) D := by
  intro t b t' sound reflects run
  obtain ⟨hx, rfl⟩ := lift_eq_ok.mp run
  exact ⟨.refl sound, reflects, h b t hx⟩

theorem ensures_serial (f : Nat → α) (h : ∀ t k, D t (f k)) :
    Ensures g within (do return f (← nextSerial)) D := by
  intro t b t' sound reflects run
  cases run
  have grown : Grown within t { t with serial := t.serial + 1 } := .serial sound _
  exact ⟨grown, fun i x hx => (reflects i x hx).mono fun _ _ hd => hd.mono grown.keeps, h _ _⟩

theorem Ensures.bind {x : Parsing g.size α} {f : α → Parsing g.size β} (hx : Ensures g within x D)
    (mono : ∀ t t' a, t.Extends t' → D t a → D t' a)
    (hf : ∀ a, Ensures g within (f a) fun t b => D t a → D' t b) :
    Ensures g within (x >>= f) D' := by
  intro t b t'' sound reflects run
  obtain ⟨a, t', first, second⟩ := bind_eq_ok.mp run
  obtain ⟨grown, reflects', ha⟩ := hx t a t' sound reflects first
  obtain ⟨grown', reflects'', hb⟩ := hf a t' b t'' grown.sound reflects' second
  exact ⟨grown.trans grown', reflects'', hb (mono _ _ a grown'.keeps ha)⟩

theorem denotes_mono (raw : RawValue g.size) (t t' : NodeTable g.size) (x : Node g.size)
    (h : t.Extends t') (hx : t.Denotes within raw x) : t'.Denotes within raw x := hx.mono h

theorem denotesItems_mono (items : List (RawValue g.size)) (t t' : NodeTable g.size)
    (xs : List (Node g.size)) (h : t.Extends t') (hx : List.Forall₂ (t.Denotes within) items xs) :
    List.Forall₂ (t'.Denotes within) items xs :=
  hx.imp fun _ _ hd => hd.mono h

/-- Members and the nodes of their values. -/
abbrev DenotesMembers (within : List (Fin n)) (ms : List (String × RawValue n)) (t : NodeTable n)
    (ps : List (String × Node n)) : Prop :=
  List.Forall₂ (fun p q => p.1 = q.1 ∧ t.Denotes within p.2 q.2) ms ps

theorem denotesMembers_mono (ms : List (String × RawValue g.size)) (t t' : NodeTable g.size)
    (ps : List (String × Node g.size)) (h : t.Extends t') (hx : DenotesMembers within ms t ps) :
    DenotesMembers within ms t' ps :=
  hx.imp fun _ _ hd => ⟨hd.1, hd.2.mono h⟩

theorem denotesOption_mono (raw : Option (RawValue g.size)) (t t' : NodeTable g.size)
    (x : Option (Node g.size)) (h : t.Extends t') (hx : Option.Rel (t.Denotes within) raw x) :
    Option.Rel (t'.Denotes within) raw x :=
  optionRel_mono (fun _ _ hd => hd.mono h) hx

mutual

theorem parse_ensures (within : List (Fin g.size)) (raw : RawValue g.size) :
    Ensures g within (parse g within raw) fun t => t.Denotes within raw := by
  by_cases leaf : ∀ i, raw = .obj i → False
  · rw [parse]
    · exact ensures_serial (fun k => Node.scalar (.serial k) .null .null) fun t k =>
        NodeTable.Denotes.leaf leaf k
    · exact leaf
  · obtain ⟨i, rfl⟩ : ∃ i, raw = .obj i := by simpa using leaf
    intro t x t' sound reflects run
    cases found : t.find? i with
    | some y =>
        rw [parse_found found] at run
        cases run
        exact ⟨.refl sound, reflects, .found found⟩
    | none =>
        by_cases hi : i ∈ within
        · rw [parse, bind_eq_ok] at run
          obtain ⟨_, _, hget, run⟩ := run
          cases hget
          rw [found] at run
          dsimp only at run
          rw [dif_pos hi] at run
          have back : Ensures g within (do return .ref (← nextSerial) i) fun t =>
              t.Denotes within (.obj i) := ensures_serial (Node.ref · i) fun t k =>
                NodeTable.Denotes.back k (Or.inl hi)
          exact back t x t' sound reflects run
        · have := unseenFin_cons_lt hi
          have grown := (parse_grows within _ _ _ _ sound run).1
          rw [parse_fresh found hi] at run
          rcases hr : outcome (parseLayout g i (i :: within) (Layout.ofObject g i)) t
            with ⟨y | y, t₁⟩
          · rw [hr] at run
            cases run
          · rw [hr] at run
            cases run
            obtain ⟨inner, reflects₁, makes⟩ := parseLayout_ensures i (i :: within) _ t _ t₁
              (sound.cons i) (fun j z hz => (reflects j z hz).mono fun _ _ hd => hd.cons i) hr
            have fresh := inner.spares i (List.mem_cons_self ..) found
            refine ⟨grown, reflects₁.store fresh makes, .found ?_⟩
            rw [NodeTable.find?_store, if_pos rfl]
termination_by (unseenFin within, 0)
decreasing_by all_goals decreasing_with omega

theorem parseLayout_ensures (i : Fin g.size) (within : List (Fin g.size)) (layout : Layout g.size) :
    Ensures g within (parseLayout g i within layout) fun t => layout.Makes (t.Denotes within) i := by
  match layout with
  | .composite kind branches =>
      rw [parseLayout]
      exact (parseItems_ensures within branches).bind (denotesItems_mono branches) fun xs =>
        ensures_pure _ fun t hx => .composite kind hx
  | .enumeration values type =>
      rw [parseLayout]
      exact ensures_pure _ fun t => .enumeration values type
  | .array none =>
      rw [parseLayout]
      exact ensures_pure _ fun t => .array .none
  | .array (some items) =>
      rw [parseLayout]
      exact (parse_ensures within items).bind (denotes_mono items) fun x =>
        ensures_pure _ fun t hx => .array (.some hx)
  | .object properties required additional other =>
      have rest (extra : Option (Node g.size)) : Ensures g within (do
          let properties ← parseMembers g within properties
          let required ← (required : Parsing g.size (List String))
          return .object (.parsed i) properties required extra other) fun t x =>
            Option.Rel (t.Denotes within) additional extra →
              (Layout.object properties required additional other).Makes (t.Denotes within) i x :=
        (parseMembers_ensures within properties).bind (denotesMembers_mono properties) fun ps =>
          (ensures_lift fun req _ hreq => hreq).bind (fun _ _ _ _ h => h) fun req =>
            ensures_pure _ fun t hreq hps hextra => .object other hps hreq hextra
      cases additional with
      | none =>
          rw [parseLayout.eq_def]
          exact (ensures_pure none fun t => .none).bind (denotesOption_mono none) rest
      | some raw =>
          have extra : Ensures g within (some <$> parse g within raw) fun t =>
              Option.Rel (t.Denotes within) (some raw) := by
            rw [map_eq_pure_bind]
            exact (parse_ensures within raw).bind (denotes_mono raw) fun x =>
              ensures_pure _ fun t hx => .some hx
          rw [parseLayout.eq_def]
          exact extra.bind (denotesOption_mono (some raw)) rest
  | .scalar type format =>
      rw [parseLayout]
      exact ensures_pure _ fun t => .scalar type format
termination_by (unseenFin within, 2 + sizeOf layout)
decreasing_by all_goals simp_wf; omega

theorem parseItems_ensures (within : List (Fin g.size)) (items : List (RawValue g.size)) :
    Ensures g within (parseItems g within items) fun t => List.Forall₂ (t.Denotes within) items := by
  match items with
  | [] =>
      rw [parseItems]
      exact ensures_pure [] fun t => .nil
  | raw :: rest =>
      rw [parseItems]
      exact (parse_ensures within raw).bind (denotes_mono raw) fun x =>
        (parseItems_ensures within rest).bind (denotesItems_mono rest) fun xs =>
          ensures_pure (x :: xs) fun t hxs hx => .cons hx hxs
termination_by (unseenFin within, 1 + sizeOf items)
decreasing_by all_goals decreasing_with omega

theorem parseMembers_ensures (within : List (Fin g.size)) (ms : List (String × RawValue g.size)) :
    Ensures g within (parseMembers g within ms) (DenotesMembers within ms) := by
  match ms with
  | [] =>
      rw [parseMembers]
      exact ensures_pure [] fun t => .nil
  | (k, raw) :: rest =>
      rw [parseMembers]
      exact (parse_ensures within raw).bind (denotes_mono raw) fun x =>
        (parseMembers_ensures within rest).bind (denotesMembers_mono rest) fun xs =>
          ensures_pure ((k, x) :: xs) fun t hxs hx => .cons ⟨rfl, hx⟩ hxs
termination_by (unseenFin within, 1 + sizeOf ms)
decreasing_by all_goals decreasing_with omega

end

end Parsing

/-! ## Every depth -/

theorem mapM_agree {α β γ ε : Type} {D : α → β → Prop} {f : α → Except ε γ} {h : β → Option γ}
    (agree : ∀ a b, D a b → ∃ s, f a = .ok s ∧ h b = some s) {as : List α} {bs : List β}
    (hab : List.Forall₂ D as bs) : ∃ ss, as.mapM f = .ok ss ∧ bs.mapM h = some ss := by
  induction hab with
  | nil => exact ⟨[], rfl, rfl⟩
  | cons head _ ih =>
      obtain ⟨s, hf, hh⟩ := agree _ _ head
      obtain ⟨ss, hfs, hhs⟩ := ih
      refine ⟨s :: ss, ?_, ?_⟩
      · rw [List.mapM_cons, hf, hfs]
        rfl
      · rw [List.mapM_cons, hh, hhs]
        rfl

variable {D : RawValue n → Node n → Prop} {f : RawValue n → Except SchemaError (Sketch n)}
  {h : Node n → Option (Sketch n)}

theorem optionally_agree (agree : ∀ raw x, D raw x → ∃ s, f raw = .ok s ∧ h x = some s)
    {raw : Option (RawValue n)} {x : Option (Node n)} (hx : Option.Rel D raw x) :
    ∃ s, optionally f raw = .ok s ∧ optionally h x = some s := by
  cases hx with
  | none => exact ⟨none, rfl, rfl⟩
  | some hd =>
      obtain ⟨s, hf, hh⟩ := agree _ _ hd
      refine ⟨some s, ?_, ?_⟩
      · rw [optionally, hf]
        rfl
      · rw [optionally, hh]
        rfl

theorem named_agree (agree : ∀ raw x, D raw x → ∃ s, f raw = .ok s ∧ h x = some s)
    (p : String × RawValue n) (q : String × Node n) (hpq : p.1 = q.1 ∧ D p.2 q.2) :
    ∃ s, named f p = .ok s ∧ named h q = some s := by
  obtain ⟨s, hf, hh⟩ := agree _ _ hpq.2
  refine ⟨(p.1, s), ?_, ?_⟩
  · rw [named, hf]
    rfl
  · rw [named, hh, hpq.1]
    rfl

/-- A node made from a layout has its sketch if the parts have. -/
theorem Layout.Makes.sketch (agree : ∀ raw x, D raw x → ∃ s, f raw = .ok s ∧ h x = some s)
    {i : Fin n} {l : Layout n} {x : Node n} (makes : l.Makes D i x) :
    ∃ s, l.sketchBy f i = .ok s ∧ x.sketchBy h = some s := by
  cases makes with
  | composite kind hb =>
      obtain ⟨ss, hf, hh⟩ := mapM_agree agree hb
      refine ⟨.composite i kind ss, ?_, ?_⟩
      · rw [sketchBy, hf]
        rfl
      · rw [Node.sketchBy, hh]
        rfl
  | enumeration values type => exact ⟨_, rfl, rfl⟩
  | array hi =>
      obtain ⟨s, hf, hh⟩ := optionally_agree agree hi
      refine ⟨.array i s, ?_, ?_⟩
      · rw [sketchBy, hf]
        rfl
      · rw [Node.sketchBy, hh]
        rfl
  | @object _ _ _ req _ _ other hp hreq hextra =>
      obtain ⟨s, hf, hh⟩ := optionally_agree agree hextra
      obtain ⟨ss, hfs, hhs⟩ := mapM_agree (named_agree agree) hp
      refine ⟨.object i ss req s other, ?_, ?_⟩
      · rw [sketchBy, hf, hreq]
        show (List.mapM (named f) _ >>= _) = _
        rw [hfs]
        rfl
      · rw [Node.sketchBy, hh]
        show (List.mapM (named h) _ >>= _) = _
        rw [hhs]
        rfl
  | scalar type format => exact ⟨_, rfl, rfl⟩

namespace NodeTable

variable {g : RawGraph} {t : NodeTable g.size}

/-- The node of a raw value leads to a node of the table, or the raw value is no object. -/
theorem Denotes.deref {raw : RawValue g.size} {x : Node g.size} (sound : t.Sound [])
    (h : t.Denotes [] raw x) :
    (∃ i y, raw = .obj i ∧ t.find? i = some y ∧ t.deref x = some y) ∨
      (∀ i, raw = .obj i → False) ∧ ∃ k, x = .scalar (.serial k) .null .null := by
  cases h with
  | @found i x hf =>
      refine Or.inl ⟨i, x, rfl, hf, ?_⟩
      cases x with
      | ref serial target => exact (sound.not_ref hf trivial).elim
      | _ => rfl
  | @back serial i hb =>
      obtain ⟨y, hy⟩ := hb.resolve_left nofun
      exact Or.inl ⟨i, y, rfl, hy, hy⟩
  | leaf hl serial => exact Or.inr ⟨hl, serial, rfl⟩

/-- A node of a raw value has the sketch of the raw value, to every depth. -/
theorem Denotes.sketch (sound : t.Sound []) (reflects : t.Reflects g []) (depth : Nat)
    {raw : RawValue g.size} {x : Node g.size} (h : t.Denotes [] raw x) :
    ∃ s, g.sketch depth raw = .ok s ∧ t.sketch depth x = some s := by
  induction depth generalizing raw x with
  | zero => exact ⟨.deeper, by rw [RawGraph.sketch]; rfl, by rw [NodeTable.sketch]; rfl⟩
  | succ depth ih =>
      rcases h.deref sound with ⟨i, y, rfl, found, deref⟩ | ⟨leaf, k, rfl⟩
      · obtain ⟨s, hf, hh⟩ := (reflects i y found).sketch fun raw x hd => ih hd
        refine ⟨s, by rw [RawGraph.sketch, hf], ?_⟩
        rw [NodeTable.sketch, deref]
        exact hh
      · refine ⟨.scalar none .null .null, ?_, by rw [NodeTable.sketch]; rfl⟩
        rw [RawGraph.sketch]
        · rfl
        · exact leaf

end NodeTable

/-! ## A sequence of readings -/

/-- The node is the one node of the raw schema, and it is what the schema is to every depth. -/
structure Node.Refines (g : RawGraph) (t : NodeTable g.size) (raw : RawValue g.size)
    (x : Node g.size) : Prop where
  own : ∀ i, raw = .obj i → t.find? i = some x
  one : x.All fun y => ∀ i, y.source? = some i → t.find? i = some y
  leads : x.All fun y => ∀ serial i, y = .ref serial i → ∃ z, t.find? i = some z ∧ ¬ z.IsRef
  levels : ∀ depth, ∃ s, g.sketch depth raw = .ok s ∧ t.sketch depth x = some s

namespace Parsing

variable {g : RawGraph}

/-- What is known of the node that a reading gives. -/
structure Settled (t : NodeTable g.size) (raw : RawValue g.size) (x : Node g.size) : Prop where
  own : ∀ i, raw = .obj i → t.find? i = some x
  known : x.All (t.Knows [])
  denotes : t.Denotes [] raw x

theorem Settled.mono {raw : RawValue g.size} {t t' : NodeTable g.size} {x : Node g.size}
    (h : t.Extends t') (hx : Settled t raw x) : Settled t' raw x :=
  ⟨fun i hi => h i x (hx.own i hi), hx.known.mono fun _ hk => hk.mono h, hx.denotes.mono h⟩

theorem Settled.refines {raw : RawValue g.size} {t : NodeTable g.size} {x : Node g.size}
    (hx : Settled t raw x) (sound : t.Sound []) (reflects : t.Reflects g []) :
    x.Refines g t raw where
  own := hx.own
  one := hx.known.mono fun y hy i hi => by
    cases y with
    | ref serial target => cases hi
    | _ => exact hy.1 i hi
  leads := hx.known.mono fun y hy serial i same => by
    subst same
    obtain ⟨z, hz⟩ := hy.resolve_left nofun
    exact ⟨z, hz, sound.not_ref hz⟩
  levels depth := hx.denotes.sketch sound reflects depth

theorem run_ensures (raw : RawValue g.size) :
    Ensures g [] (parse g [] raw) fun t x => Settled t raw x := by
  intro t x t' sound reflects run
  obtain ⟨grown, reflects', denotes⟩ := parse_ensures [] raw t x t' sound reflects run
  exact ⟨grown, reflects', fun i hi => run_find? (hi ▸ run), (run_grown sound run).2, denotes⟩

theorem readings_ensures (raws : List (RawValue g.size)) :
    Ensures g [] (raws.mapM (parse g [])) fun t => List.Forall₂ (Settled t) raws := by
  induction raws with
  | nil => exact ensures_pure [] fun t => .nil
  | cons raw rest ih =>
      rw [List.mapM_cons]
      refine (run_ensures raw).bind (fun _ _ _ => Settled.mono) fun x => ?_
      refine ih.bind (fun _ _ _ h hx => hx.imp fun _ _ => Settled.mono h) fun xs => ?_
      exact ensures_pure (x :: xs) fun t hxs hx => .cons hx hxs

/-- The readings with one table refine the plain one. Over all of them every object is expanded at
most once, and it is expanded if and only if it has a node; what is returned for a schema is its
node, every reference inside leads to a node that is no reference, and to every depth the node is
what the schema is without table and references. -/
theorem readings_refine {raws : List (RawValue g.size)} {nodes : List (Node g.size)}
    {t : NodeTable g.size} (h : outcome (raws.mapM (parse g [])) .empty = (.ok nodes, t)) :
    (∃ trace, Tracing.outcome (raws.mapM (Tracing.parse g [])) .empty [] = (.ok nodes, (t, trace)) ∧
      trace.Nodup ∧ trace.length ≤ g.size ∧ ∀ i, i ∈ trace ↔ ∃ x, t.find? i = some x) ∧
    List.Forall₂ (fun raw x => x.Refines g t raw) raws nodes := by
  obtain ⟨trace, run, nodup, exactly⟩ := Tracing.readings_expand h
  have few := (List.subperm_of_subset nodup fun i _ => List.mem_finRange i).length_le
  rw [List.length_finRange] at few
  obtain ⟨grown, reflects, settled⟩ := readings_ensures raws .empty nodes t
    (NodeTable.sound_empty []) (NodeTable.reflects_empty []) h
  refine ⟨⟨trace, run, nodup, few, exactly⟩, settled.imp fun _ _ hx => ?_⟩
  exact hx.refines grown.sound reflects

end Parsing

/-- Persons with friends, who are persons. -/
abbrev RawGraph.friends : RawGraph where
  size := 3
  objects := #v[
    [("type", .str "object"), ("properties", .obj 1)],
    [("friends", .obj 2)],
    [("type", .str "array"), ("items", .obj 0)]]
  nodup := by
    intro i
    match i with
    | 0 => simp [Keyed.keys]
    | 1 => simp [Keyed.keys]
    | 2 => simp [Keyed.keys]

/-- The list of friends is read first, then the person who is in it. -/
theorem friends_read : ∃ t, Parsing.outcome
    ([.obj 2, .obj 0].mapM (Parsing.parse RawGraph.friends [])) .empty
      = (.ok [.array 2 (some (.object (.parsed 0) [("friends", .ref 0 2)] [] none .null)),
          .object (.parsed 0) [("friends", .ref 0 2)] [] none .null], t) := by
  refine ⟨_, Prod.ext ?_ rfl⟩
  rw [Parsing.parse_eq_upTo (unseenFin_nil_le _)]
  decide +kernel

theorem friends_refine : ∃ list person t trace,
    Parsing.outcome ([.obj 2, .obj 0].mapM (Parsing.parse RawGraph.friends [])) .empty
      = (.ok [list, person], t) ∧
    Tracing.outcome ([.obj 2, .obj 0].mapM (Tracing.parse RawGraph.friends [])) .empty []
      = (.ok [list, person], (t, trace)) ∧ trace.Nodup ∧
    list.Refines RawGraph.friends t (.obj 2) ∧ person.Refines RawGraph.friends t (.obj 0) := by
  obtain ⟨t, run⟩ := friends_read
  obtain ⟨⟨trace, traced, nodup, -⟩, refines⟩ := Parsing.readings_refine run
  cases refines with
  | cons list rest =>
      cases rest with
      | cons person _ => exact ⟨_, _, t, trace, run, traced, nodup, list, person⟩

end ResourceGraph
