import ResourceGraph.Proofs.Schema.Evaluation

/-!
# What a node table knows

Reading keeps a table in which every node is the node of its own raw object, and so is every node
inside it; a reference leads to an object that has a node or is still being read. After a reading
nothing is being read any more, so every reference leads to a node.
-/

namespace ResourceGraph

variable {n : Nat}

/-! ## Nodes inside a node -/

namespace Node

/-- The nodes directly inside a node. -/
def children : Node n → List (Node n)
  | .array _ items => items.toList
  | .composite _ _ branches => branches
  | .object _ properties _ additional _ => properties.map (·.2) ++ additional.toList
  | _ => []

/-- A property of a node and of every node inside it. -/
inductive All (P : Node n → Prop) : Node n → Prop
  | intro {x : Node n} (self : P x) (inside : ∀ y ∈ x.children, All P y) : All P x

theorem All.self {P : Node n → Prop} {x : Node n} (h : x.All P) : P x := by
  cases h with
  | intro self _ => exact self

theorem All.inside {P : Node n → Prop} {x : Node n} (h : x.All P) : ∀ y ∈ x.children, y.All P := by
  cases h with
  | intro _ inside => exact inside

theorem All.mono {P Q : Node n → Prop} (hPQ : ∀ y, P y → Q y) {x : Node n} (h : x.All P) :
    x.All Q := by
  induction h with
  | intro self _ ih => exact .intro (hPQ _ self) ih

theorem All.items {P : Node n → Prop} {i : Fin n} {items : Node n}
    (h : (Node.array i (some items)).All P) : items.All P :=
  h.inside _ (by simp [children])

theorem All.branch {P : Node n → Prop} {i : Fin n} {kind : CompositeKind} {branches : List (Node n)}
    (h : (Node.composite i kind branches).All P) : ∀ b ∈ branches, b.All P :=
  fun b hb => h.inside b hb

theorem All.property {P : Node n → Prop} {key : ObjectKey n} {properties : List (String × Node n)}
    {required : List String} {additional : Option (Node n)} {other : Value}
    (h : (Node.object key properties required additional other).All P) :
    ∀ p ∈ properties, p.2.All P :=
  fun _ hp => h.inside _ (List.mem_append_left _ (List.mem_map_of_mem hp))

/-- The raw object whose node this is. -/
def source? : Node n → Option (Fin n)
  | .scalar (.parsed i) _ _ => some i
  | .scalar (.serial _) _ _ => none
  | .enumeration i _ _ => some i
  | .array i _ => some i
  | .composite i _ _ => some i
  | .object (.parsed i) _ _ _ _ => some i
  | .object (.merged _) _ _ _ _ => none
  | .ref _ _ => none

/-- The properties of an object have distinct names. -/
def Distinct : Node n → Prop
  | .object _ properties _ _ _ => (Keyed.keys properties).Nodup
  | _ => True

/-- The node was read, not made from the branches of a composite. -/
def IsRead : Node n → Prop
  | .object (.merged _) _ _ _ _ => False
  | _ => True

theorem isRead_of_source {x : Node n} {i : Fin n} (h : x.source? = some i) : x.IsRead := by
  cases x with
  | object key _ _ _ _ =>
      cases key with
      | parsed _ => trivial
      | merged _ => cases h
  | _ => trivial

def IsRef : Node n → Prop
  | .ref _ _ => True
  | _ => False

end Node

/-! ## Tables -/

namespace NodeTable

theorem find?_eq_getElem (t : NodeTable n) (i : Fin n) : t.find? i = t.nodes[i.1] := rfl

@[simp] theorem find?_empty (i : Fin n) : (NodeTable.empty : NodeTable n).find? i = none := by
  simp [empty, find?_eq_getElem]

theorem find?_store (t : NodeTable n) (i j : Fin n) (x : Node n) :
    (t.store i x).find? j = if i = j then some x else t.find? j := by
  simp only [store, find?_eq_getElem, Vector.getElem_set, Fin.val_inj]

/-- The second table holds what the first one holds. -/
def Extends (t t' : NodeTable n) : Prop := ∀ i x, t.find? i = some x → t'.find? i = some x

theorem Extends.refl (t : NodeTable n) : t.Extends t := fun _ _ h => h

theorem Extends.trans {t t' t'' : NodeTable n} (h : t.Extends t') (h' : t'.Extends t'') :
    t.Extends t'' := fun i x hx => h' i x (h i x hx)

/-- What a table knows of a node while the objects `within` are being read: a reference leads into
the table or to one of these objects, any other node is in the table under its object. -/
def Knows (t : NodeTable n) (within : List (Fin n)) : Node n → Prop
  | .ref _ target => target ∈ within ∨ ∃ x, t.find? target = some x
  | x => (∀ i, x.source? = some i → t.find? i = some x) ∧ x.Distinct ∧ x.IsRead

theorem Knows.mono {t t' : NodeTable n} {within : List (Fin n)} (h : t.Extends t') {x : Node n}
    (hx : t.Knows within x) : t'.Knows within x := by
  cases x with
  | ref serial target => exact hx.imp_right fun ⟨y, hy⟩ => ⟨y, h _ _ hy⟩
  | _ => exact ⟨fun i hi => h _ _ (hx.1 i hi), hx.2⟩

/-- A node that is stored leaves the objects that are being read. -/
theorem Knows.store {t : NodeTable n} {within : List (Fin n)} {i : Fin n} {x y : Node n}
    (hi : t.find? i = none) (hy : t.Knows (i :: within) y) : (t.store i x).Knows within y := by
  have keeps : t.Extends (t.store i x) := by
    intro j z hz
    rw [find?_store]
    split
    · rename_i hij; rw [hij, hz] at hi; cases hi
    · exact hz
  cases y with
  | ref serial target =>
      rcases hy with hy | ⟨z, hz⟩
      · rcases List.mem_cons.mp hy with rfl | hy
        · exact Or.inr ⟨x, by simp [find?_store]⟩
        · exact Or.inl hy
      · exact Or.inr ⟨z, keeps _ _ hz⟩
  | _ => exact ⟨fun j hj => keeps _ _ (hy.1 j hj), hy.2⟩

/-- Every node of the table is the node of its object and is known with all that is inside it. -/
def Sound (t : NodeTable n) (within : List (Fin n)) : Prop :=
  ∀ i x, t.find? i = some x → x.source? = some i ∧ x.All (t.Knows within)

theorem sound_empty (within : List (Fin n)) : (NodeTable.empty : NodeTable n).Sound within := by
  intro i x hx
  simp at hx

theorem Sound.cons {t : NodeTable n} {within : List (Fin n)} (h : t.Sound within) (i : Fin n) :
    t.Sound (i :: within) := by
  intro j x hx
  refine ⟨(h j x hx).1, (h j x hx).2.mono fun y hy => ?_⟩
  cases y with
  | ref serial target => exact hy.imp_left (List.mem_cons_of_mem i)
  | _ => exact hy

/-- A node whose inside is known may be stored under its object. -/
theorem Sound.store {t : NodeTable n} {within : List (Fin n)} {i : Fin n} {x : Node n}
    (h : t.Sound (i :: within)) (hi : t.find? i = none) (hs : x.source? = some i)
    (hd : x.Distinct) (hx : ∀ y ∈ x.children, y.All (t.Knows (i :: within))) :
    (t.store i x).Sound within ∧ x.All ((t.store i x).Knows within) := by
  have self : (t.store i x).Knows within x := by
    cases x with
    | ref serial target => simp [Node.source?] at hs
    | _ => exact ⟨fun j hj => by rw [hs] at hj; cases hj; simp [find?_store], hd,
        Node.isRead_of_source hs⟩
  have all : x.All ((t.store i x).Knows within) :=
    .intro self fun y hy => (hx y hy).mono fun _ hz => hz.store hi
  refine ⟨fun j y hy => ?_, all⟩
  rw [find?_store] at hy
  split at hy
  · rename_i hij; cases hy; subst hij; exact ⟨hs, all⟩
  · exact ⟨(h j y hy).1, (h j y hy).2.mono fun _ hz => hz.store hi⟩

/-- A node of the table is no reference. -/
theorem Sound.not_ref {t : NodeTable n} {within : List (Fin n)} (h : t.Sound within) {i : Fin n}
    {x : Node n} (hx : t.find? i = some x) : ¬ x.IsRef := by
  cases x with
  | ref serial target => exact absurd (h i _ hx).1 (by simp [Node.source?])
  | _ => exact id

end NodeTable

/-! ## Readings -/

/-- The properties of an object have distinct names. -/
def Layout.Distinct : Layout n → Prop
  | .object properties _ _ _ => (Keyed.keys properties).Nodup
  | _ => True

namespace Layout

variable (g : RawGraph) (i : Fin g.size)

theorem objectOf_distinct : (objectOf g i).Distinct := by
  have properties : (Keyed.keys (propertiesOf g i)).Nodup := by
    unfold propertiesOf
    split
    · exact g.nodup _
    · exact List.nodup_nil
  unfold objectOf
  split <;> exact properties

theorem plainOf_distinct : (plainOf g i).Distinct := by
  unfold plainOf
  dsimp only
  split
  · trivial
  · split
    · split <;> trivial
    · split
      · exact objectOf_distinct g i
      · trivial

theorem ofObject_distinct : (ofObject g i).Distinct := by
  unfold ofObject
  split
  · trivial
  · split
    · trivial
    · exact plainOf_distinct g i

end Layout

namespace Parsing

/-- How a reading ends. -/
abbrev outcome {α : Type} (x : Parsing n α) (t : NodeTable n) :
    Except SchemaError α × NodeTable n := ExceptT.run x t

theorem outcome_bind {α β : Type} (x : Parsing n α) (f : α → Parsing n β) (t : NodeTable n) :
    outcome (x >>= f) t = match outcome x t with
      | (.ok a, t') => outcome (f a) t'
      | (.error e, t') => (.error e, t') := by
  show outcome (ExceptT.bind x f) t = _
  simp only [outcome, ExceptT.run, ExceptT.bind, ExceptT.mk, bind, StateT.bind]
  rcases x t with ⟨r, t'⟩
  cases r <;> rfl

theorem bind_eq_ok {α β : Type} {x : Parsing n α} {f : α → Parsing n β} {t t'' : NodeTable n}
    {b : β} : outcome (x >>= f) t = (.ok b, t'') ↔
      ∃ a t', outcome x t = (.ok a, t') ∧ outcome (f a) t' = (.ok b, t'') := by
  rw [outcome_bind]
  rcases outcome x t with ⟨r, t'⟩
  cases r with
  | ok a => exact ⟨fun h => ⟨a, t', rfl, h⟩, by rintro ⟨_, _, he, h⟩; cases he; exact h⟩
  | error e => simp

@[simp] theorem pure_eq_ok {α : Type} {a b : α} {t t' : NodeTable n} :
    outcome (pure a : Parsing n α) t = (.ok b, t') ↔ a = b ∧ t = t' := by
  show ((Except.ok a, t) : Except SchemaError α × NodeTable n) = _ ↔ _
  simp

@[simp] theorem lift_eq_ok {α : Type} {x : Except SchemaError α} {a : α} {t t' : NodeTable n} :
    outcome (liftM x : Parsing n α) t = (.ok a, t') ↔ x = .ok a ∧ t = t' := by
  show ((x, t) : Except SchemaError α × NodeTable n) = _ ↔ _
  simp

theorem map_eq_ok {α β : Type} {x : Parsing n α} {f : α → β} {t t' : NodeTable n} {b : β} :
    outcome (f <$> x) t = (.ok b, t') ↔ ∃ a, outcome x t = (.ok a, t') ∧ f a = b := by
  rw [map_eq_pure_bind, bind_eq_ok]
  simp

/-- What a reading does to the table: it keeps what is there, gives no node to an object that is
still being read, and leaves every node known. -/
structure Grown (within : List (Fin n)) (t t' : NodeTable n) : Prop where
  keeps : t.Extends t'
  spares : ∀ i ∈ within, t.find? i = none → t'.find? i = none
  sound : t'.Sound within

theorem Grown.refl {within : List (Fin n)} {t : NodeTable n} (ht : t.Sound within) :
    Grown within t t :=
  ⟨.refl t, fun _ _ h => h, ht⟩

theorem Grown.trans {within : List (Fin n)} {t t' t'' : NodeTable n} (h : Grown within t t')
    (h' : Grown within t' t'') : Grown within t t'' :=
  ⟨h.keeps.trans h'.keeps, fun i hi hn => h'.spares i hi (h.spares i hi hn), h'.sound⟩

/-- The number of the next node does not count. -/
theorem Grown.serial {within : List (Fin n)} {t : NodeTable n} (ht : t.Sound within) (k : Nat) :
    Grown within t { t with serial := k } :=
  ⟨fun _ _ h => h, fun _ _ h => h, fun i x hx => ⟨(ht i x hx).1, (ht i x hx).2.mono fun y hy => by
    cases y <;> exact hy⟩⟩

/-- A reader grows the table and gives nodes that are known with all that is inside. -/
def Grows (within : List (Fin n)) (read : RawValue n → Parsing n (Node n)) : Prop :=
  ∀ raw node t t', t.Sound within → outcome (read raw) t = (.ok node, t') →
    Grown within t t' ∧ node.All (t'.Knows within)

section

variable {within : List (Fin n)} {read : RawValue n → Parsing n (Node n)} {t t' : NodeTable n}

theorem Grows.items (reads : Grows within read) {items : List (RawValue n)}
    {nodes : List (Node n)} (ht : t.Sound within)
    (h : outcome (itemsWith read items) t = (.ok nodes, t')) :
    Grown within t t' ∧ ∀ y ∈ nodes, y.All (t'.Knows within) := by
  induction items generalizing nodes t with
  | nil =>
      obtain ⟨rfl, rfl⟩ := pure_eq_ok.mp h
      exact ⟨.refl ht, by simp⟩
  | cons raw rest ih =>
      simp only [itemsWith, bind_eq_ok] at h
      obtain ⟨x, t₁, hx, xs, t₂, hxs, h⟩ := h
      obtain ⟨rfl, rfl⟩ := pure_eq_ok.mp h
      obtain ⟨grown, all⟩ := reads _ _ _ _ ht hx
      obtain ⟨grown', all'⟩ := ih grown.sound hxs
      refine ⟨grown.trans grown', List.forall_mem_cons.mpr ⟨?_, all'⟩⟩
      exact all.mono fun _ hz => hz.mono grown'.keeps

theorem Grows.members (reads : Grows within read) {members : List (String × RawValue n)}
    {nodes : List (String × Node n)} (ht : t.Sound within)
    (h : outcome (membersWith read members) t = (.ok nodes, t')) :
    Grown within t t' ∧ Keyed.keys nodes = Keyed.keys members ∧
      ∀ p ∈ nodes, p.2.All (t'.Knows within) := by
  induction members generalizing nodes t with
  | nil =>
      obtain ⟨rfl, rfl⟩ := pure_eq_ok.mp h
      exact ⟨.refl ht, rfl, by simp⟩
  | cons m rest ih =>
      obtain ⟨k, raw⟩ := m
      simp only [membersWith, bind_eq_ok] at h
      obtain ⟨x, t₁, hx, xs, t₂, hxs, h⟩ := h
      obtain ⟨rfl, rfl⟩ := pure_eq_ok.mp h
      obtain ⟨grown, all⟩ := reads _ _ _ _ ht hx
      obtain ⟨grown', keys, all'⟩ := ih grown.sound hxs
      refine ⟨grown.trans grown', congrArg (k :: ·) keys, List.forall_mem_cons.mpr ⟨?_, all'⟩⟩
      exact all.mono fun _ hz => hz.mono grown'.keeps

theorem Grows.option (reads : Grows within read) {raw : Option (RawValue n)}
    {node : Option (Node n)} (ht : t.Sound within)
    (h : outcome (optionWith read raw) t = (.ok node, t')) :
    Grown within t t' ∧ ∀ y ∈ node.toList, y.All (t'.Knows within) := by
  cases raw with
  | none =>
      obtain ⟨rfl, rfl⟩ := pure_eq_ok.mp h
      exact ⟨.refl ht, by simp⟩
  | some raw =>
      obtain ⟨x, hx, rfl⟩ := map_eq_ok.mp h
      obtain ⟨grown, all⟩ := reads _ _ _ _ ht hx
      exact ⟨grown, by simpa using all⟩

/-- The node of an object is not in the table yet, but what is inside it is known. -/
theorem Grows.layout (reads : Grows within read) {i : Fin n} {layout : Layout n} {node : Node n}
    (ht : t.Sound within) (hd : layout.Distinct)
    (h : outcome (layoutWith read i layout) t = (.ok node, t')) :
    Grown within t t' ∧ node.source? = some i ∧ node.Distinct ∧
      ∀ y ∈ node.children, y.All (t'.Knows within) := by
  match layout with
  | .composite kind branches =>
      rw [layoutWith, bind_eq_ok] at h
      obtain ⟨xs, t₁, hxs, h⟩ := h
      obtain ⟨rfl, rfl⟩ := pure_eq_ok.mp h
      obtain ⟨grown, all⟩ := reads.items ht hxs
      exact ⟨grown, rfl, trivial, all⟩
  | .enumeration values type =>
      obtain ⟨rfl, rfl⟩ := pure_eq_ok.mp h
      exact ⟨.refl ht, rfl, trivial, fun y hy => by simp [Node.children] at hy⟩
  | .array none =>
      obtain ⟨rfl, rfl⟩ := pure_eq_ok.mp h
      exact ⟨.refl ht, rfl, trivial, fun y hy => by simp [Node.children] at hy⟩
  | .array (some items) =>
      rw [layoutWith, bind_eq_ok] at h
      obtain ⟨x, t₁, hx, h⟩ := h
      obtain ⟨rfl, rfl⟩ := pure_eq_ok.mp h
      obtain ⟨grown, all⟩ := reads _ _ _ _ ht hx
      exact ⟨grown, rfl, trivial, fun y hy => by
        simp [Node.children] at hy; exact hy ▸ all⟩
  | .object properties required additional other =>
      rw [layoutWith, bind_eq_ok] at h
      obtain ⟨extra, t₁, hextra, h⟩ := h
      obtain ⟨hg, inside⟩ := reads.option ht hextra
      simp only [bind_eq_ok, lift_eq_ok] at h
      obtain ⟨ps, t₂, hps, req, _, ⟨hreq, rfl⟩, h⟩ := h
      obtain ⟨rfl, rfl⟩ := pure_eq_ok.mp h
      obtain ⟨grown, keys, all⟩ := reads.members hg.sound hps
      refine ⟨hg.trans grown, rfl, (show (Keyed.keys ps).Nodup from keys ▸ hd), fun y hy => ?_⟩
      rcases List.mem_append.mp hy with hy | hy
      · obtain ⟨p, hp, rfl⟩ := List.mem_map.mp hy
        exact all p hp
      · exact (inside y hy).mono fun _ hz => hz.mono grown.keeps
  | .scalar type format =>
      obtain ⟨rfl, rfl⟩ := pure_eq_ok.mp h
      exact ⟨.refl ht, rfl, trivial, fun y hy => by simp [Node.children] at hy⟩

/-- An object that was not in the table is stored with its node. -/
theorem Grown.store {i : Fin n} {x : Node n} (grown : Grown (i :: within) t t')
    (hi : i ∉ within) (fresh : t.find? i = none) (hs : x.source? = some i) (hd : x.Distinct)
    (inside : ∀ y ∈ x.children, y.All (t'.Knows (i :: within))) :
    Grown within t (t'.store i x) ∧ x.All ((t'.store i x).Knows within) := by
  have spared := grown.spares i (List.mem_cons_self ..) fresh
  obtain ⟨sound, all⟩ := grown.sound.store spared hs hd inside
  refine ⟨⟨fun j y hy => ?_, fun j hj hn => ?_, sound⟩, all⟩
  · rw [NodeTable.find?_store]
    split
    · rename_i hij; rw [← hij, fresh] at hy; cases hy
    · exact grown.keeps j y hy
  · rw [NodeTable.find?_store]
    split
    · rename_i hij; exact absurd (hij ▸ hj) hi
    · exact grown.spares j (List.mem_cons_of_mem i hj) hn

end

variable {g : RawGraph}

/-- A value that is no object gives a new scalar. -/
theorem parse_leaf_grown {within : List (Fin g.size)} {raw : RawValue g.size} {node : Node g.size}
    {t t' : NodeTable g.size} (hraw : ∀ i, raw = .obj i → False) (ht : t.Sound within)
    (h : outcome (parse g within raw) t = (.ok node, t')) :
    Grown within t t' ∧ node.All (t'.Knows within) := by
  rw [parse, bind_eq_ok] at h
  · obtain ⟨k, t₁, hk, h⟩ := h
    cases hk
    obtain ⟨rfl, rfl⟩ := pure_eq_ok.mp h
    exact ⟨.serial ht _, .intro ⟨fun j hj => by simp [Node.source?] at hj, trivial, trivial⟩
      fun y hy => by simp [Node.children] at hy⟩
  · exact hraw

/-- Reading a value grows the table and gives a node that is known with all that is inside. -/
theorem parse_grows (within : List (Fin g.size)) : Grows within (parse g within) := by
  induction within using entering_induction with
  | step within ih =>
      intro raw node t t' ht h
      cases raw with
      | obj i =>
          rw [parse_obj, bind_eq_ok] at h
          obtain ⟨_, _, hget, h⟩ := h
          cases hget
          split at h
          · rename_i x hx
            obtain ⟨rfl, rfl⟩ := pure_eq_ok.mp h
            exact ⟨.refl ht, (ht i x hx).2⟩
          · rename_i fresh
            split at h
            · rename_i hi
              rw [bind_eq_ok] at h
              obtain ⟨k, t₁, hk, h⟩ := h
              cases hk
              obtain ⟨rfl, rfl⟩ := pure_eq_ok.mp h
              exact ⟨.serial ht _, .intro (Or.inl (List.contains_iff_mem.mp hi)) fun y hy => by
                simp [Node.children] at hy⟩
            · rename_i contained
              have hi : i ∉ within := mt List.contains_iff_mem.mpr contained
              simp only [bind_eq_ok] at h
              obtain ⟨x, t₁, hx, _, t₂, hmod, h⟩ := h
              cases hmod
              obtain ⟨rfl, rfl⟩ := pure_eq_ok.mp h
              obtain ⟨grown, hs, hd, inside⟩ :=
                (ih i hi).layout (ht.cons i) (Layout.ofObject_distinct g i) hx
              exact grown.store hi fresh hs hd inside
      | _ => exact parse_leaf_grown (by intro i hi; cases hi) ht h

/-- After a reading no object is being read: every reference leads to a node. -/
theorem run_grown {raw : RawValue g.size} {node : Node g.size} {t t' : NodeTable g.size}
    (ht : t.Sound []) (h : run g raw t = (.ok node, t')) :
    Grown [] t t' ∧ node.All (t'.Knows []) :=
  parse_grows [] _ _ _ _ ht h

/-- An object that has been read has its node in the table. -/
theorem run_find? {i : Fin g.size} {node : Node g.size} {t t' : NodeTable g.size}
    (h : run g (.obj i) t = (.ok node, t')) : t'.find? i = some node := by
  change outcome (parse g [] (.obj i)) t = (.ok node, t') at h
  rw [parse, bind_eq_ok] at h
  obtain ⟨_, _, hget, h⟩ := h
  cases hget
  split at h
  · rename_i x hx
    obtain ⟨rfl, rfl⟩ := pure_eq_ok.mp h
    exact hx
  · simp only [List.not_mem_nil, dite_false, bind_eq_ok] at h
    obtain ⟨x, t₁, -, _, t₂, hmod, h⟩ := h
    cases hmod
    obtain ⟨rfl, rfl⟩ := pure_eq_ok.mp h
    rw [NodeTable.find?_store, if_pos rfl]

end Parsing

end ResourceGraph
