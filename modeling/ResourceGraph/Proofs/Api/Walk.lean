import ResourceGraph.Proofs.Api.Assembly
import ResourceGraph.Proofs.Api.Evaluation
import ResourceGraph.Proofs.Schema.Comparison

/-!
# Compilation takes these steps

Every successful compilation, of one object type as of all resources, is a run of an assembly. What
it gives back is read off the nodes alone, and the names in it have their sources in the registry.
-/

namespace ResourceGraph

variable {n : Nat}

/-! ## Registries that grow -/

namespace Registry

theorem Keeps.refl (r : Registry n) : r.Keeps r := fun _ _ h => h

theorem Keeps.trans {r r' r'' : Registry n} (h : r.Keeps r') (h' : r'.Keeps r'') : r.Keeps r'' :=
  fun name source hs => h' name source (h name source hs)

theorem Refers.keeps {r r' : Registry n} (h : r.Keeps r') {kind name : String} {x : Node n}
    (hx : r.Refers kind x name) : r'.Refers kind x name :=
  let ⟨source, hs, he⟩ := hx
  ⟨source, h _ _ hs, he⟩

theorem Provides.keeps {r r' : Registry n} (h : r.Keeps r') {x : Option (Node n)} {name : String}
    (hx : r.Provides x name) : r'.Provides x name := by
  unfold Provides at hx ⊢
  split
  · exact Refers.keeps h hx
  · exact Refers.keeps h hx
  · trivial

theorem Builds.keeps {r r' : Registry n} (h : r.Keeps r') {name : String} {key : ObjectKey n}
    (hn : r.Builds name key) : r'.Builds name key :=
  let ⟨properties, required, additional, other, hs⟩ := hn
  ⟨properties, required, additional, other, h _ _ hs⟩

theorem Claimed.keeps {r r' : Registry n} (h : r.Keeps r') {visiting : Visiting n}
    (hv : r.Claimed visiting) : r'.Claimed visiting := fun v hm => (hv v hm).keeps h

theorem Has.keeps {r r' : Registry n} (h : r.Keeps r') {kind name : String} (hn : r.Has kind name) :
    r'.Has kind name :=
  let ⟨source, hs⟩ := hn
  ⟨source, h _ _ hs⟩

theorem keeps_claim {r : Registry n} {name kind : String} {source : Source n}
    (h : Keyed.find? name r.sources = none) : r.Keeps (r.claim name kind source) := by
  intro other s hs
  show Keyed.find? other (Keyed.insert name (kind, source) r.sources) = some s
  rw [Keyed.find?_insert]
  split
  · rename_i he; rw [he, h] at hs; cases hs
  · exact hs

theorem find?_claim (r : Registry n) (name kind : String) (source : Source n) :
    Keyed.find? name (r.claim name kind source).sources = some (kind, source) := by
  show Keyed.find? name (Keyed.insert name (kind, source) r.sources) = _
  rw [Keyed.find?_insert, if_pos rfl]

theorem same_node_of_identity {x y : Node n} (h : x.identity = y.identity) :
    (Source.node x).same (.node y) = true := by
  simp [Source.same, Node.sameOrEqual, h]

/-- A name that was claimed is claimed by an equal source of the same kind. -/
theorem isClaimed_eq_true {r : Registry n} {name kind : String} {source : Source n}
    (h : r.isClaimed name kind source = .ok true) :
    ∃ existing, Keyed.find? name r.sources = some (kind, existing) ∧
      existing.same source = true := by
  unfold isClaimed at h
  split at h
  · cases h
  · rename_i existingKind existing he
    split at h
    · rename_i hs; exact ⟨existing, hs.1 ▸ he, hs.2⟩
    · cases h

theorem isClaimed_eq_false {r : Registry n} {name kind : String} {source : Source n}
    (h : r.isClaimed name kind source = .ok false) : Keyed.find? name r.sources = none := by
  unfold isClaimed at h
  split at h
  · assumption
  · split at h <;> cases h

end Registry

namespace Assembly

variable {g : RawGraph} {o : CompileOptions}

theorem Step.keeps {s s' : Assembly g.size} (h : Step g o s s') :
    s.registry.Keeps s'.registry := by
  cases h with
  | enumeration _ _ fresh => exact Registry.keeps_claim fresh
  | opening _ _ fresh => exact Registry.keeps_claim fresh
  | connection _ fresh => exact Registry.keeps_claim fresh
  | filter fresh => exact Registry.keeps_claim fresh
  | _ => exact .refl _

theorem Run.keeps {s s' : Assembly g.size} (h : Run g o s s') : s.registry.Keeps s'.registry :=
  h.invariant (P := fun s' => s.registry.Keeps s'.registry) (fun hs hk => hk.trans hs.keeps)
    (.refl _)

end Assembly

theorem Visiting.lookup_eq_some {visiting : Visiting n} {key : ObjectKey n}
    (h : key ∈ visiting.map (·.1)) :
    ∃ name, visiting.lookup key = some name ∧ (key, name) ∈ visiting := by
  induction visiting with
  | nil => cases h
  | cons v rest ih =>
      obtain ⟨k, name⟩ := v
      by_cases hk : key = k
      · exact ⟨name, by simp [hk], by simp [hk]⟩
      · obtain ⟨other, hl, hm⟩ := ih ((List.mem_cons.mp h).resolve_left hk)
        exact ⟨other, by simp [List.lookup_cons, beq_false_of_ne hk, hl], List.mem_cons_of_mem _ hm⟩

theorem Visiting.lookup_eq_none {visiting : Visiting n} {key : ObjectKey n}
    (h : key ∉ visiting.map (·.1)) : visiting.lookup key = none := by
  refine List.lookup_eq_none_iff.mpr fun v hv => ?_
  rw [bne_iff_ne]
  rintro rfl
  exact h (List.mem_map_of_mem hv)

/-! ## Requests -/

/-- The comparison of equal sources ends. -/
theorem Source.compare_ne_endless {a b : Source n} (same : a.same b = true) :
    a.compare b ≠ .endless := by
  cases a with
  | absent => cases b <;> simp [compare]
  | literal items =>
      cases b with
      | literal items' =>
          intro endless
          cases endless.symm.trans ((Value.compareItems_eq_same items items').mpr same)
      | _ => simp [compare]
  | node x =>
      cases b with
      | node y =>
          rw [Source.same, Node.sameOrEqual, Bool.or_eq_true, decide_eq_true_eq] at same
          rw [compare, Node.compareOnce]
          split
          · simp
          · rename_i other
            exact Node.compare_ne_endless (same.resolve_left other) false
      | _ => simp [compare]

/-- Where a request is granted, no comparison is endless. -/
theorem Registry.answer_eq_ok {r : Registry n} {name kind : String} {source : Source n} {b : Bool} :
    r.answer name kind source = .ok b ↔ r.isClaimed name kind source = .ok b := by
  rw [answer]
  split
  · rename_i endless
    refine iff_of_false nofun fun claimed => ?_
    rw [comparesEndlessly] at endless
    cases b with
    | false => rw [isClaimed_eq_false claimed] at endless; cases endless
    | true =>
        obtain ⟨existing, found, same⟩ := isClaimed_eq_true claimed
        rw [found, decide_eq_true_eq] at endless
        exact existing.compare_ne_endless same endless.2
  · cases r.isClaimed name kind source <;> simp [Except.mapError]

/-- A second request for a name is answered as the comparison of the two nodes goes. -/
theorem Registry.answer_iff_compare {r : Registry n} {name kind : String} {x y : Node n}
    (found : Keyed.find? name r.sources = some (kind, .node x)) (hx : x.All Node.IsProper)
    (hy : y.All Node.IsProper) :
    (r.answer name kind (.node y) = .ok true ↔ x.compareOnce y = .same) ∧
    (r.answer name kind (.node y) = .error (.collision ⟨name, kind, kind⟩) ↔
      x.compareOnce y = .different) ∧
    (r.answer name kind (.node y) = .error (.schema .endless) ↔ x.compareOnce y = .endless) := by
  have same := Node.compareOnce_eq_same hx hy
  have stuck : r.comparesEndlessly name kind (.node y) = decide (x.compareOnce y = .endless) := by
    simp [comparesEndlessly, found, Source.compare]
  have claimed : r.isClaimed name kind (.node y)
      = if x.sameOrEqual y = true then .ok true else .error ⟨name, kind, kind⟩ := by
    simp [isClaimed, found, Source.same]
  rw [answer, stuck, claimed, if_congr same.symm rfl rfl]
  cases x.compareOnce y <;> simp [Except.mapError]

/-! ## Success -/

/-- What is read off a success belongs to what was successful. -/
theorem exists_of_map_eq_ok {ε α β : Type} {x : Except ε α} {f : α → β} {b : β}
    (h : x.map f = .ok b) : ∃ a, x = .ok a ∧ f a = b := by
  cases x with
  | error e => cases h
  | ok a => exact ⟨a, rfl, Except.ok.inj h⟩

namespace Compiling

theorem bind_eq_ok {α β : Type} {x : Compiling n α} {f : α → Compiling n β} {r r'' : Registry n}
    {b : β} : (x >>= f).run r = .ok (b, r'') ↔
      ∃ a r', x.run r = .ok (a, r') ∧ (f a).run r' = .ok (b, r'') := by
  rw [StateT.run_bind]
  rcases x.run r with e | ⟨a, r'⟩
  · exact ⟨nofun, fun ⟨_, _, h, _⟩ => nomatch h⟩
  · exact ⟨fun h => ⟨a, r', rfl, h⟩, by rintro ⟨_, _, he, h⟩; cases he; exact h⟩

theorem pure_eq_ok {α : Type} {a b : α} {r r' : Registry n} :
    (pure a : Compiling n α).run r = .ok (b, r') ↔ a = b ∧ r = r' := by
  show Except.ok (a, r) = Except.ok (b, r') ↔ _
  simp

@[simp] theorem modify_eq_ok {f : Registry n → Registry n} {u : PUnit} {r r' : Registry n} :
    (modify f : Compiling n PUnit).run r = .ok (u, r') ↔ f r = r' := by
  show Except.ok (PUnit.unit, f r) = Except.ok (u, r') ↔ _
  simp

@[simp] theorem isClaimed_eq_ok {name kind : String} {source : Source n} {b : Bool}
    {r r' : Registry n} : (isClaimed name kind source).run r = .ok (b, r') ↔
      r.isClaimed name kind source = .ok b ∧ r = r' := by
  unfold isClaimed
  rw [StateT.run_bind, StateT.run_get, pure_bind, ← Registry.answer_eq_ok]
  cases r.answer name kind source with
  | ok c => exact pure_eq_ok.trans (by simp)
  | error e => exact ⟨nofun, fun h => absurd h.1 nofun⟩

@[simp] theorem checkReserved_eq_ok {name kind : String} {u : Unit} {r r' : Registry n} :
    (checkReserved name kind : Compiling n Unit).run r = .ok (u, r') ↔
      name ∉ reservedTypeNames ∧ r = r' := by
  unfold checkReserved
  split
  · rename_i h; exact ⟨nofun, fun ⟨hn, _⟩ => absurd h hn⟩
  · rename_i h; exact pure_eq_ok.trans (by simp [h])

@[simp] theorem scalarName_eq_ok {t : NodeTable n} {x : Option (Node n)} {s : String}
    {r r' : Registry n} : (scalarName t x).run r = .ok (s, r') ↔ t.scalarOf x = .ok s ∧ r = r' := by
  unfold scalarName
  cases t.scalarOf x with
  | ok s' => exact pure_eq_ok.trans (by simp)
  | error e => exact ⟨nofun, fun ⟨h, _⟩ => nomatch h⟩

/-! ## One object type -/

variable {g : RawGraph} {o : CompileOptions} {t : NodeTable g.size} {root : Option ResourceNames}

theorem compileEnum_run {visiting : Visiting g.size} {id : Fin g.size} {values : List Value}
    {type : Value} {name result : String} {r r' : Registry g.size}
    (yields : t.Yields (.enumeration id values type)) (named : Assembly.Names root visiting name)
    (h : (compileEnum id values type name).run r = .ok (result, r')) :
    Assembly.Run g o ⟨t, root, visiting, r⟩ ⟨t, root, visiting, r'⟩ ∧
      t.reference visiting name (some (.enumeration id values type)) = .ok result ∧
      r'.Provides (some (.enumeration id values type)) result := by
  unfold compileEnum at h
  cases values with
  | nil =>
      obtain ⟨rfl, rfl⟩ := pure_eq_ok.mp h
      exact ⟨.refl, rfl, trivial⟩
  | cons v values =>
      simp only [List.isEmpty_cons, Bool.false_eq_true, if_false, bind_eq_ok,
        checkReserved_eq_ok, isClaimed_eq_ok] at h
      obtain ⟨_, _, ⟨legal, rfl⟩, claimed, _, ⟨hc, rfl⟩, h⟩ := h
      cases claimed with
      | true =>
          obtain ⟨rfl, rfl⟩ := pure_eq_ok.mp h
          exact ⟨.refl, rfl, Registry.isClaimed_eq_true hc⟩
      | false =>
          simp only [Bool.false_eq_true, if_false, bind_eq_ok, modify_eq_ok] at h
          obtain ⟨_, _, rfl, h⟩ := h
          obtain ⟨rfl, rfl⟩ := pure_eq_ok.mp h
          exact ⟨.single (.enumeration named legal (Registry.isClaimed_eq_false hc) yields), rfl,
            _, Registry.find?_claim .., Registry.same_node_of_identity rfl⟩

end Compiling

namespace NodeTable

variable {t : NodeTable n} {x : Node n}

theorem element_of_not_array {y : Option (Node n)} (h : t.resolve x = y)
    (hy : ∀ id items, y ≠ some (.array id items)) : t.isArray x = false ∧ t.element x = y := by
  unfold isArray element
  rw [h]
  constructor
  · split
    · rename_i id items; exact absurd rfl (hy id items)
    · rfl
  · split
    · rename_i id items; exact absurd rfl (hy id items)
    · rfl

theorem element_of_array {id : Fin n} {items : Option (Node n)}
    (h : t.resolve x = some (.array id items)) :
    t.isArray x = true ∧ t.element x = t.resolve? items := by
  unfold isArray element
  rw [h]
  exact ⟨rfl, rfl⟩

theorem fieldOf_of_reference {visiting : Visiting n} {required : List String}
    {parent name type : String} {array : Bool} {y : Option (Node n)} (ha : t.isArray x = array)
    (hy : t.element x = y)
    (h : t.reference visiting (Naming.typeName (if array then Naming.sanitizeFieldName name ++ "Item"
      else Naming.sanitizeFieldName name) parent) y = .ok type) :
    t.fieldOf visiting required parent (name, x) =
      .ok { name := Naming.sanitizeFieldName name, typeName := type, isList := array,
            isOptional := name ∉ required, sourceName := some name } := by
  simp only [fieldOf, elementName, ha, hy, h]

end NodeTable

namespace Compiling

variable {g : RawGraph} {o : CompileOptions} {t : NodeTable g.size} {root : Option ResourceNames}

/-- A name of the type of an element, for an element that needs no definition. -/
theorem scalarName_run {visiting : Visiting g.size} {x : Option (Node g.size)}
    {name result : String} {r r' : Registry g.size}
    (enumeration : ∀ id values type, x ≠ some (.enumeration id values type))
    (object : ∀ key properties required additional other,
      x ≠ some (.object key properties required additional other))
    (h : (scalarName t x).run r = .ok (result, r')) :
    Assembly.Run g o ⟨t, root, visiting, r⟩ ⟨t, root, visiting, r'⟩ ∧
      t.reference visiting name x = .ok result ∧ r'.Provides x result := by
  obtain ⟨hs, rfl⟩ := scalarName_eq_ok.mp h
  refine ⟨.refl, ?_⟩
  cases x with
  | none => exact ⟨hs, trivial⟩
  | some x =>
      cases x with
      | enumeration id values type => exact absurd rfl (enumeration id values type)
      | object key properties required additional other =>
          exact absurd rfl (object key properties required additional other)
      | _ => exact ⟨hs, trivial⟩

/-- A compiler of objects inside `visiting` takes these steps, and gives names that refer to its
objects. -/
def Runs (o : CompileOptions) (t : NodeTable g.size) (root : Option ResourceNames)
    (visiting : Visiting g.size) (object : Objects g.size) : Prop :=
  ∀ key properties required additional other name result r r',
    t.Yields (.object key properties required additional other) →
      Assembly.Names root visiting name → r.Claimed visiting →
      (object key properties required additional other name).run r = .ok (result, r') →
      Assembly.Run g o ⟨t, root, visiting, r⟩ ⟨t, root, visiting, r'⟩ ∧
        result = (visiting.lookup key).getD name ∧
        r'.Refers "type" (.object key properties required additional other) result

section

variable {visiting : Visiting g.size} {object : Objects g.size} {key : ObjectKey g.size}
  {required : List String} {parent : String} {r r' : Registry g.size}

theorem Runs.type (runs : Runs o t root visiting object) {node : Node g.size}
    {name result : String} (known : node.All (t.Knows []))
    (named : Assembly.Names root visiting name) (claimed : r.Claimed visiting)
    (h : (typeWith t object node name).run r = .ok (result, r')) :
    Assembly.Run g o ⟨t, root, visiting, r⟩ ⟨t, root, visiting, r'⟩ ∧
      t.reference visiting name (t.resolve node) = .ok result ∧
      r'.Provides (t.resolve node) result := by
  unfold typeWith at h
  split at h
  · rename_i id values type hr
    rw [hr]
    exact compileEnum_run ⟨node, known, hr⟩ named h
  · rename_i key properties required additional other hr
    obtain ⟨run, rfl, refers⟩ :=
      runs _ _ _ _ _ _ _ _ _ ⟨node, known, hr⟩ named claimed h
    rw [hr]
    exact ⟨run, rfl, refers⟩
  · rename_i enumeration object
    exact scalarName_run enumeration object h

theorem Runs.field (runs : Runs o t root ((key, parent) :: visiting) object) (ht : t.Sound [])
    {name : String} {node : Node g.size} {field : Field} (known : node.All (t.Knows []))
    (claimed : r.Claimed ((key, parent) :: visiting))
    (h : (fieldWith t object required parent name node).run r = .ok (field, r')) :
    Assembly.Run g o ⟨t, root, (key, parent) :: visiting, r⟩
        ⟨t, root, (key, parent) :: visiting, r'⟩ ∧
      t.fieldOf ((key, parent) :: visiting) required parent (name, node) = .ok field ∧
      r'.Provides (t.element node) field.typeName := by
  have named : Assembly.Names root ((key, parent) :: visiting)
      (Naming.typeName (Naming.sanitizeFieldName name) parent) := ⟨name, Or.inl rfl⟩
  have itemNamed : Assembly.Names root ((key, parent) :: visiting)
      (Naming.typeName (Naming.sanitizeFieldName name ++ "Item") parent) := ⟨name, Or.inr rfl⟩
  unfold fieldWith at h
  dsimp only at h
  split at h
  · rename_i id values type hr
    obtain ⟨array, element⟩ := NodeTable.element_of_not_array hr (by simp)
    obtain ⟨result, r₁, hc, h⟩ := bind_eq_ok.mp h
    obtain ⟨rfl, rfl⟩ := pure_eq_ok.mp h
    obtain ⟨run, reference, provides⟩ := compileEnum_run ⟨node, known, hr⟩ named hc
    exact ⟨run, NodeTable.fieldOf_of_reference array element reference, element ▸ provides⟩
  · rename_i id hr
    obtain ⟨array, element⟩ := NodeTable.element_of_array hr
    obtain ⟨rfl, rfl⟩ := pure_eq_ok.mp h
    refine ⟨.refl, NodeTable.fieldOf_of_reference array element ?_, element ▸ trivial⟩
    rfl
  · rename_i id items hr
    obtain ⟨array, element⟩ := NodeTable.element_of_array hr
    obtain ⟨result, r₁, hc, h⟩ := bind_eq_ok.mp h
    obtain ⟨rfl, rfl⟩ := pure_eq_ok.mp h
    obtain ⟨run, reference, provides⟩ :=
      runs.type (NodeTable.resolve_settled ht known hr).items itemNamed claimed hc
    exact ⟨run, NodeTable.fieldOf_of_reference array element reference, element ▸ provides⟩
  · rename_i key' properties required' additional other hr
    obtain ⟨array, element⟩ := NodeTable.element_of_not_array hr (by simp)
    obtain ⟨result, r₁, hc, h⟩ := bind_eq_ok.mp h
    obtain ⟨rfl, rfl⟩ := pure_eq_ok.mp h
    obtain ⟨run, rfl, refers⟩ :=
      runs _ _ _ _ _ _ _ _ _ ⟨node, known, hr⟩ named claimed hc
    exact ⟨run, NodeTable.fieldOf_of_reference array element rfl, element ▸ refers⟩
  · rename_i enumeration untyped typed object
    have plain : ∀ id items, t.resolve node ≠ some (.array id items) := by
      intro id items
      cases items with
      | none => exact untyped id
      | some items => exact typed id items
    obtain ⟨array, element⟩ := NodeTable.element_of_not_array rfl plain
    obtain ⟨result, r₁, hc, h⟩ := bind_eq_ok.mp h
    obtain ⟨rfl, rfl⟩ := pure_eq_ok.mp h
    obtain ⟨run, reference, provides⟩ := scalarName_run enumeration object hc
    exact ⟨run, NodeTable.fieldOf_of_reference array element reference, element ▸ provides⟩

theorem Runs.fields (runs : Runs o t root ((key, parent) :: visiting) object) (ht : t.Sound [])
    {properties : List (String × Node g.size)} {fields fields' : List Field}
    (known : ∀ p ∈ properties, p.2.All (t.Knows []))
    (claimed : r.Claimed ((key, parent) :: visiting))
    (h : (fieldsWith t object required parent properties fields).run r = .ok (fields', r')) :
    Assembly.Run g o ⟨t, root, (key, parent) :: visiting, r⟩
        ⟨t, root, (key, parent) :: visiting, r'⟩ ∧
      ∃ fs : List Field, fields' = fs.foldl appendField fields ∧
        List.Forall₂
          (fun p f => t.fieldOf ((key, parent) :: visiting) required parent p = .ok f ∧
            r'.Provides (t.element p.2) f.typeName) properties fs := by
  induction properties generalizing fields r with
  | nil =>
      obtain ⟨rfl, rfl⟩ := pure_eq_ok.mp h
      exact ⟨.refl, [], rfl, .nil⟩
  | cons p rest ih =>
      simp only [fieldsWith, bind_eq_ok] at h
      obtain ⟨f, r₁, hf, h⟩ := h
      obtain ⟨run, field, provides⟩ := runs.field ht (known _ (List.mem_cons_self ..)) claimed hf
      obtain ⟨run', fs, rfl, image⟩ :=
        ih (fun p hp => known p (List.mem_cons_of_mem _ hp)) (claimed.keeps run.keeps) h
      exact ⟨run.trans run', f :: fs, rfl, .cons ⟨field, provides.keeps run'.keeps⟩ image⟩

end

theorem compileObject_runs (ht : t.Sound []) (visiting : Visiting g.size) :
    Runs o t root visiting (compileObject t visiting) := by
  induction visiting using visiting_induction with
  | step visiting ih =>
      intro key properties required additional other name result r r' yields named claimed h
      rw [compileObject_eq] at h
      split at h
      · rename_i hm
        obtain ⟨rfl, rfl⟩ := pure_eq_ok.mp h
        obtain ⟨outer, hl, hv⟩ := Visiting.lookup_eq_some hm
        obtain ⟨_, _, _, _, hs⟩ := claimed _ hv
        rw [hl]
        exact ⟨.refl, rfl, _, hs, Registry.same_node_of_identity (by cases key <;> rfl)⟩
      · rename_i hm
        rw [Visiting.lookup_eq_none hm]
        simp only [bind_eq_ok, checkReserved_eq_ok, isClaimed_eq_ok] at h
        obtain ⟨_, _, ⟨legal, rfl⟩, seen, _, ⟨hc, rfl⟩, h⟩ := h
        cases seen with
        | true =>
            obtain ⟨rfl, rfl⟩ := pure_eq_ok.mp h
            exact ⟨.refl, rfl, Registry.isClaimed_eq_true hc⟩
        | false =>
            simp only [Bool.false_eq_true, if_false, bind_eq_ok, modify_eq_ok] at h
            obtain ⟨_, r₁, hr₁, fields, r₂, hf, _, r₃, hr₃, h⟩ := h
            obtain ⟨rfl, rfl⟩ := pure_eq_ok.mp h
            have fresh := Registry.isClaimed_eq_false hc
            have own : Keyed.find? name r₁.sources
                = some ("type", .node (.object key properties required additional other)) :=
              hr₁ ▸ Registry.find?_claim ..
            have opened : r₁.Claimed ((key, name) :: visiting) :=
              List.forall_mem_cons.mpr ⟨⟨_, _, _, _, own⟩,
                Registry.Claimed.keeps (hr₁ ▸ Registry.keeps_claim fresh) claimed⟩
            obtain ⟨run, fs, rfl, image⟩ :=
              (ih key name hm).fields ht (yields.settled ht).property opened hf
            subst hr₁ hr₃
            have own := run.keeps _ _ own
            exact ⟨.head (.opening named legal fresh hm yields) (.tail run (.closing own image)), rfl,
              _, own, Registry.same_node_of_identity rfl⟩

theorem compileObject_run (ht : t.Sound []) {visiting : Visiting g.size}
    {key : ObjectKey g.size} {properties : List (String × Node g.size)} {required : List String}
    {additional : Option (Node g.size)} {other : Value} {name result : String}
    {r r' : Registry g.size}
    (yields : t.Yields (.object key properties required additional other))
    (named : Assembly.Names root visiting name) (claimed : r.Claimed visiting)
    (h : (compileObject t visiting key properties required additional other name).run r
      = .ok (result, r')) :
    Assembly.Run g o ⟨t, root, visiting, r⟩ ⟨t, root, visiting, r'⟩ ∧
      result = (visiting.lookup key).getD name ∧
      r'.Refers "type" (.object key properties required additional other) result :=
  compileObject_runs ht visiting _ _ _ _ _ _ _ _ _ yields named claimed h

/-! ## Page types and filters -/

theorem compileConnection_run {names : ResourceNames} {u : Unit} {r r' : Registry g.size}
    (claimed : r.Has "type" names.typeName)
    (h : (compileConnection names.typeName).run r = .ok (u, r')) :
    Assembly.Run g o ⟨t, some names, [], r⟩ ⟨t, some names, [], r'⟩ ∧
      r'.Has "type" (names.typeName ++ "Connection") := by
  unfold compileConnection at h
  simp only [bind_eq_ok, isClaimed_eq_ok] at h
  obtain ⟨seen, _, ⟨hc, rfl⟩, h⟩ := h
  cases seen with
  | true =>
      obtain ⟨-, rfl⟩ := pure_eq_ok.mp h
      obtain ⟨source, hs, -⟩ := Registry.isClaimed_eq_true hc
      exact ⟨.refl, source, hs⟩
  | false =>
      simp only [Bool.false_eq_true, if_false, modify_eq_ok] at h
      subst h
      exact ⟨.single (.connection claimed (Registry.isClaimed_eq_false hc)), _,
        Registry.find?_claim ..⟩

theorem filterField?_eq_ok {typeName : String} {p : String × Node g.size} {field : Option Field}
    {r r' : Registry g.size} (h : (filterField? t typeName p).run r = .ok (field, r')) :
    r = r' ∧ ∀ f, field = some f → Assembly.FilterField g.size r.api f := by
  unfold filterField? at h
  dsimp only at h
  split at h
  · simp only [bind_eq_ok] at h
    obtain ⟨_, _, hget, h⟩ := h
    cases hget
    obtain ⟨rfl, rfl⟩ := pure_eq_ok.mp h
    refine ⟨rfl, fun f hf => ?_⟩
    split at hf
    · rename_i hk
      cases hf
      refine ⟨⟨p.1, rfl⟩, Or.inr ?_, rfl⟩
      dsimp only
      exact hk
    · cases hf
  · simp only [bind_eq_ok, scalarName_eq_ok] at h
    obtain ⟨type, _, ⟨ht, rfl⟩, h⟩ := h
    obtain ⟨rfl, rfl⟩ := pure_eq_ok.mp h
    refine ⟨rfl, fun f hf => ?_⟩
    cases hf
    exact ⟨⟨p.1, rfl⟩, Or.inl ⟨_, ht⟩, rfl⟩
  · obtain ⟨rfl, rfl⟩ := pure_eq_ok.mp h
    exact ⟨rfl, nofun⟩

theorem filterFields_eq_ok {typeName : String} {properties : List (String × Node g.size)}
    {fields fields' : List Field} {r r' : Registry g.size}
    (h : (filterFields t typeName properties fields).run r = .ok (fields', r')) :
    r = r' ∧ ∃ fs : List Field, fields' = fs.foldl appendField fields ∧
      ∀ f ∈ fs, Assembly.FilterField g.size r.api f := by
  induction properties generalizing fields with
  | nil =>
      obtain ⟨rfl, rfl⟩ := pure_eq_ok.mp h
      exact ⟨rfl, [], rfl, by simp⟩
  | cons p rest ih =>
      simp only [filterFields, bind_eq_ok] at h
      obtain ⟨field, _, hf, h⟩ := h
      obtain ⟨rfl, image⟩ := filterField?_eq_ok hf
      cases field with
      | none => exact ih h
      | some f =>
          obtain ⟨rfl, fs, rfl, rest⟩ := ih h
          exact ⟨rfl, f :: fs, rfl, List.forall_mem_cons.mpr ⟨image f rfl, rest⟩⟩

theorem compileFilter_run {properties : List (String × Node g.size)} {names : ResourceNames}
    {u : Unit} {r r' : Registry g.size}
    (h : (compileFilter t properties names.typeName).run r = .ok (u, r')) :
    Assembly.Run g o ⟨t, some names, [], r⟩ ⟨t, some names, [], r'⟩ := by
  unfold compileFilter at h
  simp only [bind_eq_ok, isClaimed_eq_ok] at h
  obtain ⟨seen, _, ⟨hc, rfl⟩, h⟩ := h
  cases seen with
  | true =>
      obtain ⟨-, rfl⟩ := pure_eq_ok.mp h
      exact .refl
  | false =>
      simp only [Bool.false_eq_true, if_false, bind_eq_ok, modify_eq_ok] at h
      obtain ⟨_, _, rfl, fields, _, hf, rfl⟩ := h
      obtain ⟨rfl, fs, rfl, image⟩ := filterFields_eq_ok hf
      exact .single (.filter (Registry.isClaimed_eq_false hc) image)

end Compiling

/-! ## Resources -/

namespace Compilation

open Compiling

variable {g : RawGraph} {o : CompileOptions}

theorem addObject_run {t : NodeTable g.size} (ht : t.Sound []) {resource : String}
    {key : ObjectKey g.size} {properties : List (String × Node g.size)} {required : List String}
    {additional : Option (Node g.size)} {other : Value} {u : Unit} {r r' : Registry g.size}
    (yields : t.Yields (.object key properties required additional other))
    (h : (addObject o t (ResourceNames.of o.naming resource) resource key properties required
      additional other).run r = .ok (u, r')) :
    Assembly.Run g o ⟨t, some (ResourceNames.of o.naming resource), [], r⟩ ⟨t, none, [], r'⟩ := by
  simp only [addObject, bind_eq_ok, modify_eq_ok] at h
  obtain ⟨type, r₁, hobject, _, r₂, hconnection, _, r₃, hfilter, rfl⟩ := h
  obtain ⟨run, rfl, source, hs, -⟩ :=
    compileObject_run (o := o) ht yields (Assembly.names_root _) (by simp [Registry.Claimed]) hobject
  obtain ⟨run', paged⟩ := compileConnection_run (o := o) (t := t) ⟨source, hs⟩ hconnection
  have run'' := compileFilter_run (o := o) (t := t) hfilter
  have claimed : r₃.Has "type" (ResourceNames.of o.naming resource).typeName :=
    ⟨source, run''.keeps _ _ (run'.keeps _ _ hs)⟩
  have finishing := Assembly.Step.finishing (g := g) (o := o) (t := t) resource
    (t.stringPaths o.searchDepth "" (some (.object key properties required additional other)))
    claimed (paged.keeps run''.keeps)
  exact ((run.trans run').trans run'').tail finishing

theorem addResource_none {c : Compilation g.size} {spec : ResourceSpec g.size}
    (main : mainSchema? spec.schemas (o.naming.singular spec.name) = none ∨
      mainSchema? spec.schemas (o.naming.singular spec.name) = some .null) :
    c.addResource o spec = .ok (c.skip spec.name .noMainSchema) := by
  have main : mainSchema? spec.schemas (ResourceNames.of o.naming spec.name).singular = none ∨
      mainSchema? spec.schemas (ResourceNames.of o.naming spec.name).singular = some .null := main
  unfold addResource
  dsimp only
  rcases main with main | main <;> rw [main]

/-- What is done with the main schema of a resource. -/
theorem addResource_eq {c : Compilation g.size} {spec : ResourceSpec g.size}
    {raw : RawValue g.size}
    (main : mainSchema? spec.schemas (o.naming.singular spec.name) = some raw)
    (given : raw ≠ .null) :
    c.addResource o spec =
      match (ResourceNames.of o.naming spec.name).conflict? c.registry.api with
      | some s => .ok (c.skip spec.name s)
      | none =>
        match Parsing.run g raw c.table with
        | (.error e, _) => .error (.schema e)
        | (.ok node, table) =>
          match table.resolve node with
          | some (.object key properties required additional other) =>
            match (addObject o table (ResourceNames.of o.naming spec.name) spec.name key properties
              required additional other).run c.registry with
            | .error e => .error e
            | .ok (_, registry) => .ok { c with table := table, registry := registry }
          | resolved =>
            .ok ({ c with table := table }.skip spec.name (.notObject (table.describe resolved))) := by
  unfold addResource
  dsimp only
  split
  · rename_i missing
    cases missing.symm.trans main
  · rename_i null
    cases null.symm.trans main
    exact absurd rfl given
  · rename_i found
    cases found.symm.trans main
    cases (ResourceNames.of o.naming spec.name).conflict? c.registry.api with
    | some s => rfl
    | none =>
        rcases Parsing.run g raw c.table with ⟨e | node, table⟩
        · rfl
        · rfl

/-- The main schema of a resource, where the names of the resource are free. -/
structure Candidate (o : CompileOptions) (api : Api) (spec : ResourceSpec g.size)
    (raw : RawValue g.size) : Prop where
  main : mainSchema? spec.schemas (o.naming.singular spec.name) = some raw
  given : raw ≠ .null
  free : (ResourceNames.of o.naming spec.name).conflict? api = none

/-- What becomes of a resource: it is left out before its main schema is read, or after that, or it
is compiled from the object that its main schema stands for. Reading and compiling may fail. -/
inductive Outcome (o : CompileOptions) (c : Compilation g.size) (spec : ResourceSpec g.size) :
    Except CompileError (Compilation g.size) → Prop
  | unread (s : Skip) (barred : ∀ raw, ¬ Candidate o c.registry.api spec raw) :
      Outcome o c spec (.ok (c.skip spec.name s))
  | unreadable {raw e table} (candidate : Candidate o c.registry.api spec raw)
      (read : Parsing.run g raw c.table = (.error e, table)) : Outcome o c spec (.error (.schema e))
  | unsuited {raw node table} (s : Skip) (candidate : Candidate o c.registry.api spec raw)
      (read : Parsing.run g raw c.table = (.ok node, table))
      (other : ∀ key properties required additional other,
        table.resolve node ≠ some (.object key properties required additional other)) :
      Outcome o c spec (.ok ({ c with table := table }.skip spec.name s))
  | failed {raw node table key properties required additional other e}
      (candidate : Candidate o c.registry.api spec raw)
      (read : Parsing.run g raw c.table = (.ok node, table))
      (resolved : table.resolve node = some (.object key properties required additional other))
      (added : (addObject o table (ResourceNames.of o.naming spec.name) spec.name key properties
        required additional other).run c.registry = .error e) :
      Outcome o c spec (.error e)
  | compiled {raw node table key properties required additional other registry}
      (candidate : Candidate o c.registry.api spec raw)
      (read : Parsing.run g raw c.table = (.ok node, table))
      (resolved : table.resolve node = some (.object key properties required additional other))
      (added : (addObject o table (ResourceNames.of o.naming spec.name) spec.name key properties
        required additional other).run c.registry = .ok ((), registry)) :
      Outcome o c spec (.ok { c with table := table, registry := registry })

theorem addResource_outcome {c : Compilation g.size} {spec : ResourceSpec g.size}
    {x : Except CompileError (Compilation g.size)} (h : c.addResource o spec = x) :
    Outcome o c spec x := by
  unfold addResource at h
  dsimp only at h
  split at h
  · rename_i missing
    subst h
    exact .unread _ fun raw candidate => nomatch missing.symm.trans candidate.main
  · rename_i null
    subst h
    apply Outcome.unread
    intro raw candidate
    cases null.symm.trans candidate.main
    exact candidate.given rfl
  · rename_i given main
    split at h
    · rename_i conflict
      subst h
      exact .unread _ fun raw candidate => nomatch conflict.symm.trans candidate.free
    · rename_i free
      have candidate : Candidate o c.registry.api spec _ := ⟨main, given, free⟩
      split at h
      · rename_i read
        subst h
        exact .unreadable candidate read
      · rename_i read
        split at h
        · rename_i resolved
          split at h
          · rename_i added
            subst h
            exact .failed candidate read resolved added
          · rename_i added
            subst h
            exact .compiled candidate read resolved added
        · rename_i other
          subst h
          exact .unsuited _ candidate read other

/-- A resource is compiled in steps or is left out, which leaves at most new nodes in the table. -/
theorem addResource_run {c c' : Compilation g.size} {spec : ResourceSpec g.size}
    (hc : c.table.Sound []) (h : c.addResource o spec = .ok c') :
    Assembly.Run g o ⟨c.table, none, [], c.registry⟩ ⟨c'.table, none, [], c'.registry⟩ ∧
      c'.table.Sound [] := by
  cases addResource_outcome h with
  | unread s => exact ⟨.refl, hc⟩
  | unsuited s _ read => exact ⟨.single (.reading read), (Parsing.run_grown hc read).1.sound⟩
  | compiled candidate read resolved added =>
      obtain ⟨grown, known⟩ := Parsing.run_grown hc read
      refine ⟨((Relation.ReflTransGen.single (.reading read)).tail
        (.beginning spec.name candidate.free)).trans ?_, grown.sound⟩
      exact addObject_run grown.sound ⟨_, known, resolved⟩ added

theorem addResources_run {specs : List (ResourceSpec g.size)} {c c' : Compilation g.size}
    (hc : c.table.Sound []) (h : addResources o specs c = .ok c') :
    Assembly.Run g o ⟨c.table, none, [], c.registry⟩ ⟨c'.table, none, [], c'.registry⟩ := by
  induction specs generalizing c with
  | nil => cases h; exact .refl
  | cons spec rest ih =>
      rw [addResources] at h
      split at h
      · cases h
      · rename_i c₁ h₁
        obtain ⟨run, sound⟩ := addResource_run hc h₁
        exact run.trans (ih sound h)

end Compilation

namespace Assembly

/-- Before the first resource. -/
def initial (n : Nat) : Assembly n := ⟨.empty, none, [], {}⟩

/-- When its resources compile, a compilation is successful. -/
theorem compile_of_addResources {o : CompileOptions} {s : Specs}
    {c : Compilation s.graph.size} (run : Compilation.addResources o s.specs {} = .ok c) :
    compile o s = .ok (c.registry.api, c.log ++ c.registry.api.summary s.specs.length) := by
  rw [compile, run]

/-- A successful compilation is a run, and its API is the one in the last registry. -/
theorem compile_run {o : CompileOptions} {s : Specs} {api : Api} {log : List LogLine}
    (h : compile o s = .ok (api, log)) :
    ∃ c, Compilation.addResources o s.specs {} = .ok c ∧ c.registry.api = api ∧
      Run s.graph o (initial s.graph.size) ⟨c.table, none, [], c.registry⟩ := by
  unfold compile at h
  split at h
  · cases h
  · rename_i c hc
    cases h
    exact ⟨c, hc, rfl, Compilation.addResources_run (NodeTable.sound_empty []) hc⟩

end Assembly

end ResourceGraph
