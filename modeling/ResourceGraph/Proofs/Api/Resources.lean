import ResourceGraph.Proofs.Api.Walk
import ResourceGraph.Proofs.Schema.StringPaths

/-!
# Where compiled resources come from

Only the last step of a resource touches the list of resources. So every resource of a compiled API
belongs to a specification of its name, and its searchable paths are those of the object that the
main schema of this specification stands for.
-/

namespace ResourceGraph

variable {n : Nat}

/-! ## What compiling a definition leaves alone -/

/-- A property of registries that claims and new definitions leave alone. -/
structure Registry.Stable (I : Registry n → Prop) : Prop where
  claim : ∀ {r name kind source}, I r → I (r.claim name kind source)
  addEnum : ∀ {r e}, I r → I (r.addEnum e)
  addType : ∀ {r t}, I r → I (r.addType t)

/-- A property of registries that claims and new enumerations and object types leave alone. -/
structure Registry.Steady (I : Registry n → Prop) : Prop where
  claim : ∀ {r name kind source}, I r → I (r.claim name kind source)
  addEnum : ∀ {r e}, I r → I (r.addEnum e)
  addType : ∀ {r t}, t.isInput = false → I r → I (r.addType t)

theorem Registry.Stable.steady {I : Registry n → Prop} (h : Stable I) : Steady I :=
  ⟨h.claim, h.addEnum, fun _ => h.addType⟩

/-- The resources so far and their query fields. -/
def Registry.Lists (resources : List Resource) (queryFields : List Field) (r : Registry n) : Prop :=
  r.api.resources = resources ∧ r.api.queryFields = queryFields

/-- Only an input adds to the inputs. -/
theorem Registry.steady_inputs (inputs : Keyed.Entries TypeDef) :
    Registry.Steady fun r : Registry n => r.api.inputs = inputs where
  claim h := h
  addEnum h := h
  addType {r t} output h := by
    rw [addType, output]
    exact h

theorem Registry.stable_lists (resources : List Resource) (queryFields : List Field) :
    Registry.Stable (Registry.Lists (n := n) resources queryFields) where
  claim h := h
  addEnum h := h
  addType {r t} h := by
    unfold addType
    split <;> exact h

namespace Compiling

/-- A success keeps the property. -/
def Preserves (I : Registry n → Prop) {α : Type} (x : Compiling n α) : Prop :=
  ∀ r a r', I r → x.run r = .ok (a, r') → I r'

variable {I : Registry n → Prop} {α β : Type}

theorem Preserves.pure (a : α) : Preserves I (Pure.pure a : Compiling n α) := by
  intro r b r' hr h
  obtain ⟨-, rfl⟩ := pure_eq_ok.mp h
  exact hr

theorem Preserves.bind {x : Compiling n α} {f : α → Compiling n β} (hx : Preserves I x)
    (hf : ∀ a, Preserves I (f a)) : Preserves I (x >>= f) := by
  intro r b r' hr h
  obtain ⟨a, r₁, ha, hb⟩ := bind_eq_ok.mp h
  exact hf a r₁ b r' (hx r a r₁ hr ha) hb

theorem Preserves.modify {f : Registry n → Registry n} (h : ∀ r, I r → I (f r)) :
    Preserves I (MonadStateOf.modifyGet fun r => (PUnit.unit, f r)) := by
  intro r u r' hr hm
  exact modify_eq_ok.mp hm ▸ h r hr

theorem preserves_isClaimed (name kind : String) (source : Source n) :
    Preserves I (isClaimed name kind source) := by
  intro r b r' hr h
  exact (isClaimed_eq_ok.mp h).2 ▸ hr

theorem preserves_checkReserved (name kind : String) :
    Preserves I (checkReserved name kind : Compiling n Unit) := by
  intro r b r' hr h
  exact (checkReserved_eq_ok.mp h).2 ▸ hr

theorem preserves_scalarName (t : NodeTable n) (x : Option (Node n)) :
    Preserves I (scalarName t x) := by
  intro r b r' hr h
  exact (scalarName_eq_ok.mp h).2 ▸ hr

theorem preserves_compileEnum (hI : Registry.Steady I) (id : Fin n) (values : List Value)
    (type : Value) (name : String) : Preserves I (compileEnum id values type name) := by
  unfold compileEnum
  split
  · exact .pure _
  · refine (preserves_checkReserved name "enum").bind fun _ => ?_
    refine (preserves_isClaimed name "enum" _).bind fun claimed => ?_
    cases claimed with
    | true => exact .pure _
    | false => exact (Preserves.modify fun r hr => hI.addEnum (hI.claim hr)).bind fun _ => .pure _

variable (t : NodeTable n)

mutual

theorem preserves_compileObject (hI : Registry.Steady I) (visiting : Visiting n)
    (key : ObjectKey n) (properties : List (String × Node n)) (required : List String)
    (additional : Option (Node n)) (other : Value) (name : String) :
    Preserves I (compileObject t visiting key properties required additional other name) := by
  rw [compileObject]
  split
  · exact .pure _
  · rename_i hm
    have := Visiting.unseen_cons_lt name hm
    refine (preserves_checkReserved name "type").bind fun _ => ?_
    refine (preserves_isClaimed name "type" _).bind fun claimed => ?_
    cases claimed with
    | true => exact .pure _
    | false =>
        refine (Preserves.modify fun r hr => hI.claim hr).bind fun _ => ?_
        refine (preserves_compileFields hI ((key, name) :: visiting) required name properties []).bind
          fun fields => ?_
        exact (Preserves.modify fun r hr => hI.addType rfl hr).bind fun _ => .pure _
termination_by (visiting.unseen, 0)
decreasing_by all_goals decreasing_with omega

theorem preserves_compileFields (hI : Registry.Steady I) (visiting : Visiting n)
    (required : List String) (parent : String) (properties : List (String × Node n))
    (fields : List Field) :
    Preserves I (compileFields t visiting required parent properties fields) := by
  match properties with
  | [] =>
      rw [compileFields]
      exact .pure _
  | (name, node) :: rest =>
      rw [compileFields]
      refine (preserves_compileField hI visiting required parent name node).bind fun field => ?_
      exact preserves_compileFields hI visiting required parent rest (appendField fields field)
termination_by (visiting.unseen, 3 + properties.length)
decreasing_by all_goals decreasing_with omega

theorem preserves_compileField (hI : Registry.Steady I) (visiting : Visiting n)
    (required : List String) (parent name : String) (node : Node n) :
    Preserves I (compileField t visiting required parent name node) := by
  rw [compileField]
  dsimp only
  split
  · exact (preserves_compileEnum hI _ _ _ _).bind fun _ => .pure _
  · exact .pure _
  · exact (preserves_compileType hI visiting _ _).bind fun _ => .pure _
  · exact (preserves_compileObject hI visiting _ _ _ _ _ _).bind fun _ => .pure _
  · exact (preserves_scalarName t _).bind fun _ => .pure _
termination_by (visiting.unseen, 2)
decreasing_by all_goals decreasing_with omega

theorem preserves_compileType (hI : Registry.Steady I) (visiting : Visiting n) (node : Node n)
    (name : String) : Preserves I (compileType t visiting node name) := by
  rw [compileType]
  split
  · exact preserves_compileEnum hI _ _ _ _
  · exact preserves_compileObject hI visiting _ _ _ _ _ _
  · exact preserves_scalarName t _
termination_by (visiting.unseen, 1)
decreasing_by all_goals decreasing_with omega

end

theorem preserves_compileConnection (hI : Registry.Steady I) (typeName : String) :
    Preserves I (compileConnection typeName) := by
  unfold compileConnection
  refine (preserves_isClaimed _ _ _).bind fun claimed => ?_
  cases claimed with
  | true => exact .pure _
  | false => exact .modify fun r hr => hI.addType rfl (hI.claim hr)

theorem preserves_filterField? (typeName : String) (p : String × Node n) :
    Preserves I (filterField? t typeName p) := by
  unfold filterField?
  dsimp only
  split
  · intro r f r' hr h
    obtain ⟨_, _, hget, h⟩ := bind_eq_ok.mp h
    cases hget
    exact (pure_eq_ok.mp h).2 ▸ hr
  · exact (preserves_scalarName t _).bind fun _ => .pure _
  · exact .pure _

theorem preserves_filterFields (typeName : String) (properties : List (String × Node n))
    (fields : List Field) : Preserves I (filterFields t typeName properties fields) := by
  induction properties generalizing fields with
  | nil => exact .pure _
  | cons p rest ih =>
      rw [filterFields]
      refine (preserves_filterField? t typeName p).bind fun field => ?_
      cases field with
      | none => exact ih fields
      | some f => exact ih (appendField fields f)

theorem preserves_compileFilter (hI : Registry.Stable I) (properties : List (String × Node n))
    (typeName : String) : Preserves I (compileFilter t properties typeName) := by
  unfold compileFilter
  refine (preserves_isClaimed _ _ _).bind fun claimed => ?_
  cases claimed with
  | true => exact .pure _
  | false =>
      refine (Preserves.modify fun r hr => hI.claim hr).bind fun _ => ?_
      refine (preserves_filterFields t typeName properties _).bind fun fields => ?_
      exact .modify fun r hr => hI.addType hr

end Compiling

/-! ## Where a resource comes from -/

namespace Parsing

/-- What is no object is read as a scalar. -/
theorem run_leaf {g : RawGraph} {raw : RawValue g.size} {node : Node g.size}
    {t t' : NodeTable g.size} (hraw : ∀ i, raw = .obj i → False)
    (h : run g raw t = (.ok node, t')) : ∃ k, node = .scalar (.serial k) .null .null := by
  change outcome (parse g [] raw) t = (.ok node, t') at h
  rw [parse, bind_eq_ok] at h
  · obtain ⟨k, t₁, -, h⟩ := h
    obtain ⟨rfl, -⟩ := pure_eq_ok.mp h
    exact ⟨k, rfl⟩
  · exact hraw

end Parsing

namespace Compilation

open Compiling

variable {g : RawGraph} {o : CompileOptions} {specs : List (ResourceSpec g.size)}

/-- The resource is made from the object that the main schema of a specification stands for. -/
structure Makes (o : CompileOptions) (specs : List (ResourceSpec g.size)) (t : NodeTable g.size)
    (root : Node g.size) (a : Resource) : Prop where
  /-- The object is the one of the main schema. -/
  main : ∃ spec ∈ specs, spec.name = a.name ∧ ∃ i node,
    mainSchema? spec.schemas (o.naming.singular spec.name) = some (.obj i) ∧
      t.find? i = some node ∧ t.resolve node = some root
  object : ∃ key properties required additional other,
    root = .object key properties required additional other
  made : a = (ResourceNames.of o.naming a.name).resource a.name
    (t.stringPaths o.searchDepth "" (some root))

/-- Every resource is made from its specification. -/
def Sourced (o : CompileOptions) (specs : List (ResourceSpec g.size)) (t : NodeTable g.size)
    (resources : List Resource) : Prop :=
  ∀ a ∈ resources, ∃ root, Makes o specs t root a

theorem Makes.grown {t t' : NodeTable g.size} (ht : t.Sound []) (hle : t.Extends t')
    {root : Node g.size} {a : Resource} (h : Makes o specs t root a) :
    Makes o specs t' root a := by
  obtain ⟨spec, hs, named, i, node, main, found, resolved⟩ := h.main
  have known := (ht i node found).2
  have resolved' := (NodeTable.resolve_extends ht hle known).trans resolved
  refine ⟨⟨spec, hs, named, i, node, main, hle i node found, resolved'⟩, h.object, ?_⟩
  rw [NodeTable.stringPaths_extends ht hle (NodeTable.resolve_settled ht known resolved)]
  exact h.made

/-- What a specification gives, when its main schema is read as an object. -/
theorem makes_of_read {spec : ResourceSpec g.size} (hspec : spec ∈ specs) {i : Fin g.size}
    {t t' : NodeTable g.size} {node : Node g.size} {key : ObjectKey g.size}
    {properties : List (String × Node g.size)} {required : List String}
    {additional : Option (Node g.size)} {other : Value}
    (main : mainSchema? spec.schemas (o.naming.singular spec.name) = some (.obj i))
    (read : Parsing.run g (.obj i) t = (.ok node, t'))
    (resolved : t'.resolve node = some (.object key properties required additional other)) :
    Makes o specs t' (.object key properties required additional other)
      ((ResourceNames.of o.naming spec.name).resource spec.name
        (t'.stringPaths o.searchDepth ""
          (some (.object key properties required additional other)))) where
  main := ⟨spec, hspec, rfl, i, node, main, Parsing.run_find? read, resolved⟩
  object := ⟨key, properties, required, additional, other, rfl⟩
  made := rfl

/-- A resource and its query fields are added when everything else about it is done. -/
theorem addObject_lists {t : NodeTable g.size} {names : ResourceNames} {resource : String}
    {key : ObjectKey g.size} {properties : List (String × Node g.size)} {required : List String}
    {additional : Option (Node g.size)} {other : Value} {u : Unit} {r r' : Registry g.size}
    {a : Resource} (ha : a = names.resource resource
      (t.stringPaths o.searchDepth "" (some (.object key properties required additional other))))
    (h : (addObject o t names resource key properties required additional other).run r
      = .ok (u, r')) :
    Registry.Lists (r.api.resources ++ [a]) (r.api.queryFields ++ a.queryFields) r' := by
  have stable := Registry.stable_lists (n := g.size) r.api.resources r.api.queryFields
  simp only [addObject, bind_eq_ok, modify_eq_ok] at h
  obtain ⟨type, r₁, hobject, _, r₂, hconnection, _, r₃, hfilter, rfl⟩ := h
  have h₁ := preserves_compileObject t stable.steady _ _ _ _ _ _ _ r type r₁ ⟨rfl, rfl⟩ hobject
  have h₂ := preserves_compileConnection stable.steady _ r₁ _ r₂ h₁ hconnection
  have h₃ := preserves_compileFilter t stable _ _ r₂ _ r₃ h₂ hfilter
  rw [ha, ← h₃.1, ← h₃.2]
  exact ⟨rfl, rfl⟩

/-- Only an object is read as an object. -/
theorem read_object {raw : RawValue g.size} {node : Node g.size} {t t' : NodeTable g.size}
    {key : ObjectKey g.size} {properties : List (String × Node g.size)} {required : List String}
    {additional : Option (Node g.size)} {other : Value}
    (h : Parsing.run g raw t = (.ok node, t'))
    (hr : t'.resolve node = some (.object key properties required additional other)) :
    ∃ i, raw = .obj i := by
  by_contra hraw
  obtain ⟨k, rfl⟩ := Parsing.run_leaf (fun i hi => hraw ⟨i, hi⟩) h
  cases hr

theorem addResource_sourced {c c' : Compilation g.size} {spec : ResourceSpec g.size}
    (hc : c.table.Sound []) (hspec : spec ∈ specs)
    (sourced : Sourced o specs c.table c.registry.api.resources)
    (h : c.addResource o spec = .ok c') :
    Sourced o specs c'.table c'.registry.api.resources := by
  have read_on {raw node table} (read : Parsing.run g raw c.table = (.ok node, table)) :
      Sourced o specs table c.registry.api.resources := fun a ha =>
    let ⟨root, makes⟩ := sourced a ha
    ⟨root, makes.grown hc (Parsing.run_grown hc read).1.keeps⟩
  cases addResource_outcome h with
  | unread s => exact sourced
  | unsuited s _ read => exact read_on read
  | @compiled raw node table key properties required additional other registry candidate read
      resolved added =>
      intro a ha
      rw [(addObject_lists rfl added).1] at ha
      rcases List.mem_append.mp ha with ha | ha
      · exact read_on read a ha
      · obtain rfl := List.mem_singleton.mp ha
        obtain ⟨i, rfl⟩ := read_object read resolved
        exact ⟨_, makes_of_read hspec candidate.main read resolved⟩

theorem addResources_sourced {rest : List (ResourceSpec g.size)} {c c' : Compilation g.size}
    (hc : c.table.Sound []) (hrest : ∀ spec ∈ rest, spec ∈ specs)
    (sourced : Sourced o specs c.table c.registry.api.resources)
    (h : addResources o rest c = .ok c') :
    Sourced o specs c'.table c'.registry.api.resources := by
  induction rest generalizing c with
  | nil =>
      cases h
      exact sourced
  | cons spec rest ih =>
      obtain ⟨hspec, hrest⟩ := List.forall_mem_cons.mp hrest
      rw [addResources] at h
      split at h
      · cases h
      · rename_i c₁ h₁
        exact ih (addResource_run hc h₁).2 hrest (addResource_sourced hc hspec sourced h₁) h

/-- Every resource of an API is made from a specification of its name. -/
theorem resources_sourced {c : Compilation g.size} (h : addResources o specs {} = .ok c) :
    Sourced o specs c.table c.registry.api.resources :=
  addResources_sourced (NodeTable.sound_empty []) (fun _ hs => hs) (by simp [Sourced]) h

end Compilation

end ResourceGraph
