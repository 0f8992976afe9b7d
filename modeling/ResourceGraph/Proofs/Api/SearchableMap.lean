import ResourceGraph.Proofs.Api.Failures
import ResourceGraph.Proofs.Api.Skipping
import ResourceGraph.Proofs.Schema.Counterparts

/-!
# Searchable paths without compiling

The searchable paths of resources are also asked for without compiling these. Then every main schema
is read, also one that compilation leaves out, so the tables differ, and one schema that cannot be
read is enough for there to be no answer. If there is one, it has the paths of every resource that
compiles.
-/

namespace ResourceGraph

open NodeTable

variable {g : RawGraph} {t t' : NodeTable g.size}

/-! ## Reading once more -/

theorem NodeTable.faithful_empty : (NodeTable.empty : NodeTable g.size).Faithful g :=
  ⟨sound_empty [], reflects_empty []⟩

theorem NodeTable.Faithful.run (ht : t.Faithful g) {raw : RawValue g.size} {node : Node g.size}
    (read : Parsing.run g raw t = (.ok node, t')) : t'.Faithful g ∧ t'.Denotes [] raw node := by
  obtain ⟨grown, reflects, denotes⟩ :=
    Parsing.parse_ensures [] raw t node t' ht.sound ht.reflects read
  exact ⟨⟨grown.sound, reflects⟩, denotes⟩

/-- Nothing inside the value is unreadable. -/
def RawGraph.Readable (g : RawGraph) (raw : RawValue g.size) : Prop :=
  ∀ i e, g.Includes raw i → ¬ (Layout.ofObject g i).Unreadable e

theorem NodeTable.Denotes.readable (ht : t.Faithful g) {raw : RawValue g.size} {node : Node g.size}
    (h : t.Denotes [] raw node) : g.Readable raw := by
  intro i e inside
  obtain ⟨x, found⟩ := h.find?_of_includes ht.sound ht.reflects inside
  exact ht.reflects.readable found e

theorem NodeTable.Faithful.run_fails (ht : t.Faithful g) {raw : RawValue g.size} {e : SchemaError}
    (read : Parsing.run g raw t = (.error e, t')) : ¬ g.Readable raw := by
  intro readable
  obtain ⟨i, e, inside, unreadable⟩ :=
    (Parsing.run_fails_iff ht.sound ht.reflects raw).mp ⟨e, t', read⟩
  exact readable i e inside unreadable

/-! ## One specification after the other -/

section

variable (naming : Naming) (depth : Nat)

/-- The main schema of a specification can be read, if there is one. -/
def ResourceSpec.MainReadable (spec : ResourceSpec g.size) : Prop :=
  ∀ main, mainSchema? spec.schemas (naming.singular spec.name) = some main → g.Readable main

/-- The paths that stand for a specification are those of its main schema, as some table has it. -/
inductive SearchableEntry (g : RawGraph) (spec : ResourceSpec g.size) : List String → Prop
  | missing (absent : ∀ i, mainSchema? spec.schemas (naming.singular spec.name) ≠ some (.obj i)) :
      SearchableEntry g spec []
  | read {main node} {t : NodeTable g.size}
      (found : mainSchema? spec.schemas (naming.singular spec.name) = some main)
      (faithful : t.Faithful g) (denotes : t.Denotes [] main node) :
      SearchableEntry g spec (t.stringPaths depth "" (some node))

/-- Paths for each specification are added in order, unless one cannot be read. -/
def Gathers (g : RawGraph) (specs : List (ResourceSpec g.size))
    (acc : Keyed.Entries (List String)) :
    Except SchemaError (Keyed.Entries (List String)) → Prop
  | .ok m => (∀ spec ∈ specs, spec.MainReadable naming) ∧
      ∃ entries, m = Keyed.update acc entries ∧ List.Forall₂ (fun spec entry =>
        spec.name = entry.1 ∧ SearchableEntry naming depth g spec entry.2) specs entries
  | .error _ => ∃ spec ∈ specs, ¬ spec.MainReadable naming

variable {naming depth}

theorem Gathers.cons {spec : ResourceSpec g.size} {rest : List (ResourceSpec g.size)}
    {acc : Keyed.Entries (List String)} {paths : List String}
    {outcome : Except SchemaError (Keyed.Entries (List String))}
    (readable : spec.MainReadable naming) (entry : SearchableEntry naming depth g spec paths)
    (h : Gathers naming depth g rest (Keyed.insert spec.name paths acc) outcome) :
    Gathers naming depth g (spec :: rest) acc outcome := by
  cases outcome with
  | error e =>
      obtain ⟨other, mem, unreadable⟩ := h
      exact ⟨other, List.mem_cons_of_mem _ mem, unreadable⟩
  | ok m =>
      obtain ⟨others, entries, rfl, listed⟩ := h
      exact ⟨List.forall_mem_cons.mpr ⟨readable, others⟩, (spec.name, paths) :: entries, rfl,
        .cons ⟨rfl, entry⟩ listed⟩

variable (naming depth)

theorem searchablePaths_go (s : Specs) (specs : List (ResourceSpec s.graph.size))
    {t : NodeTable s.graph.size} (ht : t.Faithful s.graph) (acc : Keyed.Entries (List String)) :
    Gathers naming depth s.graph specs acc (searchablePaths.go naming depth s specs t acc) := by
  induction specs generalizing t acc with
  | nil => exact ⟨by simp, [], rfl, .nil⟩
  | cons spec rest ih =>
      rw [searchablePaths.go]
      split
      · rename_i main
        refine .cons (fun raw found => ?_) (.missing fun i found => ?_) (ih ht _)
        · cases main.symm.trans found
        · cases main.symm.trans found
      · rename_i main
        refine .cons (fun raw found => ?_) (.missing fun i found => ?_) (ih ht _)
        · cases main.symm.trans found
          intro i e inside
          cases inside
        · cases main.symm.trans found
      · rename_i raw given main
        rcases read : Parsing.run s.graph raw t with ⟨e | node, t'⟩
        · refine ⟨spec, List.mem_cons_self .., fun readable => ?_⟩
          exact ht.run_fails read (readable raw main)
        · obtain ⟨ht', denotes⟩ := ht.run read
          refine .cons (fun raw found => ?_) (.read main ht' denotes) (ih ht' _)
          cases main.symm.trans found
          exact denotes.readable ht'

end

/-! ## The same paths -/

theorem keys_of_entries {P : ResourceSpec g.size → List String → Prop}
    {specs : List (ResourceSpec g.size)} {entries : Keyed.Entries (List String)}
    (h : List.Forall₂ (fun spec entry => spec.name = entry.1 ∧ P spec entry.2) specs entries) :
    Keyed.keys entries = specs.map ResourceSpec.name := by
  induction h with
  | nil => rfl
  | cons head _ ih => exact congrArg₂ List.cons head.1.symm ih

theorem compile_reads {o : CompileOptions} {s : Specs} {api : Api} {log : List LogLine}
    (h : compile o s = .ok (api, log)) :
    ∃ c, Compilation.addResources o s.specs {} = .ok c ∧ c.registry.api = api ∧
      Compilation.Reads o s.specs c.table := by
  rw [(record_replays o s).1] at h
  rcases record_ends o s with ⟨c, es, done, recorded, ends⟩ | ⟨t, e, log, es, -, -, ends⟩
  · rw [ends] at h
    obtain ⟨rfl, -⟩ := Prod.mk.inj (Except.ok.inj h)
    exact ⟨c, done, rfl, recorded.reads⟩
  · rw [ends] at h
    cases h

/-- Where the paths of a specification are known, they are those of its compiled resource. -/
theorem SearchableEntry.eq_searchable {o : CompileOptions} {specs : List (ResourceSpec g.size)}
    (ht : t.Faithful g) {root : Node g.size} {a : Resource}
    (makes : Compilation.Makes o specs t root a)
    (distinct : (specs.map ResourceSpec.name).Nodup) {spec : ResourceSpec g.size}
    (listed : spec ∈ specs) (named : spec.name = a.name) {paths : List String}
    (entry : SearchableEntry o.naming o.searchDepth g spec paths) : paths = a.searchable := by
  obtain ⟨spec', listed', named', i, node, main, found, resolved⟩ := makes.main
  obtain rfl : spec' = spec :=
    List.inj_on_of_nodup_map distinct listed' listed (named'.trans named.symm)
  cases entry with
  | missing absent => exact (absent i main).elim
  | read main' faithful denotes =>
      cases main.symm.trans main'
      rw [makes.made]
      exact denotes.stringPaths_eq faithful ht (.found found) resolved o.searchDepth ""

/-- Whatever the resources are, if their names differ and they compile, then the searchable paths
without compiling are there if and only if the main schemas of the resources that were left out can
be read. There is then one entry for each specification, in order, and the one of a compiled
resource has the paths of that resource, in the same order. -/
theorem searchablePaths_agree {o : CompileOptions} {s : Specs} {api : Api} {log : List LogLine}
    (h : compile o s = .ok (api, log)) (distinct : (s.specs.map ResourceSpec.name).Nodup) :
    ((∃ m, searchablePaths o.naming o.searchDepth s = .ok m) ↔
      ∀ spec ∈ s.specs, spec.name ∉ api.resources.map Resource.name →
        spec.MainReadable o.naming) ∧
    ∀ m, searchablePaths o.naming o.searchDepth s = .ok m →
      Keyed.keys m = s.specs.map ResourceSpec.name ∧
      ∀ a ∈ api.resources, Keyed.find? a.name m = some a.searchable := by
  obtain ⟨c, added, rfl, reads⟩ := compile_reads h
  have gathers := searchablePaths_go o.naming o.searchDepth s s.specs faithful_empty []
  have compiled : ∀ spec ∈ s.specs, spec.name ∈ c.registry.api.resources.map Resource.name →
      spec.MainReadable o.naming := by
    intro spec listed there
    obtain ⟨a, ha, named⟩ := List.mem_map.mp there
    obtain ⟨spec', listed', named', main, found, readable⟩ :=
      Compilation.readable_of_compiled reads added ha
    obtain rfl : spec' = spec :=
      List.inj_on_of_nodup_map distinct listed' listed (named'.trans named)
    intro main' found'
    cases found.symm.trans found'
    exact readable
  change Gathers _ _ _ _ _ (searchablePaths o.naming o.searchDepth s) at gathers
  rcases outcome : searchablePaths o.naming o.searchDepth s with e | m
  · rw [outcome] at gathers
    obtain ⟨spec, listed, unreadable⟩ := gathers
    refine ⟨iff_of_false (by simp) fun readable => unreadable ?_, by simp⟩
    by_cases there : spec.name ∈ c.registry.api.resources.map Resource.name
    · exact compiled spec listed there
    · exact readable spec listed there
  · rw [outcome] at gathers
    obtain ⟨readable, entries, rfl, listed⟩ := gathers
    have keys := keys_of_entries listed
    have added : Keyed.update [] entries = entries := Keyed.update_eq_append (keys ▸ distinct)
    refine ⟨iff_of_true ⟨_, rfl⟩ fun spec mem _ => readable spec mem, fun m same => ?_⟩
    obtain rfl := Except.ok.inj same
    rw [added]
    refine ⟨keys, fun a ha => ?_⟩
    obtain ⟨root, makes⟩ := Compilation.resources_sourced ‹_› a ha
    obtain ⟨spec, mem, named, -⟩ := id makes.main
    obtain ⟨entry, there, same, paths⟩ := exists_of_forall₂_left listed mem
    have found : Keyed.find? entry.1 entries = some entry.2 :=
      Keyed.find?_of_mem (keys ▸ distinct) there
    rw [← named, same, found]
    exact congrArg some
      (paths.eq_searchable ⟨reads.sound, reads.reflects⟩ makes distinct mem named)

/-- Persons with pets, which are also the main schema of a resource that is left out. -/
def Specs.pets : Specs where
  graph :=
    { size := 5
      objects := #v[
        [("type", .str "object"), ("properties", .obj 1)],
        [("name", .obj 2), ("pet", .obj 3)],
        [("type", .str "string")],
        [("type", .str "object"), ("properties", .obj 4)],
        [("owner", .obj 0), ("kind", .obj 2)]]
      nodup := by decide }
  specs := [{ name := "strings", schemas := [("String", .obj 3)] },
    { name := "persons", schemas := [("Person", .obj 0)] }]

theorem compile_pets :
    (compile {} Specs.pets).map (fun c => c.1.resources.map Resource.name) = .ok ["persons"] := by
  rw [compile_eq_upTo]
  decide +kernel

/-- Without compiling, the pets are read first, and their owners inside them. -/
theorem searchablePaths_pets :
    searchablePaths .english 4 Specs.pets
      = .ok [("strings", ["owner.name", "owner.pet.owner.name", "owner.pet.kind", "kind"]),
        ("persons", ["name", "pet.owner.name", "pet.owner.pet.kind", "pet.kind"])] := by
  rw [searchablePaths_eq_upTo]
  decide +kernel

theorem pets_agree : ∃ api log, compile {} Specs.pets = .ok (api, log) ∧
    api.resources.map Resource.name = ["persons"] ∧ ∀ a ∈ api.resources,
      a.searchable = ["name", "pet.owner.name", "pet.owner.pet.kind", "pet.kind"] := by
  obtain ⟨⟨api, log⟩, hc, names⟩ := exists_of_map_eq_ok compile_pets
  refine ⟨api, log, hc, names, fun a ha => ?_⟩
  obtain ⟨-, found⟩ := (searchablePaths_agree hc (by decide)).2 _ searchablePaths_pets
  have named : a.name = "persons" := by
    simpa [names] using List.mem_map_of_mem (f := Resource.name) ha
  have there := found a ha
  rw [named] at there
  exact (Option.some.inj there).symm

/-- Persons, and a resource that is left out, whose main schema requires five properties. -/
def Specs.mangled : Specs where
  graph :=
    { size := 4
      objects := #v[
        [("type", .str "object"), ("properties", .obj 1)],
        [("a", .obj 2)],
        [("type", .str "string")],
        [("type", .str "object"), ("required", .int 5)]]
      nodup := by decide }
  specs := [{ name := "strings", schemas := [("String", .obj 3)] },
    { name := "persons", schemas := [("Person", .obj 0)] }]

theorem compile_mangled :
    (compile {} Specs.mangled).map (fun c => c.1.resources.map Resource.name)
      = .ok ["persons"] := by
  rw [compile_eq_upTo]
  decide +kernel

theorem searchablePaths_mangled :
    searchablePaths .english 4 Specs.mangled = .error (.notIterable "int") := by
  rw [searchablePaths_eq_upTo]
  decide +kernel

/-- What compilation leaves out can still hinder the searchable paths of the others. -/
theorem mangled_not_agree : ¬ ∀ (o : CompileOptions) (s : Specs) (api : Api) (log : List LogLine),
    compile o s = .ok (api, log) → (s.specs.map ResourceSpec.name).Nodup → 1 ≤ o.searchDepth →
    ∃ m, searchablePaths o.naming o.searchDepth s = .ok m ∧
      Keyed.keys m = s.specs.map ResourceSpec.name ∧
      ∀ a ∈ api.resources, Keyed.find? a.name m = some a.searchable := by
  intro all
  obtain ⟨⟨api, log⟩, hc, -⟩ := exists_of_map_eq_ok compile_mangled
  obtain ⟨m, answered, -⟩ := all {} Specs.mangled api log hc (by decide) (by decide)
  cases searchablePaths_mangled.symm.trans answered

end ResourceGraph
