import ResourceGraph.Proofs.Api.Evaluation
import ResourceGraph.Proofs.Api.History
import ResourceGraph.Proofs.Api.Resources
import ResourceGraph.Proofs.Schema.Kept

/-!
# Why a compilation fails

A compilation ends with an API, or at a name that is asked for twice or reserved, or because of an
object inside a main schema that is malformed: its required properties cannot be gone through, or it
is a scalar whose type or format is a list or an object. It also fails where two objects are compared
that contain themselves and the comparison never ends. A resource whose main schema cannot be read is
never compiled.
-/

namespace ResourceGraph

/-- The layout of a malformed object. -/
def Layout.Malformed {n : Nat} (e : SchemaError) (l : Layout n) : Prop :=
  l.Unreadable e ∨ l.Unnamed e

namespace Compilation

variable {g : RawGraph} {o : CompileOptions} {specs : List (ResourceSpec g.size)}
  {t : NodeTable g.size}

/-- The object is inside the main schema of a resource. -/
def Mentions (o : CompileOptions) (specs : List (ResourceSpec g.size)) (i : Fin g.size) : Prop :=
  ∃ spec ∈ specs, ∃ main, mainSchema? spec.schemas (o.naming.singular spec.name) = some main ∧
    g.Includes main i

/-- Only what is inside main schemas is read. -/
theorem Reads.mentions (h : Reads o specs t) {i : Fin g.size} {x : Node g.size}
    (found : t.find? i = some x) : Mentions o specs i := by
  induction h generalizing x with
  | nothing =>
      rw [NodeTable.find?_empty] at found
      cases found
  | main _ listed main read ih =>
      rcases (Parsing.parse_confined [] _ _ _ _ read).1 i x found with ⟨y, found⟩ | inside
      · exact ih found
      · exact ⟨_, listed, _, main, inside⟩

theorem Malformed.mentions {e : SchemaError} (h : Malformed o specs e) :
    ∃ i, Mentions o specs i ∧ (Layout.ofObject g i).Malformed e := by
  cases h with
  | unreadable before listed main read =>
      obtain ⟨i, inside, unreadable⟩ := (Parsing.parse_confined [] _ _ _ _ read).2 e rfl
      exact ⟨i, ⟨_, listed, _, main, inside⟩, Or.inl unreadable⟩
  | unnamed reads malformed =>
      obtain ⟨i, x, found, unnamed⟩ := malformed
      exact ⟨i, reads.mentions found, Or.inr unnamed⟩

/-- Everything inside the main schema of a compiled resource could be read. -/
theorem readable_of_compiled {c : Compilation g.size} (reads : Reads o specs c.table)
    (added : addResources o specs {} = .ok c) {a : Resource} (ha : a ∈ c.registry.api.resources) :
    ∃ spec ∈ specs, spec.name = a.name ∧
      ∃ main, mainSchema? spec.schemas (o.naming.singular spec.name) = some main ∧
        ∀ i e, g.Includes main i → ¬ (Layout.ofObject g i).Unreadable e := by
  obtain ⟨root, makes⟩ := resources_sourced added a ha
  obtain ⟨spec, listed, named, j, node, main, found, -⟩ := makes.main
  refine ⟨spec, listed, named, .obj j, main, fun i e inside => ?_⟩
  have denotes : c.table.Denotes [] (.obj j) node := .found found
  obtain ⟨x, found⟩ := denotes.find?_of_includes reads.sound reads.reflects inside
  exact reads.reflects.readable found e

end Compilation

/-- The object is kept by the node of an object inside the main schema of a resource. -/
def Compilation.Keeps {g : RawGraph} (o : CompileOptions) (specs : List (ResourceSpec g.size))
    (a : Fin g.size) : Prop :=
  ∃ i, Mentions o specs i ∧ g.Keeps i a

section

variable {g : RawGraph} {o : CompileOptions} {specs : List (ResourceSpec g.size)}
  {t : NodeTable g.size}

/-- The comparison of sources is endless only for nodes that keep two objects whose comparison exceeds
every limit. -/
theorem Source.exists_endless (reads : Compilation.Reads o specs t) {a b : Source g.size}
    (ha : t.Asked a) (hb : t.Asked b) (h : a.compare b = .endless) :
    ∃ i j, Compilation.Keeps o specs i ∧ Compilation.Keeps o specs j ∧
      ∀ limit, g.compareWithin limit i j = .endless := by
  cases a with
  | absent => cases b <;> cases h
  | literal items =>
      cases b with
      | literal items' =>
          obtain ⟨p, mem, endless⟩ := Value.compareItems_endless h
          obtain ⟨s, text⟩ := ha p.1 (List.of_mem_zip mem).1
          rw [text] at endless
          exact absurd endless (Verdict.ofBool_ne_endless _)
      | _ => cases h
  | node x =>
      cases b with
      | node y =>
          obtain ⟨-, v, hx⟩ := ha
          obtain ⟨-, w, hy⟩ := hb
          obtain ⟨i, j, ⟨i', x', hi, keeps⟩, ⟨j', y', hj, keeps'⟩, endless⟩ :=
            hx.endless reads.sound reads.reflects hy h
          exact ⟨i, j, ⟨i', reads.mentions hi, keeps⟩, ⟨j', reads.mentions hj, keeps'⟩,
            RawGraph.compare_eq_endless_iff.mp endless⟩
      | _ => cases h

theorem Registry.answer_eq_error {n : Nat} {r : Registry n} {name kind : String} {source : Source n}
    {e : CompileError} (h : r.answer name kind source = .error e) :
    (∃ c, e = .collision c) ∨ e = .schema .endless ∧
      ∃ existing, Keyed.find? name r.sources = some (kind, existing) ∧
        existing.compare source = .endless := by
  rw [answer] at h
  split at h
  · rename_i endless
    cases h
    rw [comparesEndlessly] at endless
    split at endless
    · cases endless
    · rename_i existing found
      obtain ⟨rfl, never⟩ := of_decide_eq_true endless
      exact Or.inr ⟨rfl, existing, found, never⟩
  · cases claimed : r.isClaimed name kind source with
    | ok b => rw [claimed] at h; cases h
    | error c => rw [claimed] at h; cases h; exact Or.inl ⟨c, rfl⟩

theorem Failure.cause (reads : Compilation.Reads o specs t) {e : CompileError}
    {es : List (Event g.size)} (h : Failure t.Asked (Compilation.Malformed o specs) e es) :
    (∃ c, e = .collision c) ∨
    (∃ e', e = .schema e' ∧
      ∃ i, Compilation.Mentions o specs i ∧ (Layout.ofObject g i).Malformed e') ∨
    e = .schema .endless ∧ ∃ i j, Compilation.Keeps o specs i ∧ Compilation.Keeps o specs j ∧
      ∀ limit, g.compareWithin limit i j = .endless := by
  cases h with
  | refused history asked answer =>
      rcases Registry.answer_eq_error answer with collision | ⟨rfl, existing, found, endless⟩
      · exact Or.inl collision
      · exact Or.inr (Or.inr ⟨rfl,
          existing.exists_endless reads (history.sources_asked found) asked endless⟩)
  | flaw _ flaw =>
      cases flaw with
      | reserved => exact Or.inl ⟨_, rfl⟩
      | schema malformed => exact Or.inr (Or.inl ⟨_, rfl, malformed.mentions⟩)

end

/-- Every compilation succeeds, and then it has read all of the main schemas of its resources, or it
fails at a name, or because of a malformed object inside a main schema, or because two objects that
are kept inside main schemas, as an enumerated value or the like, contain themselves so that their
comparison exceeds every limit. -/
theorem compile_raises (o : CompileOptions) (s : Specs) :
    (∃ api log, compile o s = .ok (api, log) ∧ ∀ a ∈ api.resources,
      ∃ spec ∈ s.specs, spec.name = a.name ∧
        ∃ main, mainSchema? spec.schemas (o.naming.singular spec.name) = some main ∧
          ∀ i e, s.graph.Includes main i → ¬ (Layout.ofObject s.graph i).Unreadable e) ∨
    (∃ c log, compile o s = .error (.collision c, log)) ∨
    (∃ e log, compile o s = .error (.schema e, log) ∧
      ∃ i, Compilation.Mentions o s.specs i ∧ (Layout.ofObject s.graph i).Malformed e) ∨
    ∃ log, compile o s = .error (.schema .endless, log) ∧
      ∃ i j, Compilation.Keeps o s.specs i ∧ Compilation.Keeps o s.specs j ∧
        ∀ limit, s.graph.compareWithin limit i j = .endless := by
  rw [(record_replays o s).1]
  rcases record_ends o s with ⟨c, es, done, recorded, ends⟩ | ⟨t, e, log, es, reads, failure, ends⟩
  · rw [ends]
    exact Or.inl ⟨_, _, rfl, fun a ha => Compilation.readable_of_compiled recorded.reads done ha⟩
  · rw [ends]
    rcases failure.cause reads with ⟨c, rfl⟩ | ⟨e, rfl, i, malformed⟩ | ⟨rfl, kept⟩
    · exact Or.inr (Or.inl ⟨c, log, rfl⟩)
    · exact Or.inr (Or.inr (Or.inl ⟨e, log, rfl, i, malformed⟩))
    · exact Or.inr (Or.inr (Or.inr ⟨log, rfl, kept⟩))

/-- A person requires five properties. -/
def Specs.counted : Specs where
  graph :=
    { size := 1
      objects := #v[[("type", .str "object"), ("required", .int 5)]]
      nodup := by decide }
  specs := [{ name := "persons", schemas := [("Person", .obj 0)] }]

theorem compile_counted :
    compile {} Specs.counted = .error (.schema (.notIterable "int"), []) := by
  rw [compile_eq_upTo]
  decide +kernel

/-- It is not only names that make a compilation fail. -/
theorem counted_raises : ¬ ∀ s : Specs, (∃ api log, compile {} s = .ok (api, log)) ∨
    ∃ c log, compile {} s = .error (.collision c, log) := by
  intro only
  rcases only .counted with ⟨api, log, h⟩ | ⟨c, log, h⟩
  · cases compile_counted.symm.trans h
  · cases compile_counted.symm.trans h

end ResourceGraph
