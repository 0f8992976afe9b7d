import ResourceGraph.Proofs.Api.Evaluation
import ResourceGraph.Proofs.Api.Permanence
import ResourceGraph.Proofs.Schema.Differences
import ResourceGraph.Proofs.Schema.Looping

/-!
# When a repeated request is refused

A name that is requested again for a raw schema of the same content is refused exactly if, in one
place of the two nodes, there is a reference that the other has not, other names are required, values
are kept whose comparison never ends, or resolution was cut off elsewhere.
-/

namespace ResourceGraph

variable {n : Nat} {Asked : Source n → Prop} {opened : List Named} {es before : List (Event n)}

/-! ## Requests on the record -/

/-- A name that was requested is claimed by an equal source. -/
theorem History.claimed (history : History Asked opened es) {name kind : String} {x : Node n}
    {known : Bool} (h : .request name kind (.node x) (.ok known) ∈ es) :
    Asked (.node x) ∧ ∃ z, Keyed.find? name (Registry.replay es).sources = some (kind, .node z) ∧
      z.sameOrEqual x = true := by
  induction history with
  | nothing => cases h
  | known _ asked answer ih =>
      rw [Registry.replay_concat]
      rcases List.mem_append.mp h with h | h
      · exact ih h
      · cases List.mem_singleton.mp h
        obtain ⟨existing, found, same⟩ := Registry.isClaimed_eq_true answer
        cases existing with
        | node z => exact ⟨asked, z, found, same⟩
        | _ => cases same
  | fresh _ asked answer ih =>
      rw [Registry.replay_concat]
      rcases List.mem_append.mp h with h | h
      · obtain ⟨asked, z, found, same⟩ := ih h
        refine ⟨asked, z, ?_, same⟩
        show Keyed.find? name (Keyed.insert _ _ _) = _
        rw [Keyed.find?_insert, if_neg]
        · exact found
        · rintro rfl
          cases found.symm.trans (Registry.isClaimed_eq_false answer)
      · cases List.mem_singleton.mp h
        exact ⟨asked, x, Registry.find?_claim .., by simp [Node.sameOrEqual]⟩
  | enumeration _ ih | type _ ih | resource _ ih =>
      rw [Registry.replay_concat]
      rcases List.mem_append.mp h with h | h
      · exact ih h
      · cases List.mem_singleton.mp h

/-- A request that was answered from the record up to there. -/
structure Requested (Asked : Source n → Prop) (before : List (Event n)) (name kind : String)
    (source : Source n) (answer : Except CompileError Bool) : Prop where
  history : ∃ opened, History Asked opened before
  asked : Asked source
  answered : (Registry.replay before).answer name kind source = answer

variable {name kind : String} {source : Source n} {answer : Except CompileError Bool}

theorem History.request (history : History Asked opened es)
    (h : before ++ [.request name kind source answer] <+: es) :
    Requested Asked before name kind source answer ∧ ∃ known, answer = .ok known := by
  obtain ⟨opened', history⟩ := history.of_prefix h
  generalize same : before ++ [.request name kind source answer] = es' at history
  cases history with
  | nothing => cases (List.append_eq_nil_iff.mp same).2
  | known history asked answer =>
      obtain ⟨rfl, last⟩ := List.append_inj' same rfl
      cases last
      exact ⟨⟨⟨_, history⟩, asked, Registry.answer_eq_ok.mpr answer⟩, _, rfl⟩
  | fresh history asked answer =>
      obtain ⟨rfl, last⟩ := List.append_inj' same rfl
      cases last
      exact ⟨⟨⟨_, history⟩, asked, Registry.answer_eq_ok.mpr answer⟩, _, rfl⟩
  | enumeration | type | resource =>
      obtain ⟨-, last⟩ := List.append_inj' same rfl
      cases last

/-- A compilation ends at a request that is refused. -/
theorem Failure.request {Malformed : SchemaError → Prop} {e : CompileError}
    (failure : Failure Asked Malformed e es)
    (h : before ++ [.request name kind source answer] <+: es) :
    Requested Asked before name kind source answer ∧ ∀ e', answer = .error e' → e = e' := by
  cases failure with
  | refused history asked answer =>
      rcases List.prefix_concat_iff.mp h with same | h
      · obtain ⟨rfl, last⟩ := List.append_inj' same rfl
        cases last
        exact ⟨⟨⟨_, history⟩, asked, answer⟩, fun _ h => Except.error.inj h⟩
      · obtain ⟨requested, known, rfl⟩ := history.request h
        exact ⟨requested, nofun⟩
  | flaw history =>
      obtain ⟨requested, known, rfl⟩ := history.request h
      exact ⟨requested, nofun⟩

/-- Every request of a compilation is answered from the record up to there. -/
theorem record_requests (o : CompileOptions) (s : Specs) :
    ∃ t, Compilation.Reads o s.specs t ∧ ∀ before name kind source answer,
      before ++ [.request name kind source answer] <+: (record o s).2 →
        Requested t.Asked before name kind source answer ∧
          ∀ e, answer = .error e → ∃ log, compile o s = .error (e, log) := by
  rw [(record_replays o s).1]
  rcases record_ends o s with ⟨c, es, -, recorded, ends⟩ | ⟨t, e, log, es, reads, failure, ends⟩
  · rw [ends]
    refine ⟨c.table, recorded.reads, fun before name kind source answer h => ?_⟩
    obtain ⟨requested, known, rfl⟩ := recorded.history.request h
    exact ⟨requested, nofun⟩
  · rw [ends]
    refine ⟨t, reads, fun before name kind source answer h => ?_⟩
    obtain ⟨requested, refused⟩ := failure.request h
    exact ⟨requested, fun e' h => ⟨log, by rw [refused e' h]⟩⟩

/-! ## Equal contents -/

namespace NodeTable

variable {g : RawGraph} {t : NodeTable g.size}

/-- Of proper nodes in a table, the same ones are equal. -/
theorem sameOrEqual_iff (sound : t.Sound []) {x y : Node g.size} (hx : t.Yields x)
    (hy : t.Yields y) (definable : x.Definable) (proper : x.All Node.IsProper) :
    x.sameOrEqual y = true ↔ x.Eqv y := by
  rw [Node.sameOrEqual, Bool.or_eq_true, decide_eq_true_eq]
  refine ⟨fun h => h.elim (fun same => ?_) id, Or.inr⟩
  obtain rfl := hx.eq_of_identity sound hy definable.rooted same
  exact Node.looseEq_self proper

end NodeTable

/-- A name that is requested again is refused exactly if the two nodes are not equal, and in which
way is up to the comparison with the node on record. -/
theorem Requested.again {g : RawGraph} {t : NodeTable g.size} (sound : t.Sound [])
    (reflects : t.Reflects g []) {before : List (Event g.size)} {x y : Node g.size} {known : Bool}
    (first : .request name kind (.node x) (.ok known) ∈ before)
    (second : Requested t.Asked before name kind (.node y) answer) :
    t.Asked (.node x) ∧
    (answer = .ok true ∧ x.Eqv y ∨ ∃ e, answer = .error e ∧ ¬ x.Eqv y ∧
      (e = .collision ⟨name, kind, kind⟩ ∨ e = .schema .endless)) ∧
    ∃ z, Keyed.find? name (Registry.replay before).sources = some (kind, .node z) ∧ z.Eqv x ∧
      (answer = .error (.schema .endless) ↔ z.compareOnce y = .endless) := by
  obtain ⟨opened, history⟩ := second.history
  obtain ⟨askedX, z, found, same⟩ := history.claimed first
  obtain ⟨definableZ, u, hz⟩ := history.sources_asked found
  obtain ⟨definableX, v, hx⟩ := id askedX
  obtain ⟨definableY, w, hy⟩ := second.asked
  have properX := hx.proper sound reflects
  have properY := hy.proper sound reflects
  have properZ := hz.proper sound reflects
  have equal := (NodeTable.sameOrEqual_iff sound (hz.yields sound) (hx.yields sound) definableZ
    properZ).mp same
  have agreed : z.compareOnce y = .same ↔ x.Eqv y := by
    rw [Node.compareOnce_eq_same properZ properY, NodeTable.sameOrEqual_iff sound
      (hz.yields sound) (hy.yields sound) definableZ properZ]
    exact ⟨(equal.symm properZ properX).trans properX properZ properY,
      equal.trans properZ properX properY⟩
  obtain ⟨accepted, collided, stuck⟩ := Registry.answer_iff_compare found properZ properY
  rw [second.answered] at accepted collided stuck
  refine ⟨askedX, ?_, z, found, equal, stuck⟩
  rw [← agreed]
  cases outcome : z.compareOnce y with
  | same => exact Or.inl ⟨accepted.mpr outcome, rfl⟩
  | different => exact Or.inr ⟨_, collided.mpr outcome, by simp, Or.inl rfl⟩
  | endless => exact Or.inr ⟨_, stuck.mpr outcome, by simp, Or.inr rfl⟩

theorem Compilation.Reads.loops {g : RawGraph} {o : CompileOptions}
    {specs : List (ResourceSpec g.size)} {t : NodeTable g.size} (h : Reads o specs t) :
    t.Loops := by
  induction h with
  | nothing => exact NodeTable.loops_empty
  | main _ _ _ read ih => exact Parsing.run_loops ih read

/-- Any name that is requested twice for nodes, for definitions of one kind, is refused exactly if
the nodes are not equal: because the comparison with the node on record never ends, or else by a
collision. Nodes of values of the same content are equal unless they differ in a reference, in
required names, in kept values whose comparison never ends, or by a composite that comes back to
itself and is cut off. Nodes of values that unfold to one tree, where nothing contains itself, are
equal. -/
theorem repeated_request_iff (o : CompileOptions) (s : Specs) :
    compile o s = (record o s).1 ∧ ∃ t, Compilation.Reads o s.specs t ∧
      ∀ before name kind x y known answer, .request name kind (.node x) (.ok known) ∈ before →
        before ++ [.request name kind (.node y) answer] <+: (record o s).2 →
          (answer = .ok true ∧ x.Eqv y ∨ ∃ e, answer = .error e ∧ ¬ x.Eqv y ∧
            (e = .collision ⟨name, kind, kind⟩ ∨ e = .schema .endless) ∧
            ∃ log, compile o s = .error (e, log)) ∧
          (∃ z, Keyed.find? name (Registry.replay before).sources = some (kind, .node z) ∧
            z.Eqv x ∧ (answer = .error (.schema .endless) ↔ z.compareOnce y = .endless)) ∧
          (∃ v, t.Means v x) ∧ (∃ w, t.Means w y) ∧
          ∀ v w, t.Means v x → t.Means w y →
            (s.graph.Same v w → (x.Eqv y ↔ ¬ t.Differs x y)) ∧
            (s.graph.Acyclic v → s.graph.Acyclic w → s.graph.unfold v = s.graph.unfold w →
              x.Eqv y) := by
  obtain ⟨t, reads, requests⟩ := record_requests o s
  refine ⟨(record_replays o s).1, t, reads, ?_⟩
  intro before name kind x y known answer first second
  have sound := reads.sound
  have reflects := reads.reflects
  obtain ⟨requested, refused⟩ := requests before name kind (.node y) answer second
  obtain ⟨asked, answers, onRecord⟩ := requested.again sound reflects first
  refine ⟨answers.imp_right ?_, onRecord, asked.2, requested.asked.2, fun v w hx hy =>
    ⟨hx.eqv_iff sound reflects hy, hx.eqv_of_unfold sound reflects reads.loops hy⟩⟩
  rintro ⟨e, error, unequal, cause⟩
  exact ⟨e, error, unequal, cause, refused e error⟩

/-- Persons with a line of their address, and with an address line of the same content. -/
def Specs.lined : Specs where
  graph :=
    { size := 8
      objects := #v[
        [("type", .str "object"), ("properties", .obj 1)],
        [("address", .obj 2), ("addressLine", .obj 3)],
        [("type", .str "object"), ("properties", .obj 4)],
        [("type", .str "object"), ("properties", .obj 5)],
        [("line", .obj 6)],
        [("person", .obj 0)],
        [("type", .str "object"), ("properties", .obj 7)],
        [("person", .obj 0)]]
      nodup := by decide }
  specs := [{ name := "persons", schemas := [("Person", .obj 0)] }]

namespace Specs.lined

def line : Node 8 := .object (.parsed 6) [("person", .ref 0 0)] [] none .null

def addressLine : Node 8 := .object (.parsed 3) [("person", .ref 1 0)] [] none .null

def address : Node 8 := .object (.parsed 2) [("line", line)] [] none .null

def person : Node 8 :=
  .object (.parsed 0) [("address", address), ("addressLine", addressLine)] [] none .null

def table : NodeTable 8 :=
  ⟨#v[some person, none, some address, some addressLine, none, none, some line, none], 2⟩

theorem reads_table : Compilation.Reads {} lined.specs table := by
  have read : Parsing.run lined.graph (.obj (0 : Fin 8)) .empty
      = ((.ok person, table) :
          Except SchemaError (Node lined.graph.size) × NodeTable lined.graph.size) := by
    rw [Parsing.run_eq_upTo]
    decide +kernel
  exact .main .nothing (List.mem_singleton_self _) (by cbv) read

/-- One object twice, or the two lines, or their properties. -/
def Paired (v w : RawValue 8) : Prop :=
  v = w ∨ v = .obj 6 ∧ w = .obj 3 ∨ v = .obj 7 ∧ w = .obj 5

theorem same_lines : lined.graph.Same (.obj (6 : Fin 8)) (.obj (3 : Fin 8)) := by
  refine RawGraph.Same.of_forall_level (R := Paired) (fun v w paired => ?_)
    (Or.inr (Or.inl ⟨rfl, rfl⟩))
  rcases paired with rfl | ⟨rfl, rfl⟩ | ⟨rfl, rfl⟩
  · exact .refl (fun _ => Or.inl rfl) v
  · refine .obj (Keyed.agree_of_forall₂ ?_)
    exact .cons ⟨rfl, Or.inl rfl⟩ (.cons ⟨rfl, Or.inr (Or.inr ⟨rfl, rfl⟩)⟩ .nil)
  · refine .obj (Keyed.agree_of_forall₂ ?_)
    exact .cons ⟨rfl, Or.inl rfl⟩ .nil

set_option maxRecDepth 4000 in
theorem record_lines : ∃ a b d e, (record {} lined).2
    = [a, b, .request "PersonAddressLine" "type" (.node line) (.ok false), d, e,
        .request "PersonAddressLine" "type" (.node addressLine)
          (.error (.collision ⟨"PersonAddressLine", "type", "type"⟩))] := by
  have ran : (record {} lined).2 = (record {} lined).2 := rfl
  -- Unfolded by hand, since their equations take longer to prove than all else to compute.
  conv at ran =>
    rhs
    unfold record Compilation.recordResources Compilation.recordResource Compilation.recordMain
    cbv
  exact ⟨_, _, _, _, ran⟩

end Specs.lined

/-- The same content is not enough: the two lines refer to the person by two references. -/
theorem same_lines_refused : ¬ ∀ (s : Specs) (t : NodeTable s.graph.size)
    (before : List (Event s.graph.size)) (name kind : String) (x y : Node s.graph.size)
    (known : Bool) (answer : Except CompileError Bool) (v w : RawValue s.graph.size),
    Compilation.Reads {} s.specs t →
      .request name kind (.node x) (.ok known) ∈ before →
      before ++ [.request name kind (.node y) answer] <+: (record {} s).2 →
      t.Means v x → t.Means w y → s.graph.Same v w → answer = .ok true := by
  intro claimed
  obtain ⟨a, b, d, e, recorded⟩ := Specs.lined.record_lines
  have again := claimed .lined Specs.lined.table
    [a, b, .request "PersonAddressLine" "type" (.node Specs.lined.line) (.ok false), d, e]
    "PersonAddressLine" "type" Specs.lined.line Specs.lined.addressLine false
    (.error (.collision ⟨"PersonAddressLine", "type", "type"⟩)) (.obj (6 : Fin 8)) (.obj (3 : Fin 8))
    Specs.lined.reads_table (by simp) (recorded ▸ List.prefix_refl _)
    ⟨_, .found rfl, rfl⟩ ⟨_, .found rfl, rfl⟩ Specs.lined.same_lines
  cases again

end ResourceGraph
