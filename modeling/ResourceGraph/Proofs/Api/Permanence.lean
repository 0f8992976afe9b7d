import Mathlib.Data.List.Nodup
import ResourceGraph.Proofs.Api.History

/-!
# Definitions are added once and stay

Whether a compilation succeeds or fails, no name on its record is defined twice. So each definition
goes after those that are there, and none of them is changed; after a success every name that was
claimed is done and defined. What is compiled for further resources goes after the rest, too.
-/

namespace ResourceGraph

variable {n : Nat}

/-! ## What a record adds -/

namespace Event

def enum? : Event n → Option EnumDef
  | .enumeration e => some e
  | _ => none

def output? : Event n → Option TypeDef
  | .type d => if d.isInput then none else some d
  | _ => none

def input? : Event n → Option TypeDef
  | .type d => if d.isInput then some d else none
  | _ => none

def resource? : Event n → Option Resource
  | .resource a => some a
  | _ => none

/-- The name that an event defines. -/
def added? : Event n → Option Named
  | .enumeration e => some (e.name, "enum")
  | .type d => some (d.name, d.kind)
  | _ => none

/-- The names that the events define, in order. -/
def added (es : List (Event n)) : List Named := es.filterMap added?

@[simp] theorem added_concat (es : List (Event n)) (e : Event n) :
    added (es ++ [e]) = added es ++ e.added?.toList := by
  rw [added, List.filterMap_append]
  cases h : e.added? <;> simp [added, h]

end Event

/-- One API is what there was before the rest of the other one. -/
structure Api.Begins (a b : Api) : Prop where
  enums : a.enums <+: b.enums
  types : a.types <+: b.types
  inputs : a.inputs <+: b.inputs
  queryFields : a.queryFields <+: b.queryFields
  resources : a.resources <+: b.resources

/-- The API with the definitions of a record, in order. -/
def Api.written (es : List (Event n)) : Api where
  enums := (es.filterMap Event.enum?).map fun e => (e.name, e)
  types := (es.filterMap Event.output?).map fun d => (d.name, d)
  inputs := (es.filterMap Event.input?).map fun d => (d.name, d)
  queryFields := (es.filterMap Event.resource?).flatMap Resource.queryFields
  resources := es.filterMap Event.resource?

theorem Api.begins_written {es es' : List (Event n)} (h : es <+: es') :
    (written es).Begins (written es') where
  enums := (h.filterMap _).map _
  types := (h.filterMap _).map _
  inputs := (h.filterMap _).map _
  queryFields := by
    obtain ⟨rest, listed⟩ := h.filterMap Event.resource?
    refine ⟨rest.flatMap Resource.queryFields, ?_⟩
    rw [written, written, ← listed, List.flatMap_append]
  resources := h.filterMap _

namespace Registry

/-- The names of a registry while `opened` are under construction and `added` are defined. -/
structure Tracks (r : Registry n) (opened added : List Named) : Prop where
  distinct : ((opened ++ added).map (·.1)).Nodup
  claimed : ∀ name kind, r.Has kind name ↔ (name, kind) ∈ opened ++ added
  visiting : ∀ name ∈ opened.map (·.1), r.state? name = some .visiting
  done : ∀ name ∈ added.map (·.1), r.state? name = some .done

variable {r r' : Registry n} {opened added : List Named} {name kind : String}

theorem tracks_empty : ({} : Registry n).Tracks [] [] where
  distinct := List.nodup_nil
  claimed _ _ := ⟨nofun, nofun⟩
  visiting := nofun
  done := nofun

/-- What was opened last has no definition. -/
theorem Tracks.head_unused (h : r.Tracks ((name, kind) :: opened) added) :
    name ∉ added.map (·.1) := fun used =>
  (List.nodup_cons.mp h.distinct).1 (List.map_subset _ (List.subset_append_right ..) used)

theorem state?_claim (source : Source n) (name' : String) :
    (r.claim name kind source).state? name'
      = if name' = name then some .visiting else r.state? name' := Keyed.find?_insert ..

/-- Only sources and states count. -/
theorem Tracks.congr (h : r.Tracks opened added) (sources : r'.sources = r.sources)
    (states : r'.states = r.states) : r'.Tracks opened added := by
  have state (name : String) : r'.state? name = r.state? name := by rw [state?, states, state?]
  refine ⟨h.distinct, fun name kind => ?_, fun name hn => ?_, fun name hn => ?_⟩
  · rw [Has, sources]
    exact h.claimed name kind
  · rw [state, h.visiting name hn]
  · rw [state, h.done name hn]

theorem Tracks.claim (h : r.Tracks opened added) (fresh : Keyed.find? name r.sources = none)
    (source : Source n) : (r.claim name kind source).Tracks ((name, kind) :: opened) added := by
  have unused : name ∉ (opened ++ added).map (·.1) := by
    intro used
    obtain ⟨⟨name, kind'⟩, listed, rfl⟩ := List.mem_map.mp used
    exact not_has_of_fresh fresh ((h.claimed name kind').mpr listed)
  have other {names : List Named} (sub : names ⊆ opened ++ added) :
      ∀ name' ∈ names.map (·.1), name' ≠ name := by
    rintro name' used rfl
    exact unused (List.map_subset _ sub used)
  refine ⟨List.nodup_cons.mpr ⟨unused, h.distinct⟩, fun name' kind' => ?_, ?_, ?_⟩
  · rw [has_claim fresh, h.claimed, List.cons_append, List.mem_cons, Prod.mk.injEq]
  · intro name' hn
    rw [state?_claim]
    rcases List.mem_cons.mp hn with rfl | hn
    · exact if_pos rfl
    · rw [if_neg (other (List.subset_append_left _ _) name' hn), h.visiting name' hn]
  · intro name' hn
    rw [state?_claim, if_neg (other (List.subset_append_right _ _) name' hn), h.done name' hn]

/-- The name that was opened last gets its definition. -/
theorem Tracks.close (h : r.Tracks ((name, kind) :: opened) added)
    (sources : r'.sources = r.sources) (states : r'.states = Keyed.insert name .done r.states) :
    r'.Tracks opened (added ++ [(name, kind)]) := by
  have moved :
      List.Perm (opened ++ (added ++ [(name, kind)])) ((name, kind) :: opened ++ added) := by
    rw [← List.append_assoc]
    exact List.perm_append_singleton ..
  have state (name' : String) :
      r'.state? name' = if name' = name then some .done else r.state? name' := by
    rw [state?, states, Keyed.find?_insert]
    rfl
  refine ⟨(moved.map _).nodup_iff.mpr h.distinct, fun name' kind' => ?_, ?_, ?_⟩
  · rw [Has, sources, moved.mem_iff]
    exact h.claimed name' kind'
  · intro name' hn
    have other : name' ≠ name := by
      rintro rfl
      exact (List.nodup_cons.mp h.distinct).1 (List.map_subset _ (List.subset_append_left ..) hn)
    rw [state, if_neg other, h.visiting name' (List.mem_cons_of_mem _ hn)]
  · intro name' hn
    rw [state]
    split
    · rfl
    · rename_i other
      rw [List.map_append, List.mem_append] at hn
      exact h.done name' (hn.resolve_right fun last => other (List.mem_singleton.mp last))

end Registry

/-! ## The registry that a record leads to -/

namespace Api

variable {es : List (Event n)}

/-- Definitions are on the record under their names. -/
theorem keys_subset_added {α : Type} {part : Event n → Option α} {name : α → String}
    (adds : ∀ e d, part e = some d → ∃ kind, e.added? = some (name d, kind)) :
    Keyed.keys ((es.filterMap part).map fun d => (name d, d)) ⊆ (Event.added es).map (·.1) := by
  intro s hs
  rw [Keyed.keys, List.map_map] at hs
  obtain ⟨d, hd, rfl⟩ := List.mem_map.mp hs
  obtain ⟨e, he, found⟩ := List.mem_filterMap.mp hd
  obtain ⟨kind, named⟩ := adds e d found
  exact List.mem_map.mpr ⟨(name d, kind), List.mem_filterMap.mpr ⟨e, he, named⟩, rfl⟩

theorem keys_enums_written : Keyed.keys (written es).enums ⊆ (Event.added es).map (·.1) :=
  keys_subset_added fun e d found => by
    cases e <;> cases found
    exact ⟨_, rfl⟩

theorem keys_types_written : Keyed.keys (written es).types ⊆ (Event.added es).map (·.1) :=
  keys_subset_added fun e d found => by
    cases e with
    | type d' =>
        rw [Event.output?] at found
        split at found <;> cases found
        exact ⟨_, rfl⟩
    | _ => cases found

theorem keys_inputs_written : Keyed.keys (written es).inputs ⊆ (Event.added es).map (·.1) :=
  keys_subset_added fun e d found => by
    cases e with
    | type d' =>
        rw [Event.input?] at found
        split at found <;> cases found
        exact ⟨_, rfl⟩
    | _ => cases found

theorem written_request (es : List (Event n)) (name kind : String) (source : Source n)
    (answer : Except CompileError Bool) :
    written (es ++ [.request name kind source answer]) = written es := by
  simp [written, Event.enum?, Event.output?, Event.input?, Event.resource?]

theorem written_enumeration (es : List (Event n)) (e : EnumDef) :
    written (es ++ [.enumeration e])
      = { written es with enums := (written es).enums ++ [(e.name, e)] } := by
  simp [written, Event.enum?, Event.output?, Event.input?, Event.resource?]

theorem written_type (es : List (Event n)) (d : TypeDef) :
    written (es ++ [.type d])
      = if d.isInput then { written es with inputs := (written es).inputs ++ [(d.name, d)] }
        else { written es with types := (written es).types ++ [(d.name, d)] } := by
  cases h : d.isInput <;>
    simp [written, Event.enum?, Event.output?, Event.input?, Event.resource?, h]

theorem written_resource (es : List (Event n)) (a : Resource) :
    written (es ++ [.resource a]) = (written es).addResource a := by
  simp [written, addResource, Event.enum?, Event.output?, Event.input?, Event.resource?]

/-- The names of all definitions: enumerations, types and inputs. -/
def keys (a : Api) : List String := Keyed.keys a.enums ++ Keyed.keys a.types ++ Keyed.keys a.inputs

theorem keys_written (es : List (Event n)) :
    (written es).keys.Perm ((Event.added es).map (·.1)) := by
  induction es with
  | nil => exact .nil
  | cons e es ih =>
      cases e with
      | request | resource => exact ih
      | enumeration e => exact ih.cons e.name
      | type d =>
          have added : Event.added (.type d :: es) = (d.name, d.kind) :: Event.added es := rfl
          cases input : d.isInput with
          | true =>
              have outputs : (Event.type d :: es).filterMap Event.output? = _ :=
                List.filterMap_cons_none (if_pos input)
              have inputs : (Event.type d :: es).filterMap Event.input? = _ :=
                List.filterMap_cons_some (if_pos input)
              rw [added, keys, written, outputs, inputs]
              exact List.perm_middle.trans (ih.cons d.name)
          | false =>
              have outputs : (Event.type d :: es).filterMap Event.output? = _ :=
                List.filterMap_cons_some (if_neg (Bool.eq_false_iff.mp input))
              have inputs : (Event.type d :: es).filterMap Event.input? = _ :=
                List.filterMap_cons_none (if_neg (Bool.eq_false_iff.mp input))
              rw [added, keys, written, outputs, inputs, List.append_assoc]
              rw [keys, List.append_assoc] at ih
              exact List.perm_middle.trans (ih.cons d.name)

end Api

namespace History

variable {Asked : Source n → Prop} {opened : List Named} {es : List (Event n)}

theorem tracks (history : History Asked opened es) :
    (Registry.replay es).Tracks opened (Event.added es) := by
  induction history with
  | nothing => exact Registry.tracks_empty
  | known _ asked answer ih =>
      rw [Registry.replay_concat, Event.added_concat]
      exact (List.append_nil _).symm ▸ ih
  | fresh _ asked answer ih =>
      rw [Registry.replay_concat, Event.added_concat]
      exact (List.append_nil _).symm ▸ ih.claim (Registry.isClaimed_eq_false answer) _
  | enumeration _ ih =>
      rw [Registry.replay_concat, Event.added_concat]
      exact ih.close rfl rfl
  | type _ ih =>
      rw [Registry.replay_concat, Event.added_concat]
      exact ih.close rfl rfl
  | resource _ ih =>
      rw [Registry.replay_concat, Event.added_concat]
      exact (List.append_nil _).symm ▸ ih.congr rfl rfl

theorem written (history : History Asked opened es) :
    (Registry.replay es).api = .written es := by
  induction history with
  | nothing => rfl
  | known _ asked answer ih =>
      rw [Registry.replay_concat, Api.written_request]
      exact ih
  | fresh _ asked answer ih =>
      rw [Registry.replay_concat, Api.written_request]
      exact ih
  | enumeration history ih =>
      have unused := history.tracks.head_unused
      rw [Registry.replay_concat, Api.written_enumeration, ← ih,
        ← Keyed.insert_of_not_mem fun listed => unused (Api.keys_enums_written (ih ▸ listed))]
      rfl
  | @type _ es d history ih =>
      have unused := history.tracks.head_unused
      rw [Registry.replay_concat, Api.written_type, ← ih,
        ← Keyed.insert_of_not_mem fun listed => unused (Api.keys_inputs_written (ih ▸ listed)),
        ← Keyed.insert_of_not_mem fun listed => unused (Api.keys_types_written (ih ▸ listed))]
      rfl
  | resource _ ih =>
      rw [Registry.replay_concat, Api.written_resource, ← ih]
      rfl

end History

/-- A record is all there is to its registry: the API has the definitions of the record, and every
name on it is under construction or defined. -/
structure Registry.Told (es : List (Event n)) : Prop where
  written : (replay es).api = .written es
  tracks : ∃ opened, (replay es).Tracks opened (Event.added es)

section

variable {Asked : Source n → Prop} {opened : List Named} {before es : List (Event n)}

/-- What a compilation had on its record before is a record, too. -/
theorem History.of_prefix (history : History Asked opened es) (h : before <+: es) :
    ∃ opened, History Asked opened before := by
  -- either the last event is there as well, or there was less on the record
  induction history with
  | nothing => exact ⟨[], List.prefix_nil.mp h ▸ .nothing⟩
  | known history asked answer ih =>
      exact (List.prefix_concat_iff.mp h).elim (· ▸ ⟨_, .known history asked answer⟩) ih
  | fresh history asked answer ih =>
      exact (List.prefix_concat_iff.mp h).elim (· ▸ ⟨_, .fresh history asked answer⟩) ih
  | enumeration history ih =>
      exact (List.prefix_concat_iff.mp h).elim (· ▸ ⟨_, .enumeration history⟩) ih
  | type history ih => exact (List.prefix_concat_iff.mp h).elim (· ▸ ⟨_, .type history⟩) ih
  | resource history ih =>
      exact (List.prefix_concat_iff.mp h).elim (· ▸ ⟨_, .resource history⟩) ih

theorem History.told (history : History Asked opened es) (h : before <+: es) :
    Registry.Told before :=
  let ⟨_, history⟩ := history.of_prefix h
  ⟨history.written, _, history.tracks⟩

/-- A request that is refused changes nothing. -/
theorem Registry.Told.refused {name kind : String} {source : Source n} {e : CompileError}
    (h : Told es) : Told (es ++ [.request name kind source (.error e)]) := by
  obtain ⟨opened, tracks⟩ := h.tracks
  refine ⟨?_, opened, ?_⟩
  · rw [replay_concat, Api.written_request]
    exact h.written
  · rw [replay_concat, Event.added_concat]
    exact (List.append_nil _).symm ▸ tracks

theorem Failure.told {Malformed : SchemaError → Prop} {e : CompileError}
    (failure : Failure Asked Malformed e es) (h : before <+: es) : Registry.Told before := by
  cases failure with
  | refused history =>
      rcases List.prefix_concat_iff.mp h with rfl | h
      · exact (history.told (List.prefix_refl _)).refused
      · exact history.told h
  | flaw history => exact history.told h

end

/-! ## All of a compilation -/

variable {o : CompileOptions} {s : Specs}

theorem record_snd : (record o s).2 = (Compilation.recordResources o s.specs {} []).2 := by
  rw [record]
  rcases Compilation.recordResources o s.specs {} [] with ⟨e | c, es⟩ <;> rfl

/-- At any time of a compilation, also of one that fails later. -/
theorem record_told {before : List (Event s.graph.size)} (h : before <+: (record o s).2) :
    Registry.Told before := by
  rcases record_ends o s with ⟨c, es, -, recorded, ends⟩ | ⟨t, e, log, es, -, failure, ends⟩
  · rw [ends] at h
    exact recorded.history.told h
  · rw [ends] at h
    exact failure.told h

/-- After a success nothing is under construction. -/
theorem record_tracks {api : Api} {log : List LogLine} (h : (record o s).1 = .ok (api, log)) :
    (Registry.replay (record o s).2).Tracks [] (Event.added (record o s).2) := by
  rcases record_ends o s with ⟨c, es, -, recorded, ends⟩ | ⟨t, e, log, es, -, failure, ends⟩
  · rw [ends]
    exact recorded.history.tracks
  · rw [ends] at h
    cases h

theorem Compilation.recordResources_append {g : RawGraph} (o : CompileOptions)
    (specs rest : List (ResourceSpec g.size)) (c : Compilation g.size)
    (es : List (Event g.size)) :
    recordResources o (specs ++ rest) c es = match recordResources o specs c es with
      | (.ok c', es') => recordResources o rest c' es'
      | (.error e, es') => (.error e, es') := by
  induction specs generalizing c es with
  | nil => rfl
  | cons spec specs ih =>
      rw [List.cons_append, recordResources, recordResources]
      rcases recordResource o c es spec with ⟨e | c', es'⟩
      · rfl
      · exact ih c' es'

theorem compile_written {api : Api} {log : List LogLine} (h : compile o s = .ok (api, log)) :
    api = .written (record o s).2 := by
  obtain ⟨same, replayed⟩ := record_replays o s
  rw [replayed api log (same.symm.trans h), (record_told (List.prefix_refl _)).written]

/-- With one more resource there is more on the record, and a failure is the same. -/
theorem record_longer (o : CompileOptions) (s : Specs) (spec : ResourceSpec s.graph.size) :
    (record o s).2 <+: (record o { s with specs := s.specs ++ [spec] }).2 ∧
      ∀ e, (record o s).1 = .error e →
        (record o { s with specs := s.specs ++ [spec] }).1 = .error e := by
  have split := Compilation.recordResources_append o s.specs [spec] {} []
  obtain ⟨-, shared⟩ := Compilation.recordResources_concludes (.initial o (s.specs ++ [spec]))
    fun spec' listed => List.mem_append_left [spec] listed
  rw [record_snd, record_snd, record, record]
  dsimp only
  rw [split]
  rcases ran : Compilation.recordResources o s.specs {} [] with ⟨e | c, es⟩
  · exact ⟨List.prefix_refl es, fun _ h => h⟩
  · rw [ran] at shared
    obtain ⟨more, -⟩ := Compilation.recordResources_concludes shared fun spec' listed =>
      List.mem_append_right s.specs listed
    exact ⟨more, nofun⟩

/-- What is compiled for one more resource comes after the rest. -/
theorem compile_begins {spec : ResourceSpec s.graph.size} {api : Api} {log : List LogLine}
    (h : compile o { s with specs := s.specs ++ [spec] } = .ok (api, log)) :
    ∃ before earlier, compile o s = .ok (before, earlier) ∧ before.Begins api := by
  obtain ⟨more, failure⟩ := record_longer o s spec
  rcases earlier : compile o s with e | ⟨before, log'⟩
  · have failed := failure e ((record_replays o s).1.symm.trans earlier)
    cases (record_replays o _).1.symm.trans h |>.symm.trans failed
  · rw [compile_written h, compile_written earlier]
    exact ⟨_, _, rfl, Api.begins_written more⟩

/-- Of every compilation there is a record. On it no name is defined twice, and at any time the API
so far is the beginning of what it is later. If the compilation succeeds, then every name that was
claimed is done and has one definition, and what is compiled for one more resource only adds to the
API. -/
theorem compile_permanent (o : CompileOptions) (s : Specs) :
    ∃ es, record o s = (compile o s, es) ∧ ((Event.added es).map (·.1)).Nodup ∧
      (∀ earlier later, earlier <+: later → later <+: es →
        (Registry.replay earlier).api.Begins (Registry.replay later).api) ∧
      (∀ api log, compile o s = .ok (api, log) → api = (Registry.replay es).api ∧
        ∀ kind name, (Registry.replay es).Has kind name →
          (Registry.replay es).state? name = some .done ∧ api.keys.count name = 1) ∧
      ∀ spec api log, compile o { s with specs := s.specs ++ [spec] } = .ok (api, log) →
        ∃ before earlier, compile o s = .ok (before, earlier) ∧ before.Begins api := by
  obtain ⟨same, replayed⟩ := record_replays o s
  have told : Registry.Told (record o s).2 := record_told (List.prefix_refl _)
  refine ⟨(record o s).2, Prod.ext same.symm rfl, ?_, fun earlier later h h' => ?_,
    fun api log h => ?_, fun spec api log h => compile_begins h⟩
  · obtain ⟨opened, tracks⟩ := told.tracks
    exact (List.nodup_append.mp (List.map_append ▸ tracks.distinct)).2.1
  · rw [(record_told (h.trans h')).written, (record_told h').written]
    exact Api.begins_written h
  · rw [same] at h
    obtain rfl := replayed api log h
    refine ⟨rfl, fun kind name has => ?_⟩
    have tracks := record_tracks h
    have defined := List.mem_map_of_mem (f := (·.1)) ((tracks.claimed name kind).mp has)
    refine ⟨tracks.done name defined, ?_⟩
    rw [told.written, (Api.keys_written _).count_eq]
    exact List.count_eq_one_of_mem tracks.distinct defined

end ResourceGraph
