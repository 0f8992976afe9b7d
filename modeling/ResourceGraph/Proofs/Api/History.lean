import ResourceGraph.Proofs.Api.Recording
import ResourceGraph.Proofs.Api.WellFormed
import ResourceGraph.Proofs.Schema.Origin

/-!
# What can be on the record

On the record of a compilation, a request for a new name opens it, and a definition closes the name
that was opened last. What is still open at the end of a compilation is there because it failed:
at a request that was refused, at a reserved name, or at a malformed schema.
-/

namespace ResourceGraph

variable {n : Nat}

def TypeDef.kind (d : TypeDef) : String := if d.isInput then "input" else "type"

/-- A name with the kind of its definition. -/
abbrev Named := String × String

/-- The records of compilations that got that far: `Asked` is what names were requested for, and
`opened` are the names without a definition yet, the last one first. -/
inductive History (Asked : Source n → Prop) : List Named → List (Event n) → Prop
  | nothing : History Asked [] []
  | known {opened es name kind source} (history : History Asked opened es) (asked : Asked source)
      (answer : (Registry.replay es).isClaimed name kind source = .ok true) :
      History Asked opened (es ++ [.request name kind source (.ok true)])
  | fresh {opened es name kind source} (history : History Asked opened es) (asked : Asked source)
      (answer : (Registry.replay es).isClaimed name kind source = .ok false) :
      History Asked ((name, kind) :: opened) (es ++ [.request name kind source (.ok false)])
  | enumeration {opened es e} (history : History Asked ((e.name, "enum") :: opened) es) :
      History Asked opened (es ++ [.enumeration e])
  | type {opened es d} (history : History Asked ((d.name, d.kind) :: opened) es) :
      History Asked opened (es ++ [.type d])
  | resource {opened es a} (history : History Asked opened es) :
      History Asked opened (es ++ [.resource a])

/-- Why a compilation fails other than by a request: a name is reserved, or a schema is
malformed. -/
inductive Flaw (Malformed : SchemaError → Prop) : CompileError → Prop
  | reserved {name kind} (reserved : name ∈ reservedTypeNames) :
      Flaw Malformed (.collision ⟨name, "reserved type", kind⟩)
  | schema {e} (malformed : Malformed e) : Flaw Malformed (.schema e)

/-- The records of compilations that failed. -/
inductive Failure (Asked : Source n → Prop) (Malformed : SchemaError → Prop) :
    CompileError → List (Event n) → Prop
  | refused {opened es name kind source e} (history : History Asked opened es)
      (asked : Asked source)
      (answer : (Registry.replay es).answer name kind source = .error e) :
      Failure Asked Malformed e (es ++ [.request name kind source (.error e)])
  | flaw {opened es e} (history : History Asked opened es) (flaw : Flaw Malformed e) :
      Failure Asked Malformed e es

theorem History.mono {Asked Asked' : Source n → Prop} (h : ∀ source, Asked source → Asked' source)
    {opened : List Named} {es : List (Event n)} (history : History Asked opened es) :
    History Asked' opened es := by
  induction history with
  | nothing => exact .nothing
  | known _ asked answer ih => exact .known ih (h _ asked) answer
  | fresh _ asked answer ih => exact .fresh ih (h _ asked) answer
  | enumeration _ ih => exact .enumeration ih
  | type _ ih => exact .type ih
  | resource _ ih => exact .resource ih

/-- Every source of a registry was asked with. -/
theorem History.sources_asked {Asked : Source n → Prop} {opened : List Named} {es : List (Event n)}
    (history : History Asked opened es) {name kind : String} {source : Source n}
    (h : Keyed.find? name (Registry.replay es).sources = some (kind, source)) : Asked source := by
  induction history with
  | nothing => cases h
  | known _ _ _ ih | enumeration _ ih | resource _ ih =>
      rw [Registry.replay_concat] at h
      exact ih h
  | type _ ih =>
      rw [Registry.replay_concat] at h
      exact ih h
  | fresh _ asked _ ih =>
      rw [Registry.replay_concat] at h
      change Keyed.find? name (Keyed.insert _ _ _) = _ at h
      rw [Keyed.find?_insert] at h
      split at h
      · cases h
        exact asked
      · exact ih h

theorem Failure.mono {Asked : Source n → Prop} {Malformed Malformed' : SchemaError → Prop}
    (h : ∀ e, Malformed e → Malformed' e) {e : CompileError} {es : List (Event n)}
    (failure : Failure Asked Malformed e es) : Failure Asked Malformed' e es := by
  cases failure with
  | refused history asked answer => exact .refused history asked answer
  | flaw history flaw =>
      refine .flaw history ?_
      cases flaw with
      | reserved reserved => exact .reserved reserved
      | schema malformed => exact .schema (h _ malformed)

/-! ## Every compilation has a history -/

namespace Recording

variable {Asked : Source n → Prop} {Malformed : SchemaError → Prop} {α β : Type}

/-- The result of a compilation with its record: after a success the names `after` are open, and
those that were open around it. -/
def Ends (Asked : Source n → Prop) (Malformed : SchemaError → Prop) (after : α → List Named)
    (opened : List Named) : Except CompileError α × List (Event n) → Prop
  | (.ok a, es) => History Asked (after a ++ opened) es
  | (.error e, es) => Failure Asked Malformed e es

/-- Where the names `before` were opened last, a compilation leaves the names `after` open instead,
or it fails. -/
def Takes (Asked : Source n → Prop) (Malformed : SchemaError → Prop) (x : Recording n α)
    (before : List Named) (after : α → List Named) : Prop :=
  ∀ opened es, History Asked (before ++ opened) es →
    es <+: (outcome x es).2 ∧ Ends Asked Malformed after opened (outcome x es)

/-- A compilation that closes every name it opens. -/
abbrev Balanced (Asked : Source n → Prop) (Malformed : SchemaError → Prop) (x : Recording n α) :
    Prop := Takes Asked Malformed x [] fun _ => []

variable {x : Recording n α} {before : List Named}

theorem takes_pure (a : α) (before : List Named) :
    Takes Asked Malformed (pure a) before fun _ => before :=
  fun _ es history => ⟨List.prefix_refl es, history⟩

theorem Takes.bind {after : α → List Named} {f : α → Recording n β} {last : β → List Named}
    (hx : Takes Asked Malformed x before after)
    (hf : ∀ a, Takes Asked Malformed (f a) (after a) last) :
    Takes Asked Malformed (x >>= f) before last := by
  intro opened es history
  obtain ⟨grown, ends⟩ := hx opened es history
  rw [outcome_bind]
  rcases ran : outcome x es with ⟨e | a, es'⟩
  · rw [ran] at grown ends
    exact ⟨grown, ends⟩
  · rw [ran] at grown ends
    obtain ⟨grown', ends'⟩ := hf a opened es' ends
    exact ⟨grown.trans grown', ends'⟩

/-- What is open around a compilation stays open. -/
theorem Takes.frame (hx : Balanced Asked Malformed x) (names : List Named) :
    Takes Asked Malformed x names fun _ => names :=
  fun opened => hx (names ++ opened)

theorem balanced_look {y : Compiling n α}
    (flaw : ∀ r e, y.run r = .error e → Flaw Malformed e) :
    Balanced Asked Malformed (look y) := by
  intro opened es history
  refine ⟨List.prefix_refl es, ?_⟩
  show Ends _ _ _ _ ((y.run (Registry.replay es)).map (·.1), es)
  rcases ran : y.run (Registry.replay es) with e | ⟨a, r⟩
  · exact .flaw history (flaw _ _ ran)
  · exact history

theorem takes_request {source : Source n} (asked : Asked source) (name kind : String) :
    Takes Asked Malformed (request name kind source) []
      fun known => if known then [] else [(name, kind)] := by
  intro opened es history
  rw [outcome_request]
  refine ⟨List.prefix_append _ _, ?_⟩
  cases answer : (Registry.replay es).answer name kind source with
  | error e => exact .refused history asked answer
  | ok known =>
      have claimed := Registry.answer_eq_ok.mp answer
      cases known with
      | true => exact .known history asked claimed
      | false => exact .fresh history asked claimed

theorem takes_enumeration {e : EnumDef} {name : String} (named : e.name = name) :
    Takes (n := n) Asked Malformed (note (.enumeration e)) [(name, "enum")] fun _ => [] := by
  subst named
  exact fun _ _ history => ⟨List.prefix_append _ _, .enumeration history⟩

theorem takes_type (d : TypeDef) :
    Takes (n := n) Asked Malformed (note (.type d)) [(d.name, d.kind)] fun _ => [] :=
  fun _ _ history => ⟨List.prefix_append _ _, .type history⟩

theorem balanced_resource (a : Resource) :
    Balanced (n := n) Asked Malformed (note (.resource a)) :=
  fun _ _ history => ⟨List.prefix_append _ _, .resource history⟩

theorem balanced_checkReserved (name kind : String) :
    Balanced (n := n) Asked Malformed (look (Compiling.checkReserved name kind)) := by
  refine balanced_look fun r e failed => ?_
  unfold Compiling.checkReserved at failed
  split at failed
  · rename_i reserved
    cases failed
    exact .reserved reserved
  · cases failed

end Recording

/-- A scalar whose keywords cannot be looked up. -/
def Layout.Unnamed (e : SchemaError) : Layout n → Prop
  | .scalar type format =>
    Node.scalarName (some (.scalar (.serial 0) type format : Node n)) = .error e
  | _ => False

namespace NodeTable

/-- What names are requested for: what raw values stand for, page types and filters. -/
def Asked (t : NodeTable n) : Source n → Prop
  | .node x => x.Definable ∧ ∃ raw, t.Means raw x
  | .literal items => ∀ v ∈ items, ∃ s, v = .str s
  | .absent => False

theorem asked_literal (t : NodeTable n) (a b : String) : t.Asked (.literal [.str a, .str b]) := by
  simp [Asked]

/-- A scalar was read whose keywords cannot be looked up. -/
def Malformed {g : RawGraph} (t : NodeTable g.size) (e : SchemaError) : Prop :=
  ∃ i x, t.find? i = some x ∧ (Layout.ofObject g i).Unnamed e

end NodeTable

namespace Recording

section

variable {g : RawGraph} {t : NodeTable g.size}

/-- Only the keywords of a scalar may have no name. -/
theorem scalarName_flaw (sound : t.Sound []) (reflects : t.Reflects g [])
    {x : Option (Node g.size)} (means : ∀ y, x = some y → ∃ raw, t.Means raw y)
    (element : ∀ id values type, x ≠ some (.enumeration id values type))
    {r : Registry g.size} {e : CompileError}
    (failed : (Compiling.scalarName t x).run r = .error e) : Flaw t.Malformed e := by
  unfold Compiling.scalarName at failed
  cases unnamed : t.scalarOf x with
  | ok s =>
      rw [unnamed] at failed
      cases failed
  | error flaw =>
      rw [unnamed] at failed
      cases failed
      refine .schema ?_
      cases x with
      | none => cases unnamed
      | some y =>
          obtain ⟨raw, hy⟩ := means y rfl
          have concrete := ((hy.yields sound).settled sound).concrete
          cases y with
          | scalar key type format =>
              rcases hy.scalar sound reflects with ⟨i, z, found, layout⟩ | ⟨rfl, rfl⟩
              · exact ⟨i, z, found, layout ▸ unnamed⟩
              · cases unnamed
          | enumeration id values type => exact absurd rfl (element id values type)
          | array | object => cases unnamed
          | composite | ref => exact concrete.elim

theorem filterField?_flaw (sound : t.Sound []) (reflects : t.Reflects g [])
    {typeName : String} {p : String × Node g.size} (known : t.Denoted p.2)
    {r : Registry g.size} {e : CompileError}
    (failed : (Compiling.filterField? t typeName p).run r = .error e) : Flaw t.Malformed e := by
  obtain ⟨raw, denotes⟩ := known
  unfold Compiling.filterField? at failed
  dsimp only at failed
  split at failed
  · cases failed
  · rename_i key type format resolved
    rw [StateT.run_bind] at failed
    rcases named : (Compiling.scalarName t (some (.scalar key type format))).run r with e' | ⟨s, r'⟩
    · rw [named] at failed
      cases failed
      exact scalarName_flaw sound reflects (fun y hy => ⟨raw, p.2, denotes, hy ▸ resolved⟩) nofun
        named
    · rw [named] at failed
      cases failed
  · cases failed

theorem filterFields_flaw (sound : t.Sound []) (reflects : t.Reflects g [])
    {typeName : String} {properties : List (String × Node g.size)}
    (known : ∀ p ∈ properties, t.Denoted p.2) {fields : List Field} {r : Registry g.size}
    {e : CompileError}
    (failed : (Compiling.filterFields t typeName properties fields).run r = .error e) :
    Flaw t.Malformed e := by
  induction properties generalizing fields r with
  | nil => cases failed
  | cons p rest ih =>
      obtain ⟨hp, hrest⟩ := List.forall_mem_cons.mp known
      rw [Compiling.filterFields, StateT.run_bind] at failed
      rcases ran : (Compiling.filterField? t typeName p).run r with e' | ⟨field, r'⟩
      · rw [ran] at failed
        cases failed
        exact filterField?_flaw sound reflects hp ran
      · rw [ran] at failed
        cases field with
        | none => exact ih hrest failed
        | some f => exact ih hrest failed

theorem balanced_compileEnum {id : Fin g.size} {values : List Value} {type : Value}
    (means : ∃ raw, t.Means raw (.enumeration id values type)) (name : String) :
    Balanced t.Asked t.Malformed (compileEnum id values type name) := by
  unfold compileEnum
  split
  · exact takes_pure _ _
  · refine (balanced_checkReserved name "enum").bind fun _ => ?_
    refine (takes_request ⟨trivial, means⟩ name "enum").bind fun known => ?_
    cases known with
    | true => exact takes_pure _ _
    | false =>
        exact (takes_enumeration (EnumDef.ofValues_name name values)).bind fun _ => takes_pure _ _

/-- A compiler of objects is balanced on objects that values stand for. -/
def BalancedObjects (t : NodeTable g.size) (object : Objects g.size) : Prop :=
  ∀ {key properties required additional other} {raw : RawValue g.size},
    t.Means raw (.object key properties required additional other) → ∀ name,
    Balanced t.Asked t.Malformed (object key properties required additional other name)

section

variable {object : Objects g.size}

theorem BalancedObjects.type (balanced : BalancedObjects t object) (sound : t.Sound [])
    (reflects : t.Reflects g []) {node : Node g.size} (known : t.Denoted node) (name : String) :
    Balanced t.Asked t.Malformed (typeWith t object node name) := by
  obtain ⟨raw, denotes⟩ := known
  unfold typeWith
  split
  · rename_i resolved
    exact balanced_compileEnum ⟨raw, node, denotes, resolved⟩ name
  · rename_i resolved
    have means : t.Means raw _ := ⟨node, denotes, resolved⟩
    exact balanced means name
  · rename_i element _
    exact balanced_look fun r e => scalarName_flaw sound reflects
      (fun y hy => ⟨raw, node, denotes, hy⟩) element

theorem BalancedObjects.field (balanced : BalancedObjects t object) (sound : t.Sound [])
    (reflects : t.Reflects g []) (required : List String) (parent name : String)
    {node : Node g.size} (known : t.Denoted node) :
    Balanced t.Asked t.Malformed (fieldWith t object required parent name node) := by
  obtain ⟨raw, denotes⟩ := known
  unfold fieldWith
  dsimp only
  split
  · rename_i resolved
    exact (balanced_compileEnum ⟨raw, node, denotes, resolved⟩ _).bind fun type => takes_pure _ _
  · exact takes_pure _ _
  · rename_i items resolved
    have means : t.Means raw _ := ⟨node, denotes, resolved⟩
    have items := means.items sound reflects
    exact (balanced.type sound reflects items _).bind fun type => takes_pure _ _
  · rename_i resolved
    have means : t.Means raw _ := ⟨node, denotes, resolved⟩
    exact (balanced means _).bind fun type => takes_pure _ _
  · rename_i element _ _ _
    exact (balanced_look fun r e => scalarName_flaw sound reflects
      (fun y hy => ⟨raw, node, denotes, hy⟩) element).bind fun type => takes_pure _ _

theorem BalancedObjects.fields (balanced : BalancedObjects t object) (sound : t.Sound [])
    (reflects : t.Reflects g []) (required : List String) (parent : String)
    {properties : List (String × Node g.size)} (known : ∀ p ∈ properties, t.Denoted p.2)
    (fields : List Field) :
    Balanced t.Asked t.Malformed (fieldsWith t object required parent properties fields) := by
  induction properties generalizing fields with
  | nil => exact takes_pure _ _
  | cons p rest ih =>
      obtain ⟨hnode, hrest⟩ := List.forall_mem_cons.mp known
      exact (balanced.field sound reflects required parent p.1 hnode).bind fun field =>
        ih hrest (appendField fields field)

end

theorem balanced_compileObject (sound : t.Sound []) (reflects : t.Reflects g [])
    (visiting : Visiting g.size) : BalancedObjects t (compileObject t visiting) := by
  induction visiting using Compiling.visiting_induction with
  | step visiting ih =>
      intro key properties required additional other raw means name
      rw [compileObject_eq]
      split
      · exact takes_pure _ _
      · rename_i h
        refine (balanced_checkReserved name "type").bind fun _ => ?_
        refine (takes_request ⟨trivial, raw, means⟩ name "type").bind fun known => ?_
        cases known with
        | true => exact takes_pure _ _
        | false =>
            have inner : BalancedObjects t _ := ih key name h
            have fields := inner.fields sound reflects required name
              (means.property sound reflects) []
            exact (fields.frame [(name, "type")]).bind fun fields =>
              (takes_type _).bind fun _ => takes_pure _ _

theorem balanced_compileFilter (sound : t.Sound []) (reflects : t.Reflects g [])
    {properties : List (String × Node g.size)}
    (known : ∀ p ∈ properties, t.Denoted p.2) (typeName : String) :
    Balanced t.Asked t.Malformed (compileFilter t properties typeName) := by
  unfold compileFilter
  refine (takes_request (t.asked_literal _ _) _ _).bind fun claimed => ?_
  cases claimed with
  | true => exact takes_pure _ _
  | false =>
      have fields : Balanced t.Asked t.Malformed
          (look (Compiling.filterFields t typeName properties Compiling.commonFilterFields)) :=
        balanced_look fun r e => filterFields_flaw sound reflects known
      exact (fields.frame [(typeName ++ "Filter", "input")]).bind fun fields => takes_type _

end

theorem balanced_compileConnection {g : RawGraph} (t : NodeTable g.size) (typeName : String) :
    Balanced t.Asked t.Malformed (compileConnection typeName) := by
  unfold compileConnection
  refine (takes_request (t.asked_literal _ _) _ _).bind fun known => ?_
  cases known with
  | true => exact takes_pure _ _
  | false => exact takes_type _

end Recording

namespace Compilation

open Recording

variable {g : RawGraph} {o : CompileOptions} {specs : List (ResourceSpec g.size)}

/-- The tables that reading main schemas of resources leads to. -/
inductive Reads (o : CompileOptions) (specs : List (ResourceSpec g.size)) :
    NodeTable g.size → Prop
  | nothing : Reads o specs .empty
  | main {t t' spec raw node} (before : Reads o specs t) (listed : spec ∈ specs)
      (main : mainSchema? spec.schemas (o.naming.singular spec.name) = some raw)
      (read : Parsing.run g raw t = (.ok node, t')) : Reads o specs t'

theorem Reads.sound {t : NodeTable g.size} (h : Reads o specs t) : t.Sound [] := by
  induction h with
  | nothing => exact NodeTable.sound_empty []
  | main _ _ _ read ih => exact (Parsing.run_grown ih read).1.sound

theorem Reads.reflects {t : NodeTable g.size} (h : Reads o specs t) : t.Reflects g [] := by
  induction h with
  | nothing => exact NodeTable.reflects_empty []
  | main before _ _ read ih => exact (Parsing.run_ensures _ _ _ _ before.sound ih read).2.1

/-- A main schema cannot be read, or it has been read and something inside has no scalar. -/
inductive Malformed (o : CompileOptions) (specs : List (ResourceSpec g.size)) :
    SchemaError → Prop
  | unreadable {t t' spec raw e} (before : Reads o specs t) (listed : spec ∈ specs)
      (main : mainSchema? spec.schemas (o.naming.singular spec.name) = some raw)
      (read : Parsing.run g raw t = (.error e, t')) : Malformed o specs e
  | unnamed {t e} (reads : Reads o specs t) (malformed : t.Malformed e) : Malformed o specs e

theorem balanced_recordObject {t : NodeTable g.size} (sound : t.Sound [])
    (reflects : t.Reflects g []) {key : ObjectKey g.size}
    {properties : List (String × Node g.size)} {required : List String}
    {additional : Option (Node g.size)} {other : Value} {raw : RawValue g.size}
    (means : t.Means raw (.object key properties required additional other))
    (names : ResourceNames) (resource : String) :
    Balanced t.Asked t.Malformed
      (recordObject o t names resource key properties required additional other) := by
  unfold recordObject
  refine (balanced_compileObject sound reflects [] means names.typeName).bind fun _ => ?_
  refine (balanced_compileConnection t names.typeName).bind fun _ => ?_
  refine (balanced_compileFilter sound reflects (means.property sound reflects)
    names.typeName).bind fun _ => ?_
  exact balanced_resource _

/-- A compilation between two resources, with its record. -/
structure Recorded (o : CompileOptions) (specs : List (ResourceSpec g.size))
    (c : Compilation g.size) (es : List (Event g.size)) : Prop where
  reads : Reads o specs c.table
  history : History c.table.Asked [] es

theorem Recorded.initial (o : CompileOptions) (specs : List (ResourceSpec g.size)) :
    Recorded o specs {} [] :=
  ⟨.nothing, .nothing⟩

/-- What came of a compilation, with its record. -/
def Concludes {ε : Type} (o : CompileOptions) (specs : List (ResourceSpec g.size))
    (cause : ε → CompileError) : Except ε (Compilation g.size) × List (Event g.size) → Prop
  | (.ok c, es) => Recorded o specs c es
  | (.error e, es) => ∃ t, Reads o specs t ∧ Failure t.Asked (Malformed o specs) (cause e) es

variable {c : Compilation g.size} {es : List (Event g.size)} {spec : ResourceSpec g.size}

theorem recordMain_concludes (h : Recorded o specs c es) (listed : spec ∈ specs)
    {raw : RawValue g.size}
    (main : mainSchema? spec.schemas (o.naming.singular spec.name) = some raw) :
    es <+: (recordMain o c es spec raw).2 ∧ Concludes o specs id (recordMain o c es spec raw) := by
  unfold recordMain
  dsimp only
  cases (ResourceNames.of o.naming spec.name).conflict? c.registry.api with
  | some s => exact ⟨List.prefix_refl es, h.reads, h.history⟩
  | none =>
      rcases read : Parsing.run g raw c.table with ⟨e | node, table⟩
      · exact ⟨List.prefix_refl es, c.table, h.reads,
          .flaw h.history (.schema (.unreadable h.reads listed main read))⟩
      · obtain ⟨grown, -, denotes⟩ :=
          Parsing.parse_ensures [] raw _ _ _ h.reads.sound h.reads.reflects read
        have reads : Reads o specs table := .main h.reads listed main read
        have history : History table.Asked [] es := h.history.mono fun source asked => by
          cases source with
          | node x => exact asked.imp_right (·.imp fun raw => .extends h.reads.sound grown.keeps)
          | literal items => exact asked
          | absent => exact asked
        have skipped (c' : Compilation g.size) (same : c'.table = table) :
            Recorded o specs c' es := ⟨same ▸ reads, same ▸ history⟩
        dsimp only
        cases resolved : table.resolve node with
        | none => exact ⟨List.prefix_refl es, skipped _ rfl⟩
        | some x =>
            cases x with
            | object key properties required additional other =>
                have balanced := balanced_recordObject (o := o) reads.sound reads.reflects
                  ⟨node, denotes, resolved⟩ (ResourceNames.of o.naming spec.name) spec.name
                obtain ⟨grown, ends⟩ := balanced [] es history
                dsimp only
                rcases ran : (recordObject o table (ResourceNames.of o.naming spec.name) spec.name
                  key properties required additional other).outcome es with ⟨e | u, es'⟩
                · rw [ran] at grown ends
                  exact ⟨grown, table, reads, ends.mono fun e => .unnamed reads⟩
                · rw [ran] at grown ends
                  exact ⟨grown, reads, ends⟩
            | _ => exact ⟨List.prefix_refl es, skipped _ rfl⟩

theorem recordResource_concludes (h : Recorded o specs c es) (listed : spec ∈ specs) :
    es <+: (recordResource o c es spec).2 ∧ Concludes o specs id (recordResource o c es spec) := by
  unfold recordResource
  split
  · exact ⟨List.prefix_refl es, h.reads, h.history⟩
  · exact ⟨List.prefix_refl es, h.reads, h.history⟩
  · rename_i main
    exact recordMain_concludes h listed main

theorem recordResources_concludes {rest : List (ResourceSpec g.size)} (h : Recorded o specs c es)
    (listed : ∀ spec ∈ rest, spec ∈ specs) :
    es <+: (recordResources o rest c es).2 ∧
      Concludes o specs Prod.fst (recordResources o rest c es) := by
  induction rest generalizing c es with
  | nil => exact ⟨List.prefix_refl es, h⟩
  | cons spec rest ih =>
      obtain ⟨hspec, hrest⟩ := List.forall_mem_cons.mp listed
      obtain ⟨grown, concludes⟩ := recordResource_concludes h hspec
      rw [recordResources]
      rcases added : recordResource o c es spec with ⟨e | c', es'⟩
      · rw [added] at grown concludes
        exact ⟨grown, concludes⟩
      · rw [added] at grown concludes
        obtain ⟨grown', ends⟩ := ih concludes hrest
        exact ⟨grown.trans grown', ends⟩

end Compilation

/-- A compilation ends after all of its resources, or with a failure, and has its record. -/
theorem record_ends (o : CompileOptions) (s : Specs) :
    (∃ c es, Compilation.addResources o s.specs {} = .ok c ∧ Compilation.Recorded o s.specs c es ∧
      record o s = (.ok (c.registry.api, c.log ++ c.registry.api.summary s.specs.length), es)) ∨
    ∃ t e log es, Compilation.Reads o s.specs t ∧
      Failure t.Asked (Compilation.Malformed o s.specs) e es ∧
        record o s = (.error (e, log), es) := by
  have start : ({} : Compilation s.graph.size).registry = .replay [] := rfl
  obtain ⟨same, -⟩ := Compilation.recordResources_replays o s.specs start
  obtain ⟨-, concludes⟩ := Compilation.recordResources_concludes (.initial o s.specs)
    fun spec listed => listed
  unfold record
  rcases ran : Compilation.recordResources o s.specs {} [] with ⟨⟨e, log⟩ | c, es⟩
  · rw [ran] at concludes
    obtain ⟨t, reads, failure⟩ := concludes
    exact Or.inr ⟨t, e, log, es, reads, failure, rfl⟩
  · rw [ran] at same concludes
    exact Or.inl ⟨c, es, same, concludes, rfl⟩

end ResourceGraph
