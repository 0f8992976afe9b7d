import ResourceGraph.Proofs.Number.Double
import ResourceGraph.Proofs.Number.Text
import ResourceGraph.Proofs.Store.Paging
import ResourceGraph.TypeSystem.Scalar

/-!
# Finding records by the ids that are shown

Clients see an id as a text, and ask for the record by it. A lookup compares texts too, but it reads
every value as one, also what is no id, and a double in another way than it is shown. So it finds the
earliest record with the id, unless one of these is in the way.
-/

namespace ResourceGraph

/-- Two searches of one list find the same exactly if what is first for either is so for both. -/
theorem find?_eq_find?_iff {α : Type} {P Q : α → Bool} {as : List α} :
    as.find? P = as.find? Q ↔ ∀ a, as.find? (fun a => P a || Q a) = some a → (P a && Q a) = true := by
  induction as with
  | nil => simp
  | cons b rest ih =>
      cases hP : P b <;> cases hQ : Q b
      · simp [hP, hQ, ih]
      · refine iff_of_false (fun same => ?_) fun first => ?_
        · rw [List.find?_cons_of_pos hQ] at same
          exact Bool.false_ne_true (hP.symm.trans (List.find?_some same))
        · have both := first b (List.find?_cons_of_pos (by rw [hQ, Bool.or_true]))
          rw [hP] at both
          cases both
      · refine iff_of_false (fun same => ?_) fun first => ?_
        · rw [List.find?_cons_of_pos hP] at same
          exact Bool.false_ne_true (hQ.symm.trans (List.find?_some same.symm))
        · have both := first b (List.find?_cons_of_pos (by rw [hP, Bool.true_or]))
          rw [hQ, Bool.and_false] at both
          cases both
      · simp [hP, hQ]

/-! ## Ids as texts -/

namespace Value

/-- The text that clients see for an id, if the value can be one. -/
def shownId? (v : Value) : Option String :=
  match Scalar.answer .id v with
  | .ok (.str text) => some text
  | _ => none

/-- A text or an integer. -/
def isPlainId : Value → Bool
  | .str _ | .int _ => true
  | _ => false

theorem shownId?_of_plain {v : Value} (h : v.isPlainId = true) : v.shownId? = some v.plain := by
  cases v <;> first | rfl | cases h

/-- Of what is shown as an id only a double is no text or integer, and it is not read as shown. -/
theorem plain_ne_of_shown {v : Value} (h : v.isPlainId = false) {text : String}
    (shown : v.shownId? = some text) : v.plain ≠ text := by
  cases v with
  | double x =>
      unfold shownId? Scalar.answer Scalar.answerId at shown
      dsimp only at shown
      cases whole : x.toInt? with
      | none => rw [whole] at shown; cases shown
      | some n =>
          rw [whole] at shown
          obtain ⟨neg, m, q, finite, -⟩ := Double.toInt?_eq_some whole
          rw [← Option.some.inj shown]
          exact displayLayout.text_ne_toString finite n
  | str _ => cases h
  | int _ => cases h
  | _ => cases shown

/-- A text is shown and read for the same ids exactly if they are texts or integers. -/
theorem shown_and_read_iff {v : Value} {text : String}
    (either : (v.shownId? == some text || v.plain == text) = true) :
    (v.shownId? == some text && v.plain == text) = true ↔ v.isPlainId = true := by
  cases plain : v.isPlainId with
  | true =>
      rw [shownId?_of_plain plain] at either ⊢
      simpa using either
  | false =>
      simp only [Bool.and_eq_true, beq_iff_eq, iff_false, Bool.false_eq_true, not_and]
      exact plain_ne_of_shown plain

end Value

namespace MemoryStore

variable (s : MemoryStore)

/-- The value of a record that is taken for its id. -/
def idOf (r : Record) : Value := (Value.obj r).get s.idField

/-- Clients see the text for the id of the record. -/
def shows (text : String) (r : Record) : Bool := (s.idOf r).shownId? == some text

/-- The id of the record is the text when it is read as one. -/
def reads (text : String) (r : Record) : Bool := (s.idOf r).plain == text

theorem find_eq (resource : String) (id : Value) :
    s.find resource id = (s.database resource).find? (s.reads id.plain) := rfl

/-- The field of one record answers with what is found, or with null. -/
theorem run_single (a : Resource) (source id : Value) :
    ((Resolver.single a).run MemoryStore.store source [("id", id)]).run s
      = (.ok ((s.find a.name id).elim .null .obj), s) := rfl

/-- Some page of the list of a resource has the record. -/
def Listed (a : Resource) (r : Record) : Prop :=
  ∃ (q : ListQuery) (p : Pagination) (source : Value) (start : Int) (page : Page),
    (q.ask a p source start).run s = (.ok page.toValue, s) ∧ .obj r ∈ page.items

/-- If a record in a list has the text for its id, then a lookup of the text finds the earliest
record that has it. -/
def FindsShown (a : Resource) (text : String) : Prop :=
  ∀ r, s.Listed a r → s.shows text r = true → ∃ e before after,
    s.find a.name (.str text) = some e ∧ s.database a.name = before ++ e :: after ∧
      s.shows text e = true ∧ ∀ b ∈ before, s.shows text b = false

/-- A lookup of the id finds only records with an id. -/
def FindsIdentified (a : Resource) (id : Value) : Prop :=
  ∀ r, s.find a.name id = some r → s.idOf r ≠ .null

variable {s} {a : Resource}

/-- The lists of a resource have its records and no others. -/
theorem listed_iff {r : Record} : s.Listed a r ↔ r ∈ s.database a.name := by
  constructor
  · rintro ⟨q, p, source, start, page, answered, hr⟩
    rw [q.run_ask p] at answered
    have same := Page.toValue_injective (Except.ok.inj (congrArg Prod.fst answered))
    rw [← same] at hr
    have found := List.mem_of_mem_drop (List.mem_of_mem_take hr)
    obtain ⟨r', hr', same⟩ := List.mem_map.mp found
    cases same
    exact (List.mem_filter.mp hr').1
  · intro hr
    obtain ⟨i, hi, rfl⟩ := List.getElem_of_mem hr
    let q : ListQuery := {}
    have found : q.found a (s.database a.name) = (s.database a.name).map .obj := by
      rw [ListQuery.found, List.filter_eq_self.mpr fun r _ => decide_eq_true nofun]
    -- the page that starts at the record has it for its first item
    refine ⟨q, .default, .null, i, _, q.run_ask .default s a .null i, ?_⟩
    rw [found, (q.shows_window .default _ i).items, Int.toNat_natCast, ← List.map_drop,
      List.drop_eq_getElem_cons hi]
    obtain ⟨size, hsize⟩ := Nat.exists_eq_add_one.mpr (q.window .default 0).limit_pos
    rw [hsize]
    exact List.mem_cons_self ..

theorem findsShown_iff_find?_eq {text : String} : s.FindsShown a text ↔
    ((∃ r ∈ s.database a.name, s.shows text r = true) →
      (s.database a.name).find? (s.shows text) = (s.database a.name).find? (s.reads text)) := by
  constructor
  · rintro finds ⟨r, hr, shown⟩
    obtain ⟨e, before, after, found, split, first, missed⟩ := finds r (listed_iff.mpr hr) shown
    have earliest : (s.database a.name).find? (s.shows text) = some e := by
      refine List.find?_eq_some_iff_append.mpr ⟨first, before, after, split, fun b hb => ?_⟩
      rw [missed b hb]
      rfl
    exact earliest.trans found.symm
  · intro same r hr shown
    have hr := listed_iff.mp hr
    obtain ⟨e, earliest⟩ := Option.isSome_iff_exists.mp (List.find?_isSome.mpr ⟨r, hr, shown⟩)
    obtain ⟨first, before, after, split, missed⟩ := List.find?_eq_some_iff_append.mp earliest
    refine ⟨e, before, after, (same ⟨r, hr, shown⟩).symm.trans earliest, split, first, ?_⟩
    exact fun b hb => (Bool.not_eq_true' _).mp (missed b hb)

/-- The text of a shown id leads to the earliest record with that id exactly if the first record
whose id is shown or read as the text has a text or an integer for its id. -/
theorem findsShown_iff {text : String} : s.FindsShown a text ↔
    ((∃ r ∈ s.database a.name, s.shows text r = true) →
      ∀ e, (s.database a.name).find? (fun r => s.shows text r || s.reads text r) = some e →
        (s.idOf e).isPlainId = true) := by
  rw [findsShown_iff_find?_eq, find?_eq_find?_iff]
  refine imp_congr_right fun _ => forall_congr' fun e => imp_congr_right fun first => ?_
  exact Value.shown_and_read_iff
    (List.find?_some (p := fun r => s.shows text r || s.reads text r) first)

/-- Only what is read as the text for null finds a record without an id, and only if none before it
is read so. -/
theorem findsIdentified_iff {id : Value} : s.FindsIdentified a id ↔
    ¬ (id.plain = Value.null.plain ∧ ∃ r,
      (s.database a.name).find? (s.reads Value.null.plain) = some r ∧ s.idOf r = .null) := by
  constructor
  · rintro finds ⟨null, r, first, missing⟩
    exact finds r (by rw [find_eq, null]; exact first) missing
  · intro unread r found missing
    have read : s.reads id.plain r = true := List.find?_some found
    rw [reads, missing, beq_iff_eq] at read
    exact unread ⟨read.symm, r, by rw [read]; exact found, missing⟩

section

variable (plain : ∀ r ∈ s.database a.name, (s.idOf r).isPlainId = true)
include plain

theorem findsShown_of_plain (text : String) : s.FindsShown a text :=
  findsShown_iff.mpr fun _ e first => plain e (List.mem_of_find?_eq_some first)

theorem findsIdentified_of_plain (id : Value) : s.FindsIdentified a id := by
  intro r found missing
  have some := plain r (List.mem_of_find?_eq_some found)
  rw [missing] at some
  cases some

end

/-- However a store was filled, the lists of a resource have the records that were added to it, and
the field of one record answers with what a lookup of its argument finds. For every text, if one of
them has it for its id, then a lookup of the text finds the earliest that has it, exactly if the
first record whose id is shown or read as the text has a text or an integer for its id. For every
id, a lookup finds only records with an id, exactly if the id is not read as the text for null or
the first record that is read so has an id. All this holds if the ids of the records are texts and
integers. -/
theorem lookups_agree_iff (idField : String) (additions : List (String × Value)) (a : Resource) :
    let s := addEach { idField := idField } additions
    let records := added a.name additions
    (∀ r, s.Listed a r ↔ r ∈ records) ∧
    (∀ source id, ((Resolver.single a).run MemoryStore.store source [("id", id)]).run s
      = (.ok ((s.find a.name id).elim .null .obj), s)) ∧
    (∀ text, s.FindsShown a text ↔ ((∃ r ∈ records, s.shows text r = true) →
      ∀ e, records.find? (fun r => s.shows text r || s.reads text r) = some e →
        (s.idOf e).isPlainId = true)) ∧
    (∀ id, s.FindsIdentified a id ↔ ¬ (id.plain = Value.null.plain ∧
      ∃ r, records.find? (s.reads Value.null.plain) = some r ∧ s.idOf r = .null)) ∧
    ((∀ r ∈ records, (s.idOf r).isPlainId = true) →
      (∀ text, s.FindsShown a text) ∧ ∀ id, s.FindsIdentified a id) := by
  intro s records
  have database : s.database a.name = records := by
    rw [database_addEach]
    rfl
  rw [← database]
  exact ⟨fun r => listed_iff, s.run_single a, fun text => findsShown_iff,
    fun id => findsIdentified_iff,
    fun plain => ⟨findsShown_of_plain plain, findsIdentified_of_plain plain⟩⟩

def persons : Resource := ⟨"persons", "Person", "persons", "person", []⟩

/-- Persons with these ids. -/
def withIds (ids : List Value) : List (String × Value) :=
  ids.map fun id => ("persons", .obj [("id", id)])

theorem numbered_agree :
    (∀ r ∈ added "persons" (withIds [.str "7", .int 7]),
      ((addEach {} (withIds [.str "7", .int 7])).idOf r).isPlainId = true) ∧
    (∀ text, (addEach {} (withIds [.str "7", .int 7])).FindsShown persons text) ∧
    ∀ id, (addEach {} (withIds [.str "7", .int 7])).FindsIdentified persons id := by
  have plain : ∀ r ∈ added "persons" (withIds [.str "7", .int 7]),
      ((addEach {} (withIds [.str "7", .int 7])).idOf r).isPlainId = true := by decide
  exact ⟨plain, (lookups_agree_iff "id" _ persons).2.2.2.2 plain⟩

/-- The double `2.0` is shown as `2` and not found by it, and a missing id is found as `None`. -/
theorem ids_disagree :
    ¬ (∀ additions a text, (addEach {} additions).FindsShown a text) ∧
    ¬ ∀ additions a id, (addEach {} additions).FindsIdentified a id := by
  constructor
  · intro all
    have finds := findsShown_iff.mp (all (withIds [.double ⟨0x4000000000000000⟩]) persons "2")
    have shown : (addEach {} (withIds [.double ⟨0x4000000000000000⟩])).shows "2"
        [("id", .double ⟨0x4000000000000000⟩)] = true := by decide
    have plain := finds ⟨_, List.mem_singleton_self _, shown⟩ _
      (List.find?_cons_of_pos (by rw [shown, Bool.true_or]))
    cases plain
  · intro all
    exact all [("persons", .obj [("name", .str "Ada")])] persons (.str "None") _ rfl rfl

end MemoryStore

end ResourceGraph
