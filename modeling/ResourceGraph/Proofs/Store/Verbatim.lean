import ResourceGraph.Proofs.Store.Search
import ResourceGraph.Proofs.Text.Lowering

/-!
# Verbatim occurrences

A search compares lowercase texts. A term that occurs in a text letter for letter is found there
if its lowercase occurs in that of the text, which depends on what stands around it when the term
has a capital sigma at a place where a word may begin or end.
-/

namespace ResourceGraph.MemoryStore

/-- Searches for the term count, whatever else the records are, every record in which one of the
paths holds a text with the term in it, letter for letter. -/
def FindsVerbatim (term : String) : Prop :=
  ∀ paths : List String, ∃ counted : Record → Bool,
    (∀ (records : List Record) (params : Keyed.Entries Value) (p : Pagination) (w : Window),
      Asks params p term w → search records params paths p
        = .ok (Page.ofMatches w ((records.filter counted).map .obj))) ∧
    ∀ (r : Record), ∀ path ∈ paths, ∀ text, Record.readPath (.obj r) path = .str text →
      term.toList <:+: text.toList → counted r = true

/-- A record with one text. -/
def texted (text : String) : Record := [("text", .str text)]

theorem readPath_texted (text : String) : Record.readPath (.obj (texted text)) "text" = .str text := by
  rw [Record.readPath, Record.segments_eq_singleton (by decide)]
  exact Record.readKeys_nest text ["text"]

/-- What a search finds in one record with one text. -/
theorem matchesTerm_texted {term text : String} :
    matchesTerm (Text.lower term) ["text"] (texted text) = true ↔
      (Text.lower term).toList <:+: (Text.lower text).toList := by
  rw [matchesTerm_iff]
  constructor
  · rintro ⟨path, mem, contains⟩
    obtain rfl := List.mem_singleton.mp mem
    rwa [readPath_texted] at contains
  · intro occurs
    refine ⟨"text", List.mem_singleton_self _, ?_⟩
    rw [readPath_texted]
    exact occurs

/-- If a term is found in a text, it is so in lowercase. -/
theorem FindsVerbatim.lower {term text : String} (finds : FindsVerbatim term)
    (occurs : term.toList <:+: text.toList) :
    (Text.lower term).toList <:+: (Text.lower text).toList := by
  by_cases nonempty : term = ""
  · subst nonempty
    exact List.nil_infix
  · have asks := asks_term nonempty
    obtain ⟨counted, found, all⟩ := finds ["text"]
    have is_counted : counted (texted text) = true :=
      all _ _ (List.mem_singleton_self _) text (readPath_texted text) occurs
    have same := (asks.search_eq [texted text] ["text"]).symm.trans (found _ _ _ _ asks)
    have total := congrArg Page.total (Except.ok.inj same)
    rw [← matchesTerm_texted]
    by_contra missed
    simp [Page.ofMatches, is_counted, missed] at total

/-- A term is found wherever it occurs letter for letter exactly if no capital sigma in it takes its
form from what may stand around the term. So every term without a capital sigma is. -/
theorem findsVerbatim_iff (term : String) :
    (FindsVerbatim term ↔ Text.Steady term) ∧ ('Σ' ∉ term.toList → FindsVerbatim term) := by
  have iff : FindsVerbatim term ↔ Text.Steady term := by
    rw [← Text.lower_infix_iff]
    constructor
    · exact fun finds text occurs => finds.lower occurs
    · intro found paths
      refine ⟨matchesTerm (Text.lower term) paths,
        fun records params p w asks => asks.search_eq records paths, ?_⟩
      intro r path hpath text held occurs
      refine matchesTerm_iff.mpr ⟨path, hpath, ?_⟩
      rw [held]
      exact found text occurs
  exact ⟨iff, fun plain => iff.mpr (Text.steady_of_notMem plain)⟩

/-- At the end of a word the sigma of the term is a final one, in the text it is not. -/
theorem sigma_not_findsVerbatim : ¬ ∀ term, FindsVerbatim term := by
  intro all
  have occurs : "ΑΣ".toList <:+: "ΑΣΑ".toList := occursIn_iff.mp (by decide)
  have lowered := (all "ΑΣ").lower occurs
  have term : Text.lower "ΑΣ" = "ας" := by decide +kernel
  have text : Text.lower "ΑΣΑ" = "ασα" := by decide +kernel
  rw [term, text, ← occursIn_iff] at lowered
  exact absurd lowered (by decide)

end ResourceGraph.MemoryStore
