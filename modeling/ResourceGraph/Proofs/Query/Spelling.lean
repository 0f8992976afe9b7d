import ResourceGraph.Api.Printer
import ResourceGraph.Proofs.Api.Names

/-!
# The tokens of a schema text

A text of names, marks and blanks is written for the tokens that it is taken apart into, and the
text of a schema for those of its definitions, one after the other. A name that is empty leaves no
token.
-/

namespace ResourceGraph

namespace Query

/-- Whatever comes next does not go on with a name. -/
def Parts (cs : List Char) : Prop := ∀ c ∈ cs.head?, isNameChar c = false

theorem parts_cons {c : Char} {cs : List Char} (h : isNameChar c = false) : Parts (c :: cs) := by
  simpa [Parts] using h

/-- The characters are written for the tokens. -/
inductive Spells : List Char → List Token → Prop
  | nil : Spells [] []
  | ignored {c rest ts} (h : isIgnored c = true) (tail : Spells rest ts) : Spells (c :: rest) ts
  | mark {c m rest ts} (h : Mark.ofChar? c = some m) (tail : Spells rest ts) :
      Spells (c :: rest) (.mark m :: ts)
  | name {c word rest ts} (start : isNameStart c = true) (chars : ∀ d ∈ word, isNameChar d = true)
      (parts : Parts rest) (tail : Spells rest ts) :
      Spells (c :: (word ++ rest)) (.name (String.ofList (c :: word)) :: ts)

theorem takeWhile_append_parts {word rest : List Char} (chars : ∀ d ∈ word, isNameChar d = true)
    (parts : Parts rest) : (word ++ rest).takeWhile isNameChar = word := by
  rw [List.takeWhile_append_of_pos chars]
  cases rest with
  | nil => simp
  | cons c rest => rw [List.takeWhile_cons_of_neg (by simp [parts c rfl]), List.append_nil]

/-- A text is taken apart into the tokens that it is written for. -/
theorem Spells.contents {cs : List Char} {ts : List Token} (h : Spells cs ts) (offset : Nat) :
    (lexemesFrom 0 offset cs).map Lexeme.content = (ts ++ [Token.endOfText]).map .ok := by
  induction h generalizing offset with
  | nil => rfl
  | ignored h _ ih =>
      rw [lexemesFrom, if_pos h]
      exact ih _
  | @mark c m rest ts h _ ih =>
      obtain ⟨-, unignored, uncommented⟩ := mark_char (c := c) (by rw [h]; rfl)
      have scanned : scanToken c rest = .ok (.mark m, 1) := by
        unfold scanToken
        rw [h]
      rw [lexemesFrom, if_neg (by simp [unignored]), if_neg uncommented, scanned]
      exact congrArg (_ :: ·) (ih _)
  | @name c word rest ts start chars parts _ ih =>
      obtain ⟨unignored, uncommented, -⟩ := nameStart_char start
      rw [lexemesFrom, if_neg (by simp [unignored]), if_neg uncommented, scanToken_name _ start,
        takeWhile_append_parts chars parts]
      dsimp only
      rw [Nat.add_sub_cancel, lexemesFrom_skip _ _ _ (by simp), List.drop_left]
      exact congrArg (_ :: ·) (ih _)

/-- A name of a text, also with two underscores at the front. -/
def IsName (s : String) : Prop :=
  (∃ c ∈ s.toList.head?, isNameStart c = true) ∧ ∀ c ∈ s.toList, isNameChar c = true

instance : DecidablePred IsName := fun s =>
  decidable_of_iff (s.toList.head?.any isNameStart = true ∧ s.toList.all isNameChar = true)
    (and_congr (Option.any_eq_true ..) List.all_eq_true)

/-- A name of a text, or none at all. -/
def IsSpelled (s : String) : Prop := s = "" ∨ IsName s

theorem isName_of_named {s : String} (h : Naming.isName s = true) : IsName s := by
  rw [Naming.isName] at h
  refine ⟨?_, fun c hc => ?_⟩
  · cases text : s.toList with
    | nil =>
        rw [text] at h
        cases h
    | cons c cs =>
        rw [text] at h
        exact ⟨c, rfl, (Naming.isNameText_cons.mp h).1⟩
  · rcases Naming.isNameChar_iff.mp (Naming.isNameChar_of_mem h c hc) with h | h
    · simp [isNameChar, h]
    · have digit : isDigit c = true := h
      simp [isNameChar, digit]

theorem isSpelled_of_isWord {s : String} (h : IsWord s) : IsSpelled s := h.imp_right isName_of_named

theorem IsName.ne_empty {s : String} (h : IsName s) : s ≠ "" := by
  rintro rfl
  obtain ⟨⟨c, first, -⟩, -⟩ := h
  cases first

/-- The token of a name, if there is one. -/
def word (s : String) : List Token := if s = "" then [] else [.name s]

theorem word_of_ne {s : String} (h : s ≠ "") : word s = [.name s] := if_neg h

theorem spells_word {s : String} (hs : IsSpelled s) {rest : List Char} {ts : List Token}
    (parts : Parts rest) (tail : Spells rest ts) : Spells (s.toList ++ rest) (word s ++ ts) := by
  rcases hs with rfl | named
  · exact tail
  · rw [word_of_ne named.ne_empty]
    obtain ⟨⟨c, first, start⟩, chars⟩ := named
    obtain ⟨cs, text⟩ := List.head?_eq_some_iff.mp first
    have spelled : s = String.ofList (c :: cs) := by rw [← text, String.ofList_toList]
    rw [text] at chars ⊢
    rw [spelled]
    exact .name start (fun d hd => chars d (List.mem_cons_of_mem c hd)) parts tail

theorem spells_name {s : String} (hs : IsName s) {rest : List Char}
    {ts : List Token} (parts : Parts rest) (tail : Spells rest ts) :
    Spells (s.toList ++ rest) (.name s :: ts) := by
  have spelled := spells_word (Or.inr hs) parts tail
  rwa [word_of_ne hs.ne_empty] at spelled

/-- The items are written one by one, whatever comes after them. -/
def SpellsEach {α : Type} (text : α → String) (tokens : α → List Token) (as : List α) : Prop :=
  ∀ a ∈ as, ∀ rest ts, Parts rest → Spells rest ts →
    Spells ((text a).toList ++ rest) (tokens a ++ ts)

section Lists

variable {α : Type} {text : α → String} {tokens : α → List Token} {as : List α}
  {rest : List Char} {ts : List Token}

theorem spells_blank {cs : List Char} (blank : ∀ c ∈ cs, isIgnored c = true)
    (tail : Spells rest ts) : Spells (cs ++ rest) ts := by
  induction cs with
  | nil => exact tail
  | cons c cs ih =>
      obtain ⟨hc, hcs⟩ := List.forall_mem_cons.mp blank
      exact .ignored hc (ih hcs)

/-- Items on lines of their own. -/
theorem spells_lines (h : SpellsEach text tokens as) (tail : Spells rest ts) :
    Spells ((String.join ((as.map text).map fun l => "  " ++ l ++ "\n")).toList ++ rest)
      (as.flatMap tokens ++ ts) := by
  induction as with
  | nil => exact tail
  | cons a as ih =>
      obtain ⟨ha, has⟩ := List.forall_mem_cons.mp h
      rw [List.map_cons, List.map_cons, String.join_cons, List.flatMap_cons]
      simp only [String.toList_append, List.append_assoc]
      refine spells_blank (List.all_eq_true.mp (by rfl)) (ha _ _ (parts_cons (by decide)) ?_)
      exact .ignored (by decide) (ih has)

/-- Items with blanks between them. -/
theorem spells_intercalate {separator : String}
    (blank : ∀ c ∈ separator.toList, isIgnored c = true) (some : separator ≠ "")
    (h : SpellsEach text tokens as) (parts : Parts rest) (tail : Spells rest ts) :
    Spells ((separator.intercalate (as.map text)).toList ++ rest) (as.flatMap tokens ++ ts) := by
  induction as with
  | nil => exact tail
  | cons a as ih =>
      obtain ⟨ha, has⟩ := List.forall_mem_cons.mp h
      cases as with
      | nil =>
          simp only [List.map_cons, List.map_nil, String.intercalate_singleton,
            List.flatMap_cons, List.flatMap_nil, List.append_nil]
          exact ha _ _ parts tail
      | cons b as =>
          rw [List.map_cons, List.map_cons, String.intercalate_cons_cons, ← List.map_cons,
            List.flatMap_cons]
          simp only [String.toList_append, List.append_assoc]
          refine ha _ _ ?_ (spells_blank blank (ih has))
          cases chars : separator.toList with
          | nil => exact absurd (String.toList_eq_nil_iff.mp chars) some
          | cons c cs =>
              exact parts_cons (not_isNameChar_of_ignored (blank c (chars ▸ List.mem_cons_self ..)))

end Lists

end Query

open Query

/-! ## Tokens of definitions -/

def bangTokens (isOptional : Bool) : List Token := if isOptional then [] else [.mark .bang]

def Argument.tokens (a : Argument) : List Token :=
  word a.name ++ .mark .colon :: (word a.typeName ++ bangTokens a.isOptional)

def Field.typeTokens (f : Field) : List Token :=
  (if f.isList then
    .mark .openBracket ::
      (word f.typeName ++ (bangTokens f.isItemOptional ++ [.mark .closeBracket]))
  else word f.typeName) ++ bangTokens f.isOptional

def argumentsTokens (as : List Argument) : List Token :=
  if as.isEmpty then [] else .mark .openParen :: (as.flatMap Argument.tokens ++ [.mark .closeParen])

def Field.tokens (f : Field) : List Token :=
  word f.name ++ (argumentsTokens f.arguments ++ .mark .colon :: f.typeTokens)

def EnumValue.tokens (v : EnumValue) : List Token := word v.name

def blockTokens (keyword name : String) (lines : List Token) : List Token :=
  .name keyword :: (word name ++ .mark .openBrace :: (lines ++ [.mark .closeBrace]))

def Definition.tokens : Definition → List Token
  | .enum e => blockTokens "enum" e.name (e.values.flatMap EnumValue.tokens)
  | .type t => blockTokens t.keyword t.name (t.fields.flatMap Field.tokens)

def Api.tokens (a : Api) : List Token := a.definitions.flatMap Definition.tokens

variable {rest : List Char} {ts : List Token}

theorem spells_bang (b : Bool) (tail : Spells rest ts) :
    Spells ((bang b).toList ++ rest) (bangTokens b ++ ts) := by
  cases b with
  | true => exact tail
  | false => exact .mark rfl tail

theorem parts_bang (b : Bool) (h : Parts rest) : Parts ((bang b).toList ++ rest) := by
  cases b with
  | true => exact h
  | false => exact parts_cons (by decide)

theorem Argument.spells_text {a : Argument} (h : ∀ s ∈ [a.name, a.typeName], IsSpelled s)
    (parts : Parts rest) (tail : Spells rest ts) :
    Spells (a.text.toList ++ rest) (a.tokens ++ ts) := by
  obtain ⟨hname, htype⟩ := List.forall_mem_cons.mp h
  simp only [text, tokens, String.toList_append, List.append_assoc, List.cons_append]
  refine spells_word hname (parts_cons (by decide)) (.mark rfl (.ignored (by decide) ?_))
  exact spells_word (htype _ (List.mem_singleton_self _)) (parts_bang _ parts)
    (spells_bang _ tail)

theorem Field.spells_typeText {f : Field} (h : IsSpelled f.typeName) (parts : Parts rest)
    (tail : Spells rest ts) : Spells (f.typeText.toList ++ rest) (f.typeTokens ++ ts) := by
  unfold typeText typeTokens
  cases f.isList with
  | true =>
      simp only [if_true, String.toList_append, List.append_assoc, List.cons_append]
      refine .mark rfl (spells_word h (parts_bang _ (parts_cons (by decide))) ?_)
      exact spells_bang _ (.mark rfl (spells_bang _ tail))
  | false =>
      simp only [Bool.false_eq_true, if_false, String.toList_append, List.append_assoc]
      exact spells_word h (parts_bang _ parts) (spells_bang _ tail)

theorem spells_arguments {as : List Argument}
    (h : ∀ a ∈ as, ∀ s ∈ [a.name, a.typeName], IsSpelled s) (tail : Spells rest ts) :
    Spells ((if as.isEmpty then ""
        else "(" ++ String.intercalate ", " (as.map Argument.text) ++ ")").toList
      ++ ':' :: rest) (argumentsTokens as ++ .mark .colon :: ts) := by
  unfold argumentsTokens
  split
  · exact .mark rfl tail
  · simp only [String.toList_append, List.append_assoc, List.cons_append]
    have each : SpellsEach Argument.text Argument.tokens as := fun a ha _ _ parts tail =>
      a.spells_text (h a ha) parts tail
    refine .mark rfl (spells_intercalate (List.all_eq_true.mp (by rfl)) (by decide) each
      (parts_cons (by decide)) ?_)
    exact .mark rfl (.mark rfl tail)

theorem Field.spells_text {f : Field} (h : ∀ s ∈ f.names, IsSpelled s) (parts : Parts rest)
    (tail : Spells rest ts) : Spells (f.text.toList ++ rest) (f.tokens ++ ts) := by
  obtain ⟨hname, h⟩ := List.forall_mem_cons.mp h
  obtain ⟨htype, harguments⟩ := List.forall_mem_cons.mp h
  have arguments : ∀ a ∈ f.arguments, ∀ s ∈ [a.name, a.typeName], IsSpelled s :=
    fun a ha s hs => harguments s (List.mem_flatMap.mpr ⟨a, ha, hs⟩)
  have typed := Spells.ignored (c := ' ') (by decide) (spells_typeText htype parts tail)
  have spelled := spells_arguments arguments typed
  simp only [text, tokens, String.toList_append, List.append_assoc, List.cons_append]
  refine spells_word hname ?_ spelled
  cases f.arguments.isEmpty with
  | true => exact parts_cons (c := ':') (by decide)
  | false =>
      simp only [Bool.false_eq_true, if_false, String.toList_append, List.append_assoc]
      exact parts_cons (c := '(') (by decide)

theorem spells_block {α : Type} {keyword name : String} (hk : IsName keyword)
    (hn : IsSpelled name) {text : α → String} {tokens : α → List Token} {as : List α}
    (h : SpellsEach text tokens as) (tail : Spells rest ts) :
    Spells ((block keyword name (as.map text)).toList ++ rest)
      (blockTokens keyword name (as.flatMap tokens) ++ ts) := by
  simp only [block, blockTokens, String.toList_append, List.append_assoc, List.cons_append]
  refine spells_name hk (parts_cons (by decide)) (.ignored (by decide) ?_)
  refine spells_word hn (parts_cons (by decide)) (.ignored (by decide) (.mark rfl ?_))
  exact .ignored (by decide) (spells_lines h (.mark rfl tail))

theorem Definition.spells_text {d : Definition} (h : ∀ s ∈ d.names, IsSpelled s)
    (tail : Spells rest ts) : Spells (d.text.toList ++ rest) (d.tokens ++ ts) := by
  cases d with
  | enum e =>
      obtain ⟨hname, hvalues⟩ := List.forall_mem_cons.mp h
      exact spells_block (isName_of_named (by decide)) hname (fun v hv _ _ parts tail =>
        spells_word (hvalues _ (List.mem_map_of_mem hv)) parts tail) tail
  | type t =>
      obtain ⟨hname, hfields⟩ := List.forall_mem_cons.mp h
      have keyword : Naming.isName t.keyword = true := by
        unfold TypeDef.keyword
        split <;> decide
      exact spells_block (isName_of_named keyword) hname (fun f hf _ _ parts tail => f.spells_text
        (fun s hs => hfields s (List.mem_flatMap.mpr ⟨f, hf, hs⟩)) parts tail) tail

theorem Api.spells_text {a : Api} (h : ∀ s ∈ a.names, IsSpelled s) :
    Spells a.text.toList a.tokens := by
  have each : SpellsEach Definition.text Definition.tokens a.definitions := fun d hd _ _ _ tail =>
    d.spells_text (fun s hs => h s (List.mem_flatMap.mpr ⟨d, hd, hs⟩)) tail
  have last : Parts [] := by simp [Parts]
  have spelled : Spells (a.text.toList ++ []) (a.tokens ++ []) :=
    spells_intercalate (List.all_eq_true.mp (by rfl)) (by decide) each last .nil
  rwa [List.append_nil, List.append_nil] at spelled

/-- A schema text is taken apart into the tokens of its definitions. -/
theorem Api.contents_text {a : Api} (h : ∀ s ∈ a.names, IsSpelled s) :
    (lexemes a.text).map Lexeme.content = (a.tokens ++ [Token.endOfText]).map .ok :=
  (a.spells_text h).contents 0

theorem Api.lexemes_text {a : Api} (h : ∀ s ∈ a.names, IsWord s) :
    (lexemes a.text).map Lexeme.content = (a.tokens ++ [Token.endOfText]).map .ok :=
  contents_text fun s hs => isSpelled_of_isWord (h s hs)

end ResourceGraph
