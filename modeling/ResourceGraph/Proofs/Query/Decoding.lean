import ResourceGraph.Proofs.Query.Spelling

/-!
# A schema text shows its definitions

A schema text can be read back with a small reader of its own. Other than the grammar of documents
it takes definitions without lines, and it keeps what the text shows of a definition: everything but
raw values, aliases, source names, and whether an item may be null where there is no list.
-/

namespace ResourceGraph

open Query

/-! ## What a text shows -/

/-- A field as its line shows it. -/
structure FieldView where
  name : String
  arguments : List Argument
  typeName : String
  /-- For a list, whether an item may be null. -/
  itemOptional : Option Bool
  isOptional : Bool

/-- A definition as a text shows it. -/
inductive DefinitionView where
  | enum (name : String) (values : List String)
  | type (keyword name : String) (fields : List FieldView)

def Field.view (f : Field) : FieldView :=
  ⟨f.name, f.arguments, f.typeName, if f.isList then some f.isItemOptional else none, f.isOptional⟩

def Definition.view : Definition → DefinitionView
  | .enum e => .enum e.name (e.values.map EnumValue.name)
  | .type t => .type t.keyword t.name (t.fields.map Field.view)

/-! ## Reading it -/

namespace Decoding

/-- Takes what it reads from the front of the tokens. -/
abbrev Decoder (α : Type) := List Token → Option (α × List Token)

/-- Items up to a mark, in at most so many steps. No item begins with a mark. -/
def itemsUntil {α : Type} (close : Mark) (item : Decoder α) : Nat → Decoder (List α)
  | 0, _ => none
  | limit + 1, ts =>
    match ts with
    | .mark m :: rest => if m = close then some ([], rest) else none
    | ts => do
      let (a, ts) ← item ts
      let (as, ts) ← itemsUntil close item limit ts
      return (a :: as, ts)

/-- Every item takes a token, so there are steps enough. -/
def items {α : Type} (close : Mark) (item : Decoder α) : Decoder (List α) := fun ts =>
  itemsUntil close item ts.length ts

/-- Without an exclamation mark it may be null. -/
def optional : List Token → Bool × List Token
  | .mark .bang :: ts => (false, ts)
  | ts => (true, ts)

def argument : Decoder Argument
  | .name name :: .mark .colon :: .name typeName :: ts =>
    let (isOptional, ts) := optional ts
    some (⟨name, typeName, isOptional⟩, ts)
  | _ => none

def arguments : Decoder (List Argument)
  | .mark .openParen :: ts => items .closeParen argument ts
  | ts => some ([], ts)

/-- A type name, whether an item may be null in a list, and whether all of it may be null. -/
def reference : Decoder (String × Option Bool × Bool)
  | .mark .openBracket :: .name typeName :: ts =>
    match optional ts with
    | (itemOptional, .mark .closeBracket :: ts) =>
      let (isOptional, ts) := optional ts
      some ((typeName, some itemOptional, isOptional), ts)
    | _ => none
  | .name typeName :: ts =>
    let (isOptional, ts) := optional ts
    some ((typeName, none, isOptional), ts)
  | _ => none

def field : Decoder FieldView
  | .name name :: ts => do
    let (arguments, ts) ← arguments ts
    match ts with
    | .mark .colon :: ts =>
      let ((typeName, itemOptional, isOptional), ts) ← reference ts
      return (⟨name, arguments, typeName, itemOptional, isOptional⟩, ts)
    | _ => none
  | _ => none

def enumValue : Decoder String
  | .name name :: ts => some (name, ts)
  | _ => none

def definition : Decoder DefinitionView
  | .name keyword :: .name name :: .mark .openBrace :: ts =>
    if keyword = "enum" then
      (items .closeBrace enumValue ts).map fun (values, ts) => (.enum name values, ts)
    else (items .closeBrace field ts).map fun (fields, ts) => (.type keyword name fields, ts)
  | _ => none

/-- Definitions up to the end, in at most so many steps. -/
def definitionsTo : Nat → List Token → Option (List DefinitionView)
  | 0, _ => none
  | _ + 1, [.endOfText] => some []
  | limit + 1, ts => do
    let (d, ts) ← definition ts
    return d :: (← definitionsTo limit ts)

/-- The definitions that a schema text shows. -/
def definitions? (text : String) : Option (List DefinitionView) :=
  let tokens := (lexemes text).filterMap fun l => l.content.toOption
  definitionsTo tokens.length tokens

/-! ## Reading back -/

/-- What comes next does not say that the type before it is never null. -/
def Unbanged (ts : List Token) : Prop := ∀ rest, ts ≠ .mark .bang :: rest

variable {α β : Type} {ts : List Token}

theorem unbanged_mark {m : Mark} (h : m ≠ .bang) (ts : List Token) : Unbanged (.mark m :: ts) := by
  rintro rest same
  cases same
  exact h rfl

theorem optional_bangTokens (isOptional : Bool) (after : Unbanged ts) :
    optional (bangTokens isOptional ++ ts) = (isOptional, ts) := by
  cases isOptional with
  | false => rfl
  | true =>
      show optional ts = (true, ts)
      unfold optional
      split
      · rename_i rest
        exact (after rest rfl).elim
      · rfl

/-- The item begins with a name and is read back from its tokens. -/
structure Decodes (item : Decoder β) (tokens : α → List Token) (view : α → β) (a : α) : Prop where
  begins : ∃ s rest, tokens a = .name s :: rest
  reads : ∀ ts, Unbanged ts → item (tokens a ++ ts) = some (view a, ts)

variable {item : Decoder β} {tokens : α → List Token} {view : α → β} {as : List α} {close : Mark}

theorem Decodes.unbanged {a : α} (h : Decodes item tokens view a) (ts : List Token) :
    Unbanged (tokens a ++ ts) := by
  obtain ⟨s, rest, begins⟩ := h.begins
  rw [begins]
  exact fun rest same => nomatch same

theorem unbanged_items (h : ∀ a ∈ as, Decodes item tokens view a) (plain : close ≠ .bang) :
    Unbanged (as.flatMap tokens ++ .mark close :: ts) := by
  cases as with
  | nil => exact unbanged_mark plain ts
  | cons a as =>
      rw [List.flatMap_cons, List.append_assoc]
      exact (h a (List.mem_cons_self ..)).unbanged _

theorem itemsUntil_flatMap (h : ∀ a ∈ as, Decodes item tokens view a) (plain : close ≠ .bang)
    {limit : Nat} (enough : as.length < limit) :
    itemsUntil close item limit (as.flatMap tokens ++ .mark close :: ts)
      = some (as.map view, ts) := by
  induction as generalizing limit with
  | nil =>
      obtain ⟨k, rfl⟩ := Nat.exists_eq_add_of_lt enough
      show (if close = close then some ([], ts) else none) = _
      rw [if_pos rfl]
      rfl
  | cons a as ih =>
      obtain ⟨ha, has⟩ := List.forall_mem_cons.mp h
      obtain ⟨k, rfl⟩ : ∃ k, limit = k + 1 := ⟨limit - 1, by omega⟩
      rw [List.length_cons] at enough
      have later := ih has (Nat.lt_of_succ_lt_succ enough)
      have next : Unbanged (as.flatMap tokens ++ .mark close :: ts) := unbanged_items has plain
      have first := ha.reads _ next
      obtain ⟨s, rest, begins⟩ := ha.begins
      rw [List.flatMap_cons, List.append_assoc]
      rw [begins] at first ⊢
      show (do
        let (a, ts) ← item (.name s :: (rest ++ _))
        let (as, ts) ← itemsUntil close item k ts
        return (a :: as, ts)) = _
      rw [List.cons_append] at first
      rw [first]
      show (itemsUntil close item k _ >>= _) = _
      rw [later]
      rfl

variable (ts close) in
theorem items_flatMap (h : ∀ a ∈ as, Decodes item tokens view a) (plain : close ≠ .bang) :
    items close item (as.flatMap tokens ++ .mark close :: ts) = some (as.map view, ts) := by
  refine itemsUntil_flatMap h plain ?_
  have some : as.length ≤ (as.flatMap tokens).length := by
    induction as with
    | nil => exact Nat.le_refl 0
    | cons a as ih =>
        obtain ⟨ha, has⟩ := List.forall_mem_cons.mp h
        obtain ⟨s, rest, begins⟩ := ha.begins
        have length := ih has
        rw [List.flatMap_cons, begins, List.length_cons, List.length_append, List.length_cons]
        omega
  rw [List.length_append, List.length_cons]
  omega

theorem decodes_argument {a : Argument} (h : ∀ s ∈ [a.name, a.typeName], IsName s) :
    Decodes argument Argument.tokens id a := by
  obtain ⟨name, type⟩ := List.forall_mem_cons.mp h
  have typed := type _ (List.mem_singleton_self _)
  have tokens : a.tokens
      = .name a.name :: .mark .colon :: .name a.typeName :: bangTokens a.isOptional := by
    rw [Argument.tokens, word_of_ne name.ne_empty, word_of_ne typed.ne_empty]
    rfl
  refine ⟨⟨_, _, tokens⟩, fun ts after => ?_⟩
  rw [tokens]
  simp only [List.cons_append, argument, optional_bangTokens _ after]
  rfl

theorem arguments_tokens {as : List Argument}
    (h : ∀ a ∈ as, ∀ s ∈ [a.name, a.typeName], IsName s) (ts : List Token) :
    arguments (argumentsTokens as ++ .mark .colon :: ts) = some (as, .mark .colon :: ts) := by
  cases as with
  | nil => rfl
  | cons a as =>
      have items := items_flatMap (.mark .colon :: ts) .closeParen
        (fun b hb => decodes_argument (h b hb)) (by decide)
      rw [List.map_id] at items
      have marks : argumentsTokens (a :: as) ++ .mark .colon :: ts
          = .mark .openParen :: ((a :: as).flatMap Argument.tokens
            ++ .mark .closeParen :: .mark .colon :: ts) := by simp [argumentsTokens]
      rw [marks]
      exact items

theorem reference_typeTokens {f : Field} (named : IsName f.typeName) (after : Unbanged ts) :
    reference (f.typeTokens ++ ts)
      = some ((f.typeName, if f.isList then some f.isItemOptional else none, f.isOptional),
          ts) := by
  rw [Field.typeTokens, word_of_ne named.ne_empty]
  cases f.isList with
  | true =>
      have inner := optional_bangTokens f.isItemOptional
        (unbanged_mark (m := .closeBracket) (by decide) (bangTokens f.isOptional ++ ts))
      simp only [if_true, List.cons_append, List.append_assoc, List.nil_append, reference, inner,
        optional_bangTokens _ after]
  | false =>
      simp only [Bool.false_eq_true, if_false, List.cons_append, List.nil_append, reference,
        optional_bangTokens _ after]

theorem decodes_field {f : Field} (h : ∀ s ∈ f.names, IsName s) :
    Decodes field Field.tokens Field.view f := by
  obtain ⟨name, h⟩ := List.forall_mem_cons.mp h
  obtain ⟨type, rest⟩ := List.forall_mem_cons.mp h
  have tokens : f.tokens
      = .name f.name :: (argumentsTokens f.arguments ++ .mark .colon :: f.typeTokens) := by
    rw [Field.tokens, word_of_ne name.ne_empty]
    rfl
  refine ⟨⟨_, _, tokens⟩, fun ts after => ?_⟩
  have read := arguments_tokens
    (fun a ha s hs => rest s (List.mem_flatMap.mpr ⟨a, ha, hs⟩)) (f.typeTokens ++ ts)
  rw [tokens, List.cons_append, List.append_assoc, List.cons_append]
  show (arguments _ >>= _) = _
  rw [read]
  show (reference (f.typeTokens ++ ts) >>= _) = _
  rw [reference_typeTokens type after]
  rfl

theorem decodes_enumValue {v : EnumValue} (h : IsName v.name) :
    Decodes enumValue EnumValue.tokens EnumValue.name v := by
  have tokens : v.tokens = [.name v.name] := word_of_ne h.ne_empty
  refine ⟨⟨_, _, tokens⟩, fun ts _ => ?_⟩
  rw [tokens]
  rfl

theorem keyword_ne_enum (t : TypeDef) : t.keyword ≠ "enum" := by
  unfold TypeDef.keyword
  split <;> decide

theorem definition_tokens {d : Definition} (h : ∀ s ∈ d.names, IsName s) (ts : List Token) :
    definition (d.tokens ++ ts) = some (d.view, ts) := by
  cases d with
  | enum e =>
      obtain ⟨name, values⟩ := List.forall_mem_cons.mp h
      have read := items_flatMap ts .closeBrace
        (fun v hv => decodes_enumValue (values _ (List.mem_map_of_mem hv))) (by decide)
      rw [Definition.tokens, blockTokens, word_of_ne name.ne_empty]
      simp only [List.cons_append, List.nil_append, List.append_assoc, definition, if_true, read]
      rfl
  | type t =>
      obtain ⟨name, fields⟩ := List.forall_mem_cons.mp h
      have read := items_flatMap ts .closeBrace
        (fun f hf => decodes_field fun s hs => fields s (List.mem_flatMap.mpr ⟨f, hf, hs⟩))
        (by decide)
      rw [Definition.tokens, blockTokens, word_of_ne name.ne_empty]
      simp only [List.cons_append, List.nil_append, List.append_assoc, definition,
        if_neg (keyword_ne_enum t), read]
      rfl

theorem definitionsTo_tokens {ds : List Definition} (h : ∀ d ∈ ds, ∀ s ∈ d.names, IsName s)
    {limit : Nat} (enough : ds.length < limit) :
    definitionsTo limit (ds.flatMap Definition.tokens ++ [.endOfText])
      = some (ds.map Definition.view) := by
  induction ds generalizing limit with
  | nil =>
      obtain ⟨k, rfl⟩ := Nat.exists_eq_add_of_lt enough
      rfl
  | cons d ds ih =>
      obtain ⟨hd, hds⟩ := List.forall_mem_cons.mp h
      obtain ⟨k, rfl⟩ : ∃ k, limit = k + 1 := ⟨limit - 1, by omega⟩
      rw [List.length_cons] at enough
      have first := definition_tokens hd (ds.flatMap Definition.tokens ++ [.endOfText])
      have later := ih hds (Nat.lt_of_succ_lt_succ enough)
      rw [List.flatMap_cons, List.append_assoc, definitionsTo, first]
      · show (definitionsTo k _ >>= _) = _
        rw [later]
        rfl
      · cases d <;> exact nofun

theorem length_lt_tokens (ds : List Definition) :
    ds.length < (ds.flatMap Definition.tokens ++ [Token.endOfText]).length := by
  induction ds with
  | nil => exact Nat.zero_lt_one
  | cons d ds ih =>
      have some : 1 ≤ d.tokens.length := by cases d <;> exact Nat.succ_pos _
      rw [List.flatMap_cons, List.append_assoc, List.length_append, List.length_cons]
      omega

/-- The definitions of an API are read back from its text. -/
theorem definitions?_text {a : Api} (h : ∀ s ∈ a.names, IsName s) :
    definitions? a.text = some (a.definitions.map Definition.view) := by
  have contents := Api.contents_text (a := a) fun s hs => Or.inr (h s hs)
  have tokens : ((lexemes a.text).filterMap fun l => l.content.toOption)
      = a.tokens ++ [.endOfText] := by
    have taken := congrArg (List.filterMap Except.toOption) contents
    rw [List.filterMap_map, List.filterMap_map] at taken
    exact taken.trans (List.filterMap_some (l := a.tokens ++ [Token.endOfText]))
  rw [definitions?, tokens]
  exact definitionsTo_tokens (fun d hd s hs => h s (List.mem_flatMap.mpr ⟨d, hd, hs⟩))
    (length_lt_tokens a.definitions)

end Decoding

/-- Whatever an API has for definitions, if each of their names is a name of the schema language,
then they are read back from its text but for what it does not show. So APIs of one text show one
sequence of definitions. -/
theorem text_determines_definitions :
    (∀ a : Api, (∀ s ∈ a.names, IsName s) →
      Decoding.definitions? a.text = some (a.definitions.map Definition.view)) ∧
    ∀ a b : Api, (∀ s ∈ a.names, IsName s) → (∀ s ∈ b.names, IsName s) → a.text = b.text →
      a.definitions.map Definition.view = b.definitions.map Definition.view := by
  refine ⟨fun a ha => Decoding.definitions?_text ha, fun a b ha hb same => ?_⟩
  have read := Decoding.definitions?_text ha
  rw [same, Decoding.definitions?_text hb] at read
  exact (Option.some.inj read).symm

/-- Persons with friends and a mood, which comes from a property of some name. -/
def Api.moods (source : String) : Api where
  enums := [("Mood", { name := "Mood", values := [⟨"GOOD", .bool true⟩, ⟨"__bad", .null⟩] })]
  types :=
    [("Person",
      { name := "Person"
        fields :=
          [{ name := "mood", typeName := "Mood", sourceName := some source },
            { name := "friends", typeName := "Person", isList := true,
              isItemOptional := false }] })]
  inputs := [("Nothing", { name := "Nothing", fields := [], isInput := true })]

/-- The name of the property is not shown, but all names that are written are. -/
theorem moods_shown :
    Decoding.definitions? (Api.moods "a").text
        = some ((Api.moods "b").definitions.map Definition.view) ∧
      (Api.moods "b").definitions.map Definition.view
        = [.enum "Mood" ["GOOD", "__bad"],
          .type "type" "Person" [⟨"mood", [], "Mood", none, true⟩,
            ⟨"friends", [], "Person", some false, true⟩],
          .type "input" "Nothing" [],
          .type "type" "SearchResults" [⟨"totalCount", [], "Int", none, false⟩],
          .type "type" "Query" [⟨"search", Api.searchField.arguments, "SearchResults", none,
            false⟩]] := by
  have named : ∀ source, ∀ s ∈ (Api.moods source).names, IsName s := by
    intro source
    have all : ∀ s ∈ (Api.moods "").names, IsName s := by decide
    exact all
  have same : (Api.moods "a").text = (Api.moods "b").text := rfl
  obtain ⟨reads, determines⟩ := text_determines_definitions
  rw [reads _ (named "a"), determines _ _ (named "a") (named "b") same]
  exact ⟨rfl, rfl⟩

end ResourceGraph
