import ResourceGraph.Proofs.Query.Spelling
import ResourceGraph.Proofs.Query.Taking
import ResourceGraph.TypeSystem.Construction

/-!
# A schema text reads back

The text of an API is a document of type definitions, which declare what the definitions of the API
say: the same names in the same order, and the same types of fields and arguments. A text in which a
name is empty is no document.
-/

namespace ResourceGraph

open Query TypeSystem

/-! ## What definitions declare -/

def TypeRef.orNull (isOptional : Bool) (t : TypeRef) : TypeRef :=
  if isOptional then t else .nonNull t

def Argument.slot (a : Argument) : InputSlot :=
  { name := a.name, type := .orNull a.isOptional (.named a.typeName) }

def Field.typeRef (f : Field) : TypeRef :=
  .orNull f.isOptional
    (if f.isList then .list (.orNull f.isItemOptional (.named f.typeName)) else .named f.typeName)

def Field.output (f : Field) : OutputField := ⟨f.name, f.typeRef, f.arguments.map Argument.slot⟩

def Field.slot (f : Field) : InputSlot := { name := f.name, type := f.typeRef }

/-- The definition as it is read is that of the API. -/
def Definition.Declares : Definition → TypeDefinition → Prop
  | .enum e, .enum n vs => n.text = e.name ∧ vs.map Name.text = e.values.map EnumValue.name
  | .type t, .object n fs =>
    t.isInput = false ∧ n.text = t.name ∧ fs.map outputField = t.fields.map Field.output
  | .type t, .input n fs =>
    t.isInput = true ∧ n.text = t.name ∧ fs.map inputSlot = t.fields.map Field.slot
  | _, _ => False

/-- What a definition needs to be read, apart from its names. -/
def Definition.Sound : Definition → Prop
  | .enum e => e.values ≠ [] ∧ ∀ v ∈ e.values, v.name ∉ reservedEnumValues
  | .type t => t.fields ≠ [] ∧ (t.isInput = true → ∀ f ∈ t.fields, f.arguments = [])

namespace Query.Reader

variable {depth : Nat} {rest : List Token}

/-! ## Types -/

theorem takes_orNull {t : TypeNode} {type : TypeRef} (ht : TypeRef.ofNode t = type)
    (isOptional : Bool) (after : front rest ≠ .mark .bang) :
    Takes (do if ← accept .bang then return TypeNode.nonNull t else return t)
      (bangTokens isOptional) rest fun t => TypeRef.ofNode t = .orNull isOptional type := by
  cases isOptional with
  | true =>
      refine Takes.look (takes_accept_not after) fun b hb => ?_
      rw [hb, if_neg Bool.false_ne_true]
      exact .pure ht
  | false =>
      refine Takes.last (takes_accept _) fun b hb => ?_
      rw [hb, if_pos rfl]
      exact .pure (congrArg TypeRef.nonNull ht)

theorem takes_namedType (s : String) (isOptional : Bool) (after : front rest ≠ .mark .bang) :
    Takes (typeNode (depth + 1)) (.name s :: bangTokens isOptional) rest
      fun t => TypeRef.ofNode t = .orNull isOptional (.named s) := by
  rw [typeNode]
  refine Takes.look takes_offset fun o _ => ?_
  refine Takes.look (takes_accept_not (by simp)) fun b hb => ?_
  rw [hb, if_neg Bool.false_ne_true]
  refine Takes.next (takes_name s) fun n hn => ?_
  rw [pure_bind]
  have read : TypeRef.ofNode (.named n) = .named s := congrArg TypeRef.named hn
  exact takes_orNull read isOptional after

theorem takes_typeNode {f : Field} (some : f.typeName ≠ "") (after : front rest ≠ .mark .bang) :
    Takes (typeNode (depth + 2)) f.typeTokens rest fun t => TypeRef.ofNode t = f.typeRef := by
  unfold Field.typeTokens Field.typeRef
  rw [word_of_ne some]
  cases f.isList with
  | false => exact takes_namedType f.typeName f.isOptional after
  | true =>
      rw [typeNode, if_pos rfl, if_pos rfl]
      simp only [List.cons_append, List.append_assoc, List.nil_append]
      refine Takes.look takes_offset fun o _ => ?_
      refine Takes.next (takes_accept .openBracket) fun b hb => ?_
      rw [hb, if_pos rfl, ← List.cons_append]
      refine Takes.bind (takes_namedType _ f.isItemOptional (by simp)) fun item hitem => ?_
      refine Takes.next (takes_expect .closeBracket) fun _ _ => ?_
      rw [pure_bind]
      have read : TypeRef.ofNode (.list o item)
          = .list (.orNull f.isItemOptional (.named f.typeName)) := congrArg TypeRef.list hitem
      exact takes_orNull read f.isOptional after

/-! ## Fields and values -/

/-- After an argument or a field there is neither a default value nor a directive. -/
def Ends (ts : List Token) : Prop :=
  front ts ≠ .mark .bang ∧ front ts ≠ .mark .equals ∧ front ts ≠ .mark .at

/-- A field of an input type, or an argument, which are read alike. -/
theorem takes_inputNode {s : String} (named : s ≠ "") {ts : List Token} {type : TypeRef}
    (typed : Takes (typeNode depth) ts rest fun t => TypeRef.ofNode t = type) (after : Ends rest) :
    Takes (inputNode depth) (word s ++ .mark .colon :: ts) rest
      fun n => inputSlot n = { name := s, type := type } := by
  rw [inputNode, word_of_ne named]
  refine Takes.look (takes_description rfl (Or.inl ⟨s, rfl⟩)) fun _ _ => ?_
  refine Takes.bind (takes_name s) fun n hn => ?_
  refine Takes.next (takes_expect .colon) fun _ _ => ?_
  refine Takes.last typed fun t ht => ?_
  refine Takes.look (takes_accept_not after.2.1) fun b hb => ?_
  rw [hb, if_neg Bool.false_ne_true, pure_bind]
  refine Takes.look (takes_directives after.2.2) fun _ _ => .pure ?_
  rw [inputSlot, hn, ht]

theorem takes_argument {a : Argument} (named : a.name ≠ "") (typed : a.typeName ≠ "")
    (after : Ends rest) :
    Takes (inputNode (depth + 1)) a.tokens rest fun n => inputSlot n = a.slot := by
  rw [Argument.tokens, word_of_ne typed]
  exact takes_inputNode named (takes_namedType _ a.isOptional after.1) after

theorem ends_mark {m : Mark} {ts : List Token} (h : front ts = .mark m)
    (plain : m ≠ .bang ∧ m ≠ .equals ∧ m ≠ .at) : Ends ts := by
  unfold Ends
  rw [h]
  simpa using plain

theorem ends_name {s : String} {ts : List Token} (h : front ts = .name s) : Ends ts := by
  unfold Ends
  rw [h]
  simp

/-- Items that begin with a name and may stand before anything that ends them. -/
theorem enclosable_of_named {α γ : Type} {item : Reader α} {tokens : γ → List Token}
    {R : γ → α → Prop} {xs : List γ} {close : Mark}
    (plain : close ≠ .bang ∧ close ≠ .equals ∧ close ≠ .at)
    (opened : ∀ x ∈ xs, ∃ s, front (tokens x) = .name s)
    (reads : ∀ x ∈ xs, ∀ us, Ends us → Takes item (tokens x) us (R x)) :
    Enclosable close item tokens R xs := by
  refine ⟨fun x hx => ?_, ?_⟩
  · obtain ⟨s, hs⟩ := opened x hx
    refine ⟨fun none => ?_, by rw [hs]; simp⟩
    rw [none] at hs
    cases hs
  · rintro x hx us (closed | ⟨y, hy, next⟩)
    · exact reads x hx us (ends_mark closed plain)
    · obtain ⟨s, hs⟩ := opened y hy
      exact reads x hx us (ends_name (next.trans hs))

theorem front_word {s : String} (h : s ≠ "") (ts : List Token) :
    front (word s ++ ts) = .name s := by
  rw [word_of_ne h]
  rfl

theorem takes_arguments {as : List Argument} (named : ∀ a ∈ as, a.name ≠ "" ∧ a.typeName ≠ "") :
    Takes (optionally .openParen .closeParen (inputNode (depth + 1))) (argumentsTokens as)
      (.mark .colon :: rest) fun ns => ns.map inputSlot = as.map Argument.slot := by
  have enclosable : Enclosable .closeParen (inputNode (depth + 1)) Argument.tokens
      (fun a n => inputSlot n = a.slot) as :=
    enclosable_of_named (by decide) (fun a ha => ⟨_, front_word (named a ha).1 _⟩)
      fun a ha us after => takes_argument (named a ha).1 (named a ha).2 after
  exact (takes_optionally enclosable (by simp)).mono fun ns hns =>
    (map_eq_of_forall₂ (fun _ _ h => h.symm) hns).symm

theorem takes_fieldNode {f : Field} (readable : ∀ s ∈ f.names, s ≠ "") (after : Ends rest) :
    Takes (fieldNode (depth + 2)) f.tokens rest fun n => outputField n = f.output := by
  obtain ⟨named, readable⟩ := List.forall_mem_cons.mp readable
  obtain ⟨typed, readable⟩ := List.forall_mem_cons.mp readable
  have arguments : ∀ a ∈ f.arguments, a.name ≠ "" ∧ a.typeName ≠ "" := fun a ha =>
    ⟨readable _ (List.mem_flatMap.mpr ⟨a, ha, by simp⟩),
      readable _ (List.mem_flatMap.mpr ⟨a, ha, by simp⟩)⟩
  rw [fieldNode, Field.tokens, word_of_ne named]
  refine Takes.look (takes_description rfl (Or.inl ⟨f.name, rfl⟩)) fun _ _ => ?_
  refine Takes.bind (takes_name f.name) fun n hn => ?_
  refine Takes.bind (takes_arguments arguments) fun ns hns => ?_
  refine Takes.next (takes_expect .colon) fun _ _ => ?_
  refine Takes.last (takes_typeNode typed after.1) fun t ht => ?_
  refine Takes.look (takes_directives after.2.2) fun _ _ => .pure ?_
  rw [outputField, hn, hns, ht, Field.output]

/-- A field of an input type has no arguments. -/
theorem takes_inputField {f : Field} (readable : ∀ s ∈ f.names, s ≠ "") (plain : f.arguments = [])
    (after : Ends rest) :
    Takes (inputNode (depth + 2)) f.tokens rest fun n => inputSlot n = f.slot := by
  rw [Field.tokens, plain]
  exact takes_inputNode (readable _ (by simp [Field.names]))
    (takes_typeNode (readable _ (by simp [Field.names])) after.1) after

theorem takes_enumValue {s : String} (named : s ≠ "") (legal : s ∉ reservedEnumValues)
    (after : Ends rest) : Takes (enumValue depth) (word s) rest fun n => n.text = s := by
  rw [enumValue, word_of_ne named]
  refine Takes.look (takes_description rfl (Or.inl ⟨s, rfl⟩)) fun _ _ => ?_
  refine Takes.look takes_peek fun t ht => ?_
  have spared : ¬ t.text ∈ ["true", "false", "null"] := ht ▸ legal
  rw [if_neg spared]
  refine Takes.last (takes_name s) fun n hn => ?_
  exact Takes.look (takes_directives after.2.2) fun _ _ => .pure hn

/-! ## Definitions -/

theorem takes_demand {b : Bool} : Takes (demand false b) [] rest fun _ => True := .pure trivial

theorem takes_interfaces (h : front rest ≠ .name "implements") :
    Takes interfaces [] rest fun ns => ns = [] :=
  Takes.look (takes_acceptKeyword_not h) fun b hb => by
    rw [hb, if_neg Bool.false_ne_true]
    exact .pure rfl

theorem takes_enum {e : EnumDef} (readable : ∀ s ∈ (Definition.enum e).names, s ≠ "")
    (some : e.values ≠ []) (legal : ∀ v ∈ e.values, v.name ∉ reservedEnumValues) :
    Takes (typeDefinition depth false) (Definition.enum e).tokens rest
      (Definition.enum e).Declares := by
  obtain ⟨named, readable⟩ := List.forall_mem_cons.mp readable
  have named_values : ∀ v ∈ e.values, v.name ≠ "" :=
    fun v hv => readable _ (List.mem_map_of_mem hv)
  have enclosable : Enclosable .closeBrace (enumValue depth) EnumValue.tokens
      (fun v n => n.text = v.name) e.values := by
    refine enclosable_of_named (by decide) (fun v hv => ⟨v.name, ?_⟩) fun v hv us after =>
      takes_enumValue (named_values v hv) (legal v hv) after
    rw [EnumValue.tokens, word_of_ne (named_values v hv)]
    rfl
  rw [Definition.tokens, blockTokens, word_of_ne named]
  unfold typeDefinition
  refine Takes.look takes_peek fun t ht => ?_
  have keyword : t = .name "enum" := ht
  subst keyword
  dsimp only
  refine Takes.next takes_advance fun _ _ => ?_
  refine Takes.next (takes_name e.name) fun n hn => ?_
  refine Takes.look (takes_directives (by simp)) fun ds _ => ?_
  refine Takes.last (takes_enclosed some enclosable) fun vs hvs => ?_
  refine Takes.look takes_demand fun _ _ => .pure ?_
  exact ⟨hn, (map_eq_of_forall₂ (fun _ _ h => h.symm) hvs).symm⟩

theorem front_fieldTokens {f : Field} (h : f.name ≠ "") : front f.tokens = .name f.name :=
  front_word h _

theorem takes_object {t : TypeDef} (output : t.isInput = false)
    (readable : ∀ s ∈ (Definition.type t).names, s ≠ "") (some : t.fields ≠ []) :
    Takes (typeDefinition (depth + 2) false) (Definition.type t).tokens rest
      (Definition.type t).Declares := by
  obtain ⟨named, readable⟩ := List.forall_mem_cons.mp readable
  have readable : ∀ f ∈ t.fields, ∀ s ∈ f.names, s ≠ "" :=
    fun f hf s hs => readable s (List.mem_flatMap.mpr ⟨f, hf, hs⟩)
  have enclosable : Enclosable .closeBrace (fieldNode (depth + 2)) Field.tokens
      (fun f n => outputField n = f.output) t.fields :=
    enclosable_of_named (by decide)
      (fun f hf => ⟨_, front_fieldTokens (readable f hf _ (by simp [Field.names]))⟩)
      fun f hf us after => takes_fieldNode (readable f hf) after
  rw [Definition.tokens, TypeDef.keyword, output, if_neg Bool.false_ne_true, blockTokens,
    word_of_ne named]
  unfold typeDefinition
  refine Takes.look takes_peek fun u hu => ?_
  have keyword : u = .name "type" := hu
  subst keyword
  dsimp only
  refine Takes.next takes_advance fun _ _ => ?_
  refine Takes.next (takes_name t.name) fun n hn => ?_
  refine Takes.look (takes_interfaces (by simp)) fun is his => ?_
  refine Takes.look (takes_directives (by simp)) fun ds _ => ?_
  refine Takes.last (takes_enclosed some enclosable) fun fs hfs => ?_
  refine Takes.look takes_demand fun _ _ => .pure ?_
  rw [his]
  exact ⟨output, hn, (map_eq_of_forall₂ (fun _ _ h => h.symm) hfs).symm⟩

theorem takes_input {t : TypeDef} (input : t.isInput = true)
    (readable : ∀ s ∈ (Definition.type t).names, s ≠ "") (some : t.fields ≠ [])
    (plain : ∀ f ∈ t.fields, f.arguments = []) :
    Takes (typeDefinition (depth + 2) false) (Definition.type t).tokens rest
      (Definition.type t).Declares := by
  obtain ⟨named, readable⟩ := List.forall_mem_cons.mp readable
  have readable : ∀ f ∈ t.fields, ∀ s ∈ f.names, s ≠ "" :=
    fun f hf s hs => readable s (List.mem_flatMap.mpr ⟨f, hf, hs⟩)
  have enclosable : Enclosable .closeBrace (inputNode (depth + 2)) Field.tokens
      (fun f n => inputSlot n = f.slot) t.fields :=
    enclosable_of_named (by decide)
      (fun f hf => ⟨_, front_fieldTokens (readable f hf _ (by simp [Field.names]))⟩)
      fun f hf us after => takes_inputField (readable f hf) (plain f hf) after
  rw [Definition.tokens, TypeDef.keyword, input, if_pos rfl, blockTokens, word_of_ne named]
  unfold typeDefinition
  refine Takes.look takes_peek fun u hu => ?_
  have keyword : u = .name "input" := hu
  subst keyword
  dsimp only
  refine Takes.next takes_advance fun _ _ => ?_
  refine Takes.next (takes_name t.name) fun n hn => ?_
  refine Takes.look (takes_directives (by simp)) fun ds _ => ?_
  refine Takes.last (takes_enclosed some enclosable) fun fs hfs => ?_
  refine Takes.look takes_demand fun _ _ => .pure ?_
  exact ⟨input, hn, (map_eq_of_forall₂ (fun _ _ h => h.symm) hfs).symm⟩

/-! ## Documents -/

theorem takes_definition {d : Definition} (readable : ∀ s ∈ d.names, s ≠ "") (sound : d.Sound) :
    Takes (typeDefinition (depth + 2) false) d.tokens rest d.Declares := by
  cases d with
  | enum e => exact takes_enum readable sound.1 sound.2
  | type t =>
      cases kind : t.isInput with
      | false => exact takes_object kind readable sound.1
      | true => exact takes_input kind readable sound.1 (sound.2 kind)

theorem keyword_mem (d : Definition) :
    ∃ s ∈ ["enum", "type", "input"], ∃ ts, d.tokens = .name s :: ts := by
  cases d with
  | enum e => exact ⟨"enum", by simp, _, rfl⟩
  | type t =>
      refine ⟨t.keyword, ?_, _, rfl⟩
      unfold TypeDef.keyword
      split <;> simp

/-- A definition is read as such. -/
theorem part_run {d : Definition} {ts : List Token} {c : Cursor} (hc : c.Has (d.tokens ++ ts)) :
    (part depth).run c = (DocumentPart.type c.offset <$> typeDefinition depth false).run c := by
  obtain ⟨s, keyword, us, tokens⟩ := keyword_mem d
  have all : ∀ s ∈ ["enum", "type", "input"], s ∈ typeKeywords := by decide
  have named : c.token = .name s := by rw [hc.token, tokens]; rfl
  have placed : offset.run c = .ok (c.offset, c) := rfl
  have unmarked : (isMark .openBrace).run c = .ok (decide (c.token = .mark .openBrace), c) := rfl
  have peeked : peek.run c = .ok (c.token, c) := rfl
  rw [named] at unmarked peeked
  have undescribed : description.run c = .ok (false, c) := by
    rw [description, run_bind_ok peeked]
    rfl
  unfold part
  rw [run_bind_ok placed, run_bind_ok unmarked, if_neg (by simp), run_bind_ok undescribed,
    run_bind_ok peeked]
  dsimp only
  rw [if_pos (all s keyword)]
  rfl

theorem takes_part {d : Definition} (readable : ∀ s ∈ d.names, s ≠ "") (sound : d.Sound) :
    Takes (part (depth + 2)) d.tokens rest
      fun p => ∃ o node, p = .type o node ∧ d.Declares node := by
  intro c hc
  rw [part_run hc]
  exact Takes.map ((takes_definition readable sound).mono fun node h => ⟨_, node, rfl, h⟩) c hc

theorem types_of_parts {ds : List Definition} {ps : List DocumentPart}
    (h : List.Forall₂ (fun d p => ∃ o node, p = .type o node ∧ d.Declares node) ds ps) :
    List.Forall₂ Definition.Declares ds (Document.types ⟨ps⟩) := by
  induction h with
  | nil => exact .nil
  | cons head _ ih =>
      obtain ⟨o, node, rfl, declares⟩ := head
      exact .cons declares ih

theorem front_definition (d : Definition) (ts : List Token) :
    ∃ s, front (d.tokens ++ ts) = .name s := by
  obtain ⟨s, -, us, tokens⟩ := keyword_mem d
  exact ⟨s, by rw [tokens]; rfl⟩

/-- Before another definition the document goes on. -/
theorem takes_more (d : Definition) (ts : List Token) :
    Takes (do return decide ((← peek) ≠ .endOfText)) [] (d.tokens ++ ts) fun b => b = true := by
  obtain ⟨s, hs⟩ := front_definition d ts
  refine Takes.look takes_peek fun t ht => .pure (decide_eq_true ?_)
  rw [ht, List.nil_append, hs]
  simp

theorem tokens_ne_nil (d : Definition) : d.tokens ≠ [] := by
  obtain ⟨s, -, ts, tokens⟩ := keyword_mem d
  simp [tokens]

theorem takes_document {ds : List Definition} (some : ds ≠ [])
    (readable : ∀ d ∈ ds, (∀ s ∈ d.names, s ≠ "") ∧ d.Sound) :
    Takes (document (depth + 2)) (ds.flatMap Definition.tokens) []
      fun doc => List.Forall₂ Definition.Declares ds doc.types := by
  obtain ⟨d, ds, rfl⟩ := List.exists_cons_of_ne_nil some
  have part (e) (he : e ∈ d :: ds) (us : List Token) : Takes (part (depth + 2)) e.tokens us
      fun p => ∃ o node, p = .type o node ∧ e.Declares node :=
    takes_part (readable e he).1 (readable e he).2
  have parts : Takes (repeated (Reader.part (depth + 2)) do return (← peek) ≠ .endOfText)
      ((d :: ds).flatMap Definition.tokens ++ []) []
      (List.Forall₂ (fun d p => ∃ o node, p = .type o node ∧ d.Declares node) (d :: ds)) :=
    takes_repeated {
      some := fun e _ => tokens_ne_nil e
      between := fun e he f _ us => part e he _
      last := fun e he => part e he _
      goes_on := fun e _ us => takes_more e us
      ends := Takes.look takes_peek fun t ht => .pure (by simp [ht]) }
  rw [List.append_nil] at parts
  exact Takes.last parts fun ps hps => .pure (types_of_parts hps)

/-! ## Empty names -/

theorem fails_typeNode {ts : List Token} (unnamed : ∀ s, front ts ≠ .name s)
    (plain : front ts ≠ .mark .openBracket) : Fails (typeNode (depth + 1)) ts := by
  rw [typeNode]
  refine Takes.look_fails takes_offset fun o _ => ?_
  refine Takes.look_fails (takes_accept_not plain) fun b hb => ?_
  rw [hb, if_neg Bool.false_ne_true]
  exact (fails_name unnamed).bind

theorem fails_listType {ts : List Token} (unnamed : ∀ s, front ts ≠ .name s)
    (plain : front ts ≠ .mark .openBracket) :
    Fails (typeNode (depth + 2)) (.mark .openBracket :: ts) := by
  rw [typeNode]
  refine Takes.look_fails takes_offset fun o _ => ?_
  refine Takes.next_fails (takes_accept .openBracket) fun b hb => ?_
  rw [hb, if_pos rfl]
  exact (fails_typeNode unnamed plain).bind

theorem takes_noArguments {item : Reader InputNode} (after : front rest ≠ .mark .openParen) :
    Takes (optionally .openParen .closeParen item) [] rest fun ns => ns = [] :=
  Takes.look (takes_accept_not after) fun b hb => by
    rw [hb, if_neg Bool.false_ne_true]
    exact .pure rfl

theorem fails_fieldNode {s : String} {ts : List Token} (h : Fails (typeNode depth) ts) :
    Fails (fieldNode depth) (.name s :: .mark .colon :: ts) := by
  rw [fieldNode]
  refine Takes.look_fails (takes_description rfl (Or.inl ⟨s, rfl⟩)) fun _ _ => ?_
  refine Takes.next_fails (takes_name s) fun _ _ => ?_
  refine Takes.look_fails (takes_noArguments (by simp)) fun _ _ => ?_
  exact Takes.next_fails (takes_expect .colon) fun _ _ => h.bind

/-- What comes after a field without arguments: the end of the block, or another such field. -/
inductive Follows : List Token → Prop
  | close (ts : List Token) : Follows (.mark .closeBrace :: ts)
  | field (s : String) (ts : List Token) : Follows (.name s :: .mark .colon :: ts)

/-- Where the type of a field is missing, at the latest the next field cannot be read. -/
theorem fails_untyped {f : Field} (named : f.name ≠ "") (plain : f.arguments = [])
    (untyped : f.typeName = "") {us : List Token} (after : Follows us) :
    Fails (untilMark .closeBrace (fieldNode (depth + 2))) (f.tokens ++ us) := by
  have tokens : f.tokens ++ us = .name f.name :: .mark .colon :: (f.typeTokens ++ us) := by
    rw [Field.tokens, plain, word_of_ne named]
    rfl
  have empty : word f.typeName = [] := if_pos untyped
  rw [tokens, Field.typeTokens, empty]
  cases f.isList with
  | true =>
      refine fails_repeated (fails_fieldNode (fails_listType ?_ ?_)) <;>
        cases f.isItemOptional <;> simp [bangTokens]
  | false =>
      cases f.isOptional with
      | false => exact fails_repeated (fails_fieldNode (fails_typeNode (by simp [bangTokens])
          (by simp [bangTokens])))
      | true =>
          cases after with
          | close ts => exact fails_repeated (fails_fieldNode (fails_typeNode (by simp [bangTokens])
              (by simp [bangTokens])))
          | field s ts =>
              -- The name of the next field is taken for the type, and its colon for a field.
              have taken : Takes (fieldNode (depth + 2)) [.name f.name, .mark .colon, .name s]
                  (.mark .colon :: ts) fun _ => True := by
                rw [fieldNode]
                refine Takes.look (takes_description rfl (Or.inl ⟨f.name, rfl⟩)) fun _ _ => ?_
                refine Takes.next (takes_name f.name) fun _ _ => ?_
                refine Takes.look (takes_noArguments (by simp)) fun _ _ => ?_
                refine Takes.next (takes_expect .colon) fun _ _ => ?_
                refine Takes.last (takes_namedType s true (by simp)) fun _ _ => ?_
                exact Takes.look (takes_directives (by simp)) fun _ _ => .pure trivial
              refine fails_repeated_later taken (by simp) ?_ (fails_repeated ?_)
              · exact Takes.look (takes_accept_not (by simp)) fun b hb => .pure (by rw [hb]; rfl)
              · rw [fieldNode]
                refine Takes.look_fails (takes_description rfl (Or.inr ⟨.colon, rfl⟩)) fun _ _ => ?_
                exact (fails_name (by simp)).bind

theorem follows_fields {fs : List Field} (named : ∀ f ∈ fs, f.name ≠ "")
    (plain : ∀ f ∈ fs, f.arguments = []) (ts : List Token) :
    Follows (fs.flatMap Field.tokens ++ .mark .closeBrace :: ts) := by
  cases fs with
  | nil => exact .close ts
  | cons f fs =>
      rw [List.flatMap_cons, Field.tokens, plain f (List.mem_cons_self ..),
        word_of_ne (named f (List.mem_cons_self ..))]
      exact .field f.name _

/-- Fields without arguments, of which one has no type. -/
theorem fails_fields {fs : List Field} (named : ∀ f ∈ fs, f.name ≠ "")
    (plain : ∀ f ∈ fs, f.arguments = []) (untyped : ∃ f ∈ fs, f.typeName = "") (ts : List Token) :
    Fails (untilMark .closeBrace (fieldNode (depth + 2)))
      (fs.flatMap Field.tokens ++ .mark .closeBrace :: ts) := by
  induction fs with
  | nil => simp at untyped
  | cons f fs ih =>
      obtain ⟨hname, named⟩ := List.forall_mem_cons.mp named
      obtain ⟨hplain, plain⟩ := List.forall_mem_cons.mp plain
      have follows := follows_fields named plain ts
      rw [List.flatMap_cons, List.append_assoc]
      by_cases typed : f.typeName = ""
      · exact fails_untyped hname hplain typed follows
      · have untyped : ∃ g ∈ fs, g.typeName = "" := by
          obtain ⟨g, hg, missing⟩ := untyped
          rcases List.mem_cons.mp hg with rfl | hg
          · exact absurd missing typed
          · exact ⟨g, hg, missing⟩
        have later := ih named plain untyped
        obtain ⟨g, hg, -⟩ := untyped
        obtain ⟨g, gs, rfl⟩ := List.exists_cons_of_ne_nil (List.ne_nil_of_mem hg)
        have next : front ((g :: gs).flatMap Field.tokens ++ .mark .closeBrace :: ts)
            = .name g.name := by
          rw [List.flatMap_cons, Field.tokens, List.append_assoc, List.append_assoc]
          exact front_word (named g (List.mem_cons_self ..)) _
        have readable : ∀ s ∈ f.names, s ≠ "" := by simp [Field.names, hplain, hname, typed]
        refine fails_repeated_later (takes_fieldNode readable (ends_name next))
          (by simp [Field.tokens]) ?_ later
        refine Takes.look (takes_accept_not ?_) fun b hb => .pure (by rw [hb]; rfl)
        rw [List.nil_append, next]
        simp

theorem fails_unnamed {d : Definition} (unnamed : d.names.head? = some "") (ts : List Token) :
    Fails (typeDefinition depth false) (d.tokens ++ ts) := by
  have fails_first {keyword : String} (h : keyword = "enum" ∨ keyword = "type" ∨ keyword = "input")
      (lines : List Token) :
      Fails (typeDefinition depth false)
        (.name keyword :: .mark .openBrace :: (lines ++ [.mark .closeBrace] ++ ts)) := by
    unfold typeDefinition
    refine Takes.look_fails takes_peek fun t ht => ?_
    have word : t = .name keyword := ht
    subst word
    rcases h with rfl | rfl | rfl <;>
      exact Takes.next_fails takes_advance fun _ _ => (fails_name (by simp)).bind
  cases d with
  | enum e =>
      have empty : word e.name = [] := if_pos (Option.some.inj unnamed)
      rw [Definition.tokens, blockTokens, empty]
      exact fails_first (Or.inl rfl) _
  | type t =>
      have empty : word t.name = [] := if_pos (Option.some.inj unnamed)
      rw [Definition.tokens, blockTokens, empty]
      refine fails_first ?_ _
      unfold TypeDef.keyword
      split <;> simp

theorem fails_object {t : TypeDef} (output : t.isInput = false) (some : t.name ≠ "")
    (named : ∀ f ∈ t.fields, f.name ≠ "") (plain : ∀ f ∈ t.fields, f.arguments = [])
    (untyped : ∃ f ∈ t.fields, f.typeName = "") (ts : List Token) :
    Fails (typeDefinition (depth + 2) false) ((Definition.type t).tokens ++ ts) := by
  rw [Definition.tokens, TypeDef.keyword, output, if_neg Bool.false_ne_true, blockTokens,
    word_of_ne some]
  simp only [List.cons_append, List.nil_append, List.append_assoc]
  unfold typeDefinition
  refine Takes.look_fails takes_peek fun u hu => ?_
  have keyword : u = .name "type" := hu
  subst keyword
  dsimp only
  refine Takes.next_fails takes_advance fun _ _ => ?_
  refine Takes.next_fails (takes_name t.name) fun n hn => ?_
  refine Takes.look_fails (takes_interfaces (by simp)) fun is his => ?_
  refine Takes.look_fails (takes_directives (by simp)) fun ds _ => ?_
  refine Fails.bind (Takes.next_fails (takes_accept .openBrace) fun b hb => ?_)
  rw [hb, if_pos rfl]
  exact fails_fields named plain untyped ts

theorem fails_part {d : Definition} {ts : List Token}
    (h : Fails (typeDefinition depth false) (d.tokens ++ ts)) :
    Fails (part depth) (d.tokens ++ ts) := by
  intro c hc
  obtain ⟨e, failed⟩ := h c hc
  exact ⟨e, by rw [part_run hc, StateT.run_map, failed]; rfl⟩

/-- A document fails at the first definition that fails. -/
theorem fails_document {good more : List Definition} {bad : Definition}
    (readable : ∀ d ∈ good, (∀ s ∈ d.names, s ≠ "") ∧ d.Sound)
    (fails : ∀ ts, Fails (typeDefinition (depth + 2) false) (bad.tokens ++ ts)) :
    Fails (document (depth + 2)) ((good ++ bad :: more).flatMap Definition.tokens) := by
  refine Fails.bind ?_
  induction good with
  | nil => exact fails_repeated (fails_part (fails _))
  | cons d good ih =>
      obtain ⟨⟨hd, sound⟩, readable⟩ := List.forall_mem_cons.mp readable
      rw [List.cons_append, List.flatMap_cons]
      refine fails_repeated_later (takes_part hd sound) (tokens_ne_nil d) ?_ (ih readable)
      cases good with
      | nil => exact takes_more _ _
      | cons e good => exact takes_more _ _

/-- Reading a text is running the reader on its tokens. -/
theorem read_eq {text : String} {ts : List Token}
    (h : (lexemes text).map Lexeme.content = (ts ++ [Token.endOfText]).map .ok) :
    ∃ c : Cursor, c.Has ts ∧
      Document.read text = ((document (ts.length + 1)).run c).map (·.1) := by
  unfold Document.read
  cases lexed : lexemes text with
  | nil => rw [lexed] at h; cases ts <;> cases h
  | cons l rest =>
      rw [lexed] at h
      obtain ⟨t, ht⟩ : ∃ t, l.content = .ok t := by
        cases ts <;> exact ⟨_, (List.cons.inj h).1⟩
      have has : Cursor.Has ⟨t, l.offset, rest⟩ ts := by
        rw [List.map_cons, ht] at h
        exact h
      refine ⟨⟨t, l.offset, rest⟩, has, ?_⟩
      dsimp only
      rw [ht]
      dsimp only
      rw [← has.length]

end Query.Reader

open Query.Reader

theorem Api.tokens_length (a : Api) : ∃ n, a.tokens.length + 1 = n + 2 := by
  have some : a.tokens ≠ [] := fun none =>
    tokens_ne_nil (.type a.queryType) (List.flatMap_eq_nil_iff.mp none _ (by simp [definitions]))
  obtain ⟨t, ts, tokens⟩ := List.exists_cons_of_ne_nil some
  exact ⟨ts.length, by rw [tokens, List.length_cons]⟩

/-- An API with proper names reads back. -/
theorem Api.read_text {a : Api} (named : ∀ s ∈ a.names, Naming.isName s = true)
    (sound : ∀ d ∈ a.definitions, d.Sound) : ∃ doc, Document.read a.text = .ok doc ∧
      List.Forall₂ Definition.Declares a.definitions doc.types := by
  obtain ⟨c, hc, read⟩ := read_eq (a.lexemes_text fun s hs => Or.inr (named s hs))
  have readable : ∀ d ∈ a.definitions, (∀ s ∈ d.names, s ≠ "") ∧ d.Sound := by
    refine fun d hd => ⟨?_, sound d hd⟩
    rintro s hs rfl
    exact absurd (named "" (List.mem_flatMap.mpr ⟨d, hd, hs⟩)) (by decide)
  obtain ⟨n, deep⟩ := a.tokens_length
  rw [deep] at read
  have some : a.definitions ≠ [] := by simp [Api.definitions]
  have taken : Takes (document (n + 2)) a.tokens []
      fun doc => List.Forall₂ Definition.Declares a.definitions doc.types :=
    takes_document some readable
  obtain ⟨doc, c', run, declares, -⟩ := taken c (by rwa [List.append_nil])
  exact ⟨doc, by rw [read, run]; rfl, declares⟩

/-- An API with an empty name does not. -/
theorem Api.read_fails {a : Api} (words : ∀ s ∈ a.names, IsWord s)
    {good more : List Definition} {bad : Definition} (split : a.definitions = good ++ bad :: more)
    (readable : ∀ d ∈ good, (∀ s ∈ d.names, s ≠ "") ∧ d.Sound)
    (fails : ∀ depth ts, Fails (typeDefinition (depth + 2) false) (bad.tokens ++ ts)) :
    ∃ e, Document.read a.text = .error e := by
  obtain ⟨c, hc, read⟩ := read_eq (a.lexemes_text words)
  obtain ⟨n, deep⟩ := a.tokens_length
  rw [deep] at read
  have tokens : a.tokens = (good ++ bad :: more).flatMap Definition.tokens := by
    rw [Api.tokens, split]
  obtain ⟨e, failed⟩ := fails_document readable (fails n) c (tokens ▸ hc)
  exact ⟨e, by rw [read, failed]; rfl⟩

end ResourceGraph
