import Mathlib
import ResourceGraph.Proofs.Text.Pieces
import ResourceGraph.Proofs.Url.Percent
import ResourceGraph.Url.Basic

/-!
# Addresses below an address

Segments that are encoded and written behind the text of an address go to the end of its path, or to
its query or fragment if it has one. The path of an address has no steps `.` and `..`. Where such a
step is added it is taken, and the path gets shorter than its segments tell.
-/

namespace ResourceGraph.Url

/-! ## Characters -/

/-- A character of an encoded segment. -/
def IsStepChar (c : Char) : Prop := Percent.isUnreserved c = true ∨ c = '%'

theorem IsStepChar.lt {c : Char} (h : IsStepChar c) : c.toNat < 128 := by
  rcases h with h | rfl
  · simp only [Percent.isUnreserved, Char.isAlphanum, Char.isAlpha, Char.isUpper, Char.isLower,
      Char.isDigit, Bool.or_eq_true, Bool.and_eq_true, decide_eq_true_eq, beq_iff_eq,
      UInt32.le_iff_toNat_le, ge_iff_le] at h
    have code : c.toNat = c.val.toNat := rfl
    have upper : 'Z'.val.toNat = 90 := rfl
    have lower : 'z'.val.toNat = 122 := rfl
    have digit : '9'.val.toNat = 57 := rfl
    rcases h with (((h | rfl) | rfl) | rfl) | rfl
    · omega
    all_goals decide
  · decide

/-- Such a character stands for itself in every part behind the host, and ends none of them. -/
theorem IsStepChar.plain {c : Char} (h : IsStepChar c) :
    isPathChar c = true ∧ isQueryChar c = true ∧ isFragmentChar c = true ∧
      c ∉ ['/', '#', '?', ':'] := by
  have all : ∀ n < 128, Percent.isUnreserved (Char.ofNat n) = true ∨ Char.ofNat n = '%' →
      isPathChar (Char.ofNat n) = true ∧ isQueryChar (Char.ofNat n) = true ∧
        isFragmentChar (Char.ofNat n) = true ∧ Char.ofNat n ∉ ['/', '#', '?', ':'] := by
    decide +kernel
  have this := all c.toNat h.lt
  rw [Char.ofNat_toNat] at this
  exact this h

/-- A segment as it is written into an address. -/
def IsStep (step : String) : Prop := ∀ c ∈ step.toList, IsStepChar c

/-- A text as a segment. -/
abbrev step (s : String) : String := Percent.encode Percent.isUnreserved s

theorem isStep_step (s : String) : IsStep (step s) := fun _ hc => Percent.unreserved_of_mem_encode hc

theorem isStep_of_mem_map {texts : List String} {s : String} (h : s ∈ texts.map step) : IsStep s := by
  obtain ⟨t, -, rfl⟩ := List.mem_map.mp h
  exact isStep_step t

theorem IsStep.notMem {step : String} (h : IsStep step) : '/' ∉ step.toList := fun hc =>
  (h _ hc).plain.2.2.2 (List.mem_cons_self ..)

theorem IsStep.encode_path {step : String} (h : IsStep step) :
    Percent.encode isPathChar step = step :=
  Percent.encode_of_kept fun _ hc => (h _ hc).plain.1

/-! ## Steps of a path -/

/-- The steps that are taken and not kept. -/
def Dotted (segment : String) : Prop := segment = "." ∨ segment = ".."

instance (segment : String) : Decidable (Dotted segment) := inferInstanceAs (Decidable (_ ∨ _))

theorem follow_plain {segment : String} (h : ¬ Dotted segment) (path : List String) :
    follow path segment = segment :: path := by
  unfold Dotted at h
  rw [not_or] at h
  unfold follow
  rw [if_neg h.1, if_neg h.2]

theorem length_follow_le (path : List String) (segment : String) :
    (follow path segment).length ≤ path.length + 1 := by
  unfold follow
  split
  · exact Nat.le_succ _
  · split
    · split
      · exact Nat.zero_le _
      · split <;> simp
      · simp
        omega
    · exact Nat.le_refl _

theorem length_follow_dotted {segment : String} (h : Dotted segment) (path : List String) :
    (follow path segment).length ≤ path.length := by
  rcases h with rfl | rfl
  · exact Nat.le_refl _
  · unfold follow
    rw [if_neg (by decide), if_pos rfl]
    split
    · exact Nat.le_refl _
    · split <;> simp
    · simp

theorem foldl_follow_plain {segments : List String} (h : ∀ segment ∈ segments, ¬ Dotted segment)
    (path : List String) : segments.foldl follow path = segments.reverse ++ path := by
  induction segments generalizing path with
  | nil => rfl
  | cons segment rest ih =>
      obtain ⟨hs, hrest⟩ := List.forall_mem_cons.mp h
      rw [List.foldl_cons, follow_plain hs, ih hrest, List.reverse_cons, List.append_assoc]
      rfl

theorem follow_not_dotted {path : List String} (h : ∀ x ∈ path, ¬ Dotted x) (segment : String) :
    ∀ x ∈ follow path segment, ¬ Dotted x := by
  by_cases hs : Dotted segment
  · rcases hs with rfl | rfl
    · exact h
    · unfold follow
      rw [if_neg (by decide), if_pos rfl]
      split
      · exact h
      · split
        · exact h
        · simp
      · exact fun x hx => h x (List.mem_cons_of_mem _ hx)
  · rw [follow_plain hs]
    exact List.forall_mem_cons.mpr ⟨hs, h⟩

/-- No step is left in a path that has been followed. -/
theorem followed_not_dotted (segments : List String) : ∀ x ∈ followed segments, ¬ Dotted x := by
  have all (path : List String) (h : ∀ x ∈ path, ¬ Dotted x) :
      ∀ x ∈ segments.foldl follow path, ¬ Dotted x := by
    induction segments generalizing path with
    | nil => exact h
    | cons segment rest ih => exact ih _ (follow_not_dotted h segment)
  exact fun x hx => all [] (by simp) x (List.mem_reverse.mp hx)

theorem followed_append (segments more : List String) :
    followed (segments ++ more) = (more.foldl follow (followed segments).reverse).reverse := by
  rw [followed, followed, List.foldl_append, List.reverse_reverse]

/-- A followed path is followed by itself. -/
theorem followed_plain {path : List String} (h : ∀ x ∈ path, ¬ Dotted x) : followed path = path := by
  rw [followed, foldl_follow_plain h, List.append_nil, List.reverse_reverse]

theorem followed_two {path : List String} (h : ∀ x ∈ path, ¬ Dotted x) {a b : String}
    (ha : ¬ Dotted a) (hb : ¬ Dotted b) : followed (path ++ [a, b]) = path ++ [a, b] := by
  apply followed_plain
  intro x hx
  rcases List.mem_append.mp hx with hx | hx
  · exact h x hx
  · rcases hx with _ | ⟨_, _ | ⟨_, ⟨⟩⟩⟩
    · exact ha
    · exact hb

/-- A step that is taken leaves its place in the path empty. -/
theorem length_followed_two {path : List String} (h : ∀ x ∈ path, ¬ Dotted x) {a b : String}
    (dotted : Dotted a ∨ Dotted b) : (followed (path ++ [a, b])).length < path.length + 2 := by
  rw [followed_append, followed_plain h, List.length_reverse]
  show (follow (follow path.reverse a) b).length < _
  have size : path.reverse.length = path.length := List.length_reverse
  rcases dotted with ha | hb
  · have first := length_follow_dotted ha path.reverse
    have second := length_follow_le (follow path.reverse a) b
    omega
  · have first := length_follow_le path.reverse a
    have second := length_follow_dotted hb (follow path.reverse a)
    omega

/-! ## Paths that are read -/

theorem readPath_not_dotted (cs : List Char) : ∀ x ∈ readPath cs, ¬ Dotted x := by
  intro x hx dotted
  obtain ⟨segment, mem, rfl⟩ := List.mem_map.mp hx
  refine followed_not_dotted _ segment mem (dotted.imp ?_ ?_) <;> intro same
  · exact Percent.eq_of_encode_eq same (by decide)
  · exact Percent.eq_of_encode_eq same (by decide)

theorem follow_encode {step : String} (h : IsStep step) (path : List String) :
    follow (path.map (Percent.encode isPathChar)) step
      = (follow path step).map (Percent.encode isPathChar) := by
  by_cases dotted : Dotted step
  · rcases dotted with rfl | rfl
    · rfl
    · cases path with
      | nil => rfl
      | cons top above =>
          cases above with
          | nil =>
              by_cases root : top = ""
              · subst root
                rfl
              · have kept : Percent.encode isPathChar top ≠ "" := fun same =>
                  root (Percent.eq_of_encode_eq same (by decide))
                simp [follow, root, kept]
          | cons x above => rfl
  · rw [follow_plain dotted, follow_plain dotted, List.map_cons, h.encode_path]

theorem foldl_follow_encode {steps : List String} (h : ∀ step ∈ steps, IsStep step)
    (path : List String) :
    steps.foldl follow (path.map (Percent.encode isPathChar))
      = (steps.foldl follow path).map (Percent.encode isPathChar) := by
  induction steps generalizing path with
  | nil => rfl
  | cons step rest ih =>
      obtain ⟨hs, hrest⟩ := List.forall_mem_cons.mp h
      rw [List.foldl_cons, follow_encode hs, ih hrest]
      rfl

/-- Steps that are written behind a path are followed from where it ends. -/
theorem readPath_append {steps : List String} (some_step : steps ≠ [])
    (h : ∀ step ∈ steps, IsStep step) (cs : List Char) :
    readPath (cs ++ '/' :: ("/".intercalate steps).toList) = followed (readPath cs ++ steps) := by
  have read : Text.pieces '/' ("/".intercalate steps) = steps :=
    Text.pieces_intercalate some_step fun step hs => (h step hs).notMem
  rw [followed_append, followed_plain (readPath_not_dotted cs), readPath, Text.pieces_append,
    String.ofList_toList, read, followed_append, readPath, ← List.map_reverse,
    foldl_follow_encode h, List.map_reverse]

/-! ## Addresses that are read -/

/-- The site in an address behind its scheme, and the path. -/
def siteAndPath : List Char → List Char × List Char
  | '/' :: '/' :: rest => (rest.takeWhile (· != '/'), rest.dropWhile (· != '/'))
  | rest => ([], rest)

/-- The address that is read from its parts. -/
def ofParts (scheme : String) (rest : List Char) (query fragment : Option (List Char)) : Url :=
  { readAuthority scheme.toLower (siteAndPath rest).1 with
    path := readPath (siteAndPath rest).2
    query := query.map fun cs => Percent.encode isQueryChar (String.ofList cs)
    fragment := fragment.map fun cs => Percent.encode isFragmentChar (String.ofList cs) }

theorem ofText_eq (s : String) : ofText s =
    ofParts (readScheme (Text.cutAt '?' (Text.cutAt '#' s.toList).1).1).1
      (readScheme (Text.cutAt '?' (Text.cutAt '#' s.toList).1).1).2
      (Text.cutAt '?' (Text.cutAt '#' s.toList).1).2 (Text.cutAt '#' s.toList).2 := by
  unfold ofText ofParts
  rcases Text.cutAt '#' s.toList with ⟨rest, fragment⟩
  dsimp only
  rcases Text.cutAt '?' rest with ⟨rest, query⟩
  dsimp only
  rcases readScheme rest with ⟨scheme, rest⟩
  dsimp only
  fun_cases siteAndPath rest with
  | case1 rest => rfl
  | case2 rest elsewhere =>
      split
      · exact absurd rfl (elsewhere _)
      · rfl
theorem ofText_not_dotted (s : String) : ∀ x ∈ (ofText s).path, ¬ Dotted x := by
  rw [ofText_eq]
  dsimp only [ofParts]
  exact readPath_not_dotted _

theorem siteAndPath_append {rest : List Char} (site : (siteAndPath rest).1 ≠ [])
    (more : List Char) :
    siteAndPath (rest ++ '/' :: more) = ((siteAndPath rest).1, (siteAndPath rest).2 ++ '/' :: more) := by
  fun_cases siteAndPath rest with
  | case1 rest =>
      show (List.takeWhile (· != '/') (rest ++ '/' :: more),
        List.dropWhile (· != '/') (rest ++ '/' :: more)) = (_, _)
      rw [Text.takeWhile_append_sep, Text.dropWhile_append_sep]
  | case2 rest elsewhere => exact absurd (by rw [siteAndPath]; exact elsewhere) site

theorem readScheme_append {more : List Char} (h : ':' ∉ more) (cs : List Char) :
    readScheme (cs ++ more) = ((readScheme cs).1, (readScheme cs).2 ++ more) := by
  unfold readScheme
  rw [Text.cutAt_append h]
  rcases Text.cutAt ':' cs with ⟨_ | ⟨c, name⟩, _ | rest⟩
  · cases more <;> rfl
  · rfl
  · rfl
  · dsimp only
    split <;> rfl

theorem stepChar_of_mem_intercalate {steps : List String} (h : ∀ step ∈ steps, IsStep step) {c : Char}
    (hc : c ∈ '/' :: ("/".intercalate steps).toList) : IsStepChar c ∨ c = '/' := by
  rcases List.mem_cons.mp hc with rfl | hc
  · exact Or.inr rfl
  · induction steps with
    | nil => cases hc
    | cons step rest ih =>
        obtain ⟨hs, hrest⟩ := List.forall_mem_cons.mp h
        cases rest with
        | nil =>
            rw [String.intercalate_singleton] at hc
            exact Or.inl (hs c hc)
        | cons next rest =>
            rw [String.intercalate_cons_cons, String.toList_append, String.toList_append] at hc
            rcases List.mem_append.mp hc with hc | hc
            · rcases List.mem_append.mp hc with hc | hc
              · exact Or.inl (hs c hc)
              · exact Or.inr (List.mem_singleton.mp hc)
            · exact ih hrest (List.mem_cons_of_mem _ hc) hc

theorem encode_joined {kept : Char → Bool} {steps : List String}
    (h : ∀ c, IsStepChar c ∨ c = '/' → kept c = true) (hs : ∀ step ∈ steps, IsStep step)
    (cs : List Char) :
    Percent.encode kept (String.ofList (cs ++ '/' :: ("/".intercalate steps).toList))
      = Percent.encode kept (String.ofList cs) ++ ("/" ++ "/".intercalate steps) := by
  have tail : String.ofList ('/' :: ("/".intercalate steps).toList)
      = "/" ++ "/".intercalate steps := String.toList_injective (by simp)
  have same : Percent.encode kept ("/" ++ "/".intercalate steps) = "/" ++ "/".intercalate steps := by
    refine Percent.encode_of_kept fun c hc => h c (stepChar_of_mem_intercalate hs ?_)
    simpa using hc
  rw [String.ofList_append, Percent.encode_append, tail, same]

/-- The address with encoded segments behind its text. They go to the part in which it ends, and no
step is left in a path. -/
def below (u : Url) (segments : List String) : Url :=
  let steps := segments.map step
  let tail := "/" ++ "/".intercalate steps
  match u.fragment, u.query with
  | some f, _ => { u with fragment := some (f ++ tail) }
  | none, some q => { u with query := some (q ++ tail) }
  | none, none => { u with path := followed (u.path ++ steps) }

/-- Segments behind the text of an address are below the address. -/
theorem ofText_below {s : String} {segments : List String} (some_segment : segments ≠ [])
    (host : (ofText s).host ≠ "") :
    ofText (s ++ "/" ++ "/".intercalate (segments.map step)) = (ofText s).below segments := by
  generalize hsteps : segments.map step = steps
  have isStep : ∀ step ∈ steps, IsStep step := by
    rw [← hsteps]
    exact fun _ => isStep_of_mem_map
  have some_step : steps ≠ [] := by simpa [← hsteps] using some_segment
  have without {sep : Char} (hsep : sep ∈ ['#', '?', ':']) :
      sep ∉ '/' :: ("/".intercalate steps).toList := by
    intro hc
    rcases stepChar_of_mem_intercalate isStep hc with plain | rfl
    · exact plain.plain.2.2.2 (List.mem_cons_of_mem _ hsep)
    · exact absurd hsep (by decide)
  have texts : (s ++ "/" ++ "/".intercalate steps).toList
      = s.toList ++ '/' :: ("/".intercalate steps).toList := by simp
  rw [ofText_eq] at host ⊢
  rw [ofText_eq s, texts, Text.cutAt_append (without (by decide))]
  unfold below
  rw [hsteps]
  have query_char (c : Char) (hc : IsStepChar c ∨ c = '/') : isQueryChar c = true :=
    hc.elim (fun h => h.plain.2.1) (fun h => h ▸ by decide)
  have fragment_char (c : Char) (hc : IsStepChar c ∨ c = '/') : isFragmentChar c = true :=
    hc.elim (fun h => h.plain.2.2.1) (fun h => h ▸ by decide)
  generalize Text.cutAt '#' s.toList = cut at host ⊢
  rcases cut with ⟨rest, _ | fragment⟩
  · dsimp only at host ⊢
    rw [Text.cutAt_append (without (by decide))]
    generalize Text.cutAt '?' rest = cut at host ⊢
    rcases cut with ⟨rest, _ | query⟩
    · dsimp only [ofParts] at host ⊢
      rw [readScheme_append (without (by decide))]
      have site : (siteAndPath (readScheme rest).2).1 ≠ [] := by
        intro none_there
        rw [none_there] at host
        exact host rfl
      rw [siteAndPath_append site, readPath_append some_step isStep]
      rfl
    · dsimp only [ofParts, Option.map]
      rw [encode_joined query_char isStep]
  · dsimp only [ofParts, Option.map]
    rw [encode_joined fragment_char isStep]

/-! ## Two segments below an address -/

theorem dotted_step {s : String} : Dotted (step s) ↔ Dotted s := by
  have iff {t : String} (plain : '%' ∉ t.toList) (same : step t = t) : step s = t ↔ s = t :=
    ⟨fun h => Percent.eq_of_encode_eq h plain, fun h => h ▸ same⟩
  exact or_congr (iff (by decide) rfl) (iff (by decide) rfl)

theorem step_injective {s t : String} (h : step s = step t) : s = t :=
  Percent.encode_injective rfl h

variable {u : Url} {resource id : String}

theorem below_eq (query : u.query = none) (fragment : u.fragment = none) (segments : List String) :
    u.below segments = { u with path := followed (u.path ++ segments.map step) } := by
  rw [below, query, fragment]

theorem below_plain (query : u.query = none) (fragment : u.fragment = none)
    (path : ∀ x ∈ u.path, ¬ Dotted x) (hr : ¬ Dotted resource) (hi : ¬ Dotted id) :
    u.below [resource, id] = { u with path := u.path ++ [step resource, step id] } := by
  rw [below_eq query fragment]
  show { u with path := followed (u.path ++ [step resource, step id]) } = _
  rw [followed_two path (mt dotted_step.mp hr) (mt dotted_step.mp hi)]

/-- A step that is taken makes the path shorter. -/
theorem length_below_lt (query : u.query = none) (fragment : u.fragment = none)
    (path : ∀ x ∈ u.path, ¬ Dotted x) (dotted : Dotted resource ∨ Dotted id) :
    (u.below [resource, id]).path.length < u.path.length + 2 := by
  rw [below_eq query fragment]
  exact length_followed_two path (dotted.imp dotted_step.mpr dotted_step.mpr)

/-- The address is that of the base with two more segments, which decode to the texts. -/
def Addresses (base u : Url) (resource id : String) : Prop :=
  ∃ a b, u = { base with path := base.path ++ [a, b] } ∧ '/' ∉ a.toList ∧ '/' ∉ b.toList ∧
    Percent.decode? a = some resource ∧ Percent.decode? b = some id

theorem Addresses.length_path {base : Url} (h : Addresses base u resource id) :
    u.path.length = base.path.length + 2 := by
  obtain ⟨a, b, rfl, -⟩ := h
  simp

/-- Two segments below an address are found there exactly if they go to its path and neither is a
step that is taken. -/
theorem addresses_below_iff (path : ∀ x ∈ u.path, ¬ Dotted x) :
    Addresses u (u.below [resource, id]) resource id ↔
      (u.query = none ∧ u.fragment = none) ∧ ¬ Dotted resource ∧ ¬ Dotted id := by
  constructor
  · intro addresses
    have long := addresses.length_path
    cases fragment : u.fragment with
    | some f => simp [below, fragment] at long
    | none =>
        cases query : u.query with
        | some q => simp [below, fragment, query] at long
        | none =>
            refine ⟨⟨rfl, rfl⟩, not_or.mp fun dotted => ?_⟩
            exact (length_below_lt query fragment path dotted).ne long
  · rintro ⟨⟨query, fragment⟩, hr, hi⟩
    exact ⟨step resource, step id, below_plain query fragment path hr hi, (isStep_step _).notMem,
      (isStep_step _).notMem, Percent.decode?_encode rfl _, Percent.decode?_encode rfl _⟩

theorem joined_injective {texts texts' : List String} (some_text : texts ≠ [])
    (some_text' : texts' ≠ [])
    (same : "/".intercalate (texts'.map step) = "/".intercalate (texts.map step)) :
    texts' = texts := by
  have read {texts : List String} (some_text : texts ≠ []) :
      Text.pieces '/' ("/".intercalate (texts.map step)) = texts.map step :=
    Text.pieces_intercalate (by simpa using some_text) fun _ hs => (isStep_of_mem_map hs).notMem
  have steps : texts'.map step = texts.map step := by rw [← read some_text', same, read some_text]
  exact List.map_injective_iff.mpr (fun _ _ => step_injective) steps

/-- No other two segments lead to an address below which two segments are that are no steps. -/
theorem below_injective (path : ∀ x ∈ u.path, ¬ Dotted x) (hr : ¬ Dotted resource)
    (hi : ¬ Dotted id) {resource' id' : String}
    (h : u.below [resource', id'] = u.below [resource, id]) : resource' = resource ∧ id' = id := by
  have tails (start : String) (same : start ++ ("/" ++ "/".intercalate ([resource', id'].map step))
      = start ++ ("/" ++ "/".intercalate ([resource, id].map step))) :
      resource' = resource ∧ id' = id := by
    have joined := (String.append_right_inj _).mp ((String.append_right_inj _).mp same)
    simpa using joined_injective (List.cons_ne_nil _ _) (List.cons_ne_nil _ _) joined
  cases fragment : u.fragment with
  | some f =>
      have fragments := congrArg Url.fragment h
      simp only [below, fragment, Option.some.injEq] at fragments
      exact tails f fragments
  | none =>
      cases query : u.query with
      | some q =>
          have queries := congrArg Url.query h
          simp only [below, fragment, query, Option.some.injEq] at queries
          exact tails q queries
      | none =>
          have there := below_plain query fragment path hr hi
          by_cases dotted : Dotted resource' ∨ Dotted id'
          · have short := length_below_lt query fragment path dotted
            rw [h, there] at short
            simp at short
          · obtain ⟨hr', hi'⟩ := not_or.mp dotted
            rw [there, below_plain query fragment path hr' hi'] at h
            have steps := List.append_cancel_left (congrArg Url.path h)
            exact ⟨step_injective (List.cons_eq_cons.mp steps).1,
              step_injective (List.cons_eq_cons.mp (List.cons_eq_cons.mp steps).2).1⟩

end ResourceGraph.Url
