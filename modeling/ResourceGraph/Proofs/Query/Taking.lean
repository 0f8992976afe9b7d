import Mathlib.Data.List.Forall2
import ResourceGraph.Query.Grammar

/-!
# What readers take

A reader takes tokens if, before whatever it is allowed to stand, it goes on to what comes after
them. It fails on tokens if it gives an error on every text that begins with them.
-/

namespace ResourceGraph.Query

/-- The tokens still to be read, up to the end of the text. -/
def Cursor.Has (c : Cursor) (ts : List Token) : Prop :=
  Except.ok c.token :: c.rest.map Lexeme.content = (ts ++ [Token.endOfText]).map .ok

/-- The token that comes next. -/
abbrev front (ts : List Token) : Token := ts.headD .endOfText

theorem Cursor.Has.token {c : Cursor} {ts : List Token} (h : c.Has ts) : c.token = front ts := by
  cases ts with
  | nil => exact Except.ok.inj (List.cons.inj h).1
  | cons t ts => exact Except.ok.inj (List.cons.inj h).1

theorem Cursor.Has.length {c : Cursor} {ts : List Token} (h : c.Has ts) :
    c.rest.length = ts.length := by
  simpa using congrArg List.length h

namespace Reader

variable {α β : Type}

/-- The reader takes the first tokens where the second come after them, and gives what is asked. -/
def Takes (r : Reader α) (ts rest : List Token) (P : α → Prop) : Prop :=
  ∀ c : Cursor, c.Has (ts ++ rest) → ∃ a c', r.run c = .ok (a, c') ∧ P a ∧ c'.Has rest

/-- The reader gives an error. -/
def Fails (r : Reader α) (ts : List Token) : Prop :=
  ∀ c : Cursor, c.Has ts → ∃ e, r.run c = .error e

variable {r : Reader α} {f : α → Reader β} {ts us rest : List Token} {P : α → Prop}
  {Q : β → Prop}

theorem run_bind_ok {a : α} {c c' : Cursor} (h : r.run c = .ok (a, c')) :
    (r >>= f).run c = (f a).run c' := by
  rw [StateT.run_bind, h]
  rfl

theorem Takes.mono {P' : α → Prop} (h : Takes r ts rest P) (hP : ∀ a, P a → P' a) :
    Takes r ts rest P' := by
  intro c hc
  obtain ⟨a, c', run, ha, hc'⟩ := h c hc
  exact ⟨a, c', run, hP a ha, hc'⟩

theorem Takes.pure {a : α} (h : P a) : Takes (Pure.pure a) [] rest P :=
  fun c hc => ⟨a, c, rfl, h, hc⟩

theorem Takes.bind (h : Takes r ts (us ++ rest) P) (hf : ∀ a, P a → Takes (f a) us rest Q) :
    Takes (r >>= f) (ts ++ us) rest Q := by
  intro c hc
  rw [List.append_assoc] at hc
  obtain ⟨a, c', run, ha, hc'⟩ := h c hc
  rw [run_bind_ok run]
  exact hf a ha c' hc'

/-- A reader that only looks at what comes next. -/
theorem Takes.look (h : Takes r [] (us ++ rest) P) (hf : ∀ a, P a → Takes (f a) us rest Q) :
    Takes (r >>= f) us rest Q := Takes.bind h hf

theorem Takes.next {t : Token} (h : Takes r [t] (us ++ rest) P)
    (hf : ∀ a, P a → Takes (f a) us rest Q) : Takes (r >>= f) (t :: us) rest Q := Takes.bind h hf

theorem Takes.last (h : Takes r ts rest P) (hf : ∀ a, P a → Takes (f a) [] rest Q) :
    Takes (r >>= f) ts rest Q := by
  rw [← List.append_nil ts]
  exact Takes.bind h hf

theorem Takes.map {g : α → β} (h : Takes r ts rest fun a => Q (g a)) :
    Takes (g <$> r) ts rest Q := by
  intro c hc
  obtain ⟨a, c', run, ha, hc'⟩ := h c hc
  refine ⟨g a, c', ?_, ha, hc'⟩
  rw [StateT.run_map, run]
  rfl

theorem Fails.bind (h : Fails r ts) : Fails (r >>= f) ts := by
  intro c hc
  obtain ⟨e, run⟩ := h c hc
  exact ⟨e, by rw [StateT.run_bind, run]; rfl⟩

theorem Takes.bind_fails (h : Takes r ts rest P) (hf : ∀ a, P a → Fails (f a) rest) :
    Fails (r >>= f) (ts ++ rest) := by
  intro c hc
  obtain ⟨a, c', run, ha, hc'⟩ := h c hc
  obtain ⟨e, failed⟩ := hf a ha c' hc'
  exact ⟨e, by rw [run_bind_ok run]; exact failed⟩

theorem Takes.look_fails (h : Takes r [] rest P) (hf : ∀ a, P a → Fails (f a) rest) :
    Fails (r >>= f) rest := Takes.bind_fails h hf

theorem Takes.next_fails {t : Token} (h : Takes r [t] rest P) (hf : ∀ a, P a → Fails (f a) rest) :
    Fails (r >>= f) (t :: rest) := Takes.bind_fails h hf

/-! ## Single tokens -/

theorem fails_fail {d : Defect} : Fails (fail (α := α) d) ts := fun _ _ => ⟨_, rfl⟩

theorem takes_peek : Takes peek [] rest fun t => t = front rest :=
  fun c hc => ⟨c.token, c, rfl, hc.token, hc⟩

theorem takes_offset : Takes offset [] rest fun _ => True :=
  fun c hc => ⟨c.offset, c, rfl, trivial, hc⟩

theorem takes_advance {t : Token} : Takes advance [t] rest fun _ => True := by
  intro c hc
  have later := (List.cons.inj hc).2
  cases hr : c.rest with
  | nil =>
      rw [hr] at later
      cases rest <;> cases later
  | cons l ls =>
      rw [hr] at later
      obtain ⟨u, hu⟩ : ∃ u, l.content = .ok u := by
        cases rest <;> exact ⟨_, (List.cons.inj later).1⟩
      refine ⟨(), ⟨u, l.offset, ls⟩, ?_, trivial, ?_⟩
      · rw [advance, StateT.run_bind, StateT.run_get, pure_bind]
        dsimp only
        rw [hr]
        dsimp only
        rw [hu]
        rfl
      · rw [List.map_cons, hu] at later
        exact later

theorem takes_isMark (m : Mark) :
    Takes (isMark m) [] rest fun b => b = decide (front rest = .mark m) :=
  Takes.look takes_peek fun _ ht => .pure (by rw [ht, List.nil_append])

theorem takes_isMark_self (m : Mark) : Takes (isMark m) [] (.mark m :: rest) fun b => b = true :=
  (takes_isMark m).mono fun _ hb => hb.trans (decide_eq_true rfl)

theorem takes_isMark_not {m : Mark} (h : front rest ≠ .mark m) :
    Takes (isMark m) [] rest fun b => b = false :=
  (takes_isMark m).mono fun _ hb => hb.trans (decide_eq_false h)

theorem takes_expect (m : Mark) : Takes (expect m) [.mark m] rest fun _ => True :=
  Takes.look (takes_isMark_self m) fun b hb => by
    rw [hb, if_pos rfl]
    exact takes_advance

theorem takes_accept (m : Mark) : Takes (accept m) [.mark m] rest fun b => b = true :=
  Takes.look (takes_isMark_self m) fun b hb => by
    rw [hb, if_pos rfl]
    exact Takes.last takes_advance fun _ _ => .pure rfl

/-- A mark that does not come next is not taken. -/
theorem takes_accept_not {m : Mark} (h : front rest ≠ .mark m) :
    Takes (accept m) [] rest fun b => b = false :=
  Takes.look (takes_isMark_not h) fun b hb => by
    rw [hb, if_neg Bool.false_ne_true]
    exact .pure rfl

theorem takes_name (s : String) : Takes name [.name s] rest fun n => n.text = s :=
  Takes.look takes_peek fun t ht => by
    rw [ht]
    refine Takes.look takes_offset fun o _ => ?_
    exact Takes.last takes_advance fun _ _ => .pure rfl

theorem fails_name (h : ∀ s, front ts ≠ .name s) : Fails name ts :=
  Takes.bind_fails takes_peek fun t ht => by
    subst ht
    generalize front ts = t at h
    cases t with
    | name s => exact absurd rfl (h s)
    | _ => exact fails_fail

theorem takes_acceptKeyword_not {w : String} (h : front rest ≠ .name w) :
    Takes (acceptKeyword w) [] rest fun b => b = false :=
  Takes.look takes_peek fun t ht => by
    rw [if_neg (ht ▸ h)]
    exact .pure rfl

/-! ## Repetition -/

section Repetition

variable {item : Reader α} {more : Reader Bool} {γ : Type} {tokens : γ → List Token}
  {R : γ → α → Prop} {stop : List Token}

/-- A list is read item by item: each may stand before another one and before the end, and these
are told apart. -/
structure Separates (item : Reader α) (more : Reader Bool) (tokens : γ → List Token)
    (R : γ → α → Prop) (stop rest : List Token) (xs : List γ) : Prop where
  some : ∀ x ∈ xs, tokens x ≠ []
  between : ∀ x ∈ xs, ∀ y ∈ xs, ∀ us, Takes item (tokens x) (tokens y ++ us) (R x)
  last : ∀ x ∈ xs, Takes item (tokens x) (stop ++ rest) (R x)
  goes_on : ∀ x ∈ xs, ∀ us, Takes more [] (tokens x ++ us) fun b => b = true
  ends : Takes more stop rest fun b => b = false

theorem Separates.tail {x : γ} {xs : List γ}
    (h : Separates item more tokens R stop rest (x :: xs)) :
    Separates item more tokens R stop rest xs where
  some := fun y hy => h.some y (List.mem_cons_of_mem _ hy)
  between := fun y hy z hz =>
    h.between y (List.mem_cons_of_mem _ hy) z (List.mem_cons_of_mem _ hz)
  last := fun y hy => h.last y (List.mem_cons_of_mem _ hy)
  goes_on := fun y hy => h.goes_on y (List.mem_cons_of_mem _ hy)
  ends := h.ends

theorem takes_repeated {x : γ} {xs : List γ}
    (h : Separates item more tokens R stop rest (x :: xs)) :
    Takes (repeated item more) ((x :: xs).flatMap tokens ++ stop) rest
      (List.Forall₂ R (x :: xs)) := by
  induction xs generalizing x with
  | nil =>
      intro c hc
      rw [List.flatMap_cons, List.flatMap_nil, List.append_nil, List.append_assoc] at hc
      obtain ⟨a, c', read, ha, hc'⟩ := h.last x (List.mem_cons_self ..) c hc
      obtain ⟨b, d, ended, rfl, hd⟩ := h.ends c' hc'
      have read : item c = .ok (a, c') := read
      have ended : more c' = .ok (false, d) := ended
      refine ⟨[a], d, ?_, .cons ha .nil, hd⟩
      show repeated item more c = _
      rw [repeated, read]
      dsimp only
      rw [ended]
  | cons y ys ih =>
      intro c hc
      rw [List.flatMap_cons, List.append_assoc, List.append_assoc, List.flatMap_cons,
        List.append_assoc] at hc
      have hx := List.mem_cons_self (a := x) (l := y :: ys)
      have hy : y ∈ x :: y :: ys := List.mem_cons_of_mem _ (List.mem_cons_self ..)
      obtain ⟨a, c', read, ha, hc'⟩ := h.between x hx y hy _ c hc
      obtain ⟨b, d, went_on, rfl, hd⟩ := h.goes_on y hy _ c' hc'
      have shorter : d.rest.length < c.rest.length := by
        have some := List.length_pos_iff.mpr (h.some x hx)
        have total := hc.length
        rw [List.length_append] at total
        rw [hd.length]
        omega
      rw [← List.append_assoc, ← List.flatMap_cons, ← List.append_assoc] at hd
      obtain ⟨as, e, later, has, he⟩ := ih h.tail d hd
      have read : item c = .ok (a, c') := read
      have went_on : more c' = .ok (true, d) := went_on
      have later : repeated item more d = .ok (as, e) := later
      refine ⟨a :: as, e, ?_, .cons ha has, he⟩
      show repeated item more c = _
      rw [repeated, read]
      dsimp only
      rw [went_on]
      dsimp only
      rw [dif_pos shorter, later]

theorem fails_repeated (h : Fails item ts) : Fails (repeated item more) ts := by
  intro c hc
  obtain ⟨e, failed⟩ := h c hc
  have failed : item c = .error e := failed
  refine ⟨e, ?_⟩
  show repeated item more c = _
  rw [repeated, failed]

theorem fails_repeated_later (h : Takes item ts us P) (some : ts ≠ [])
    (goes_on : Takes more [] us fun b => b = true) (later : Fails (repeated item more) us) :
    Fails (repeated item more) (ts ++ us) := by
  intro c hc
  obtain ⟨a, c', read, -, hc'⟩ := h c hc
  obtain ⟨b, d, went_on, rfl, hd⟩ := goes_on c' hc'
  obtain ⟨e, failed⟩ := later d hd
  have shorter : d.rest.length < c.rest.length := by
    have some := List.length_pos_iff.mpr some
    have total := hc.length
    rw [List.length_append] at total
    rw [hd.length]
    omega
  have read : item c = .ok (a, c') := read
  have went_on : more c' = .ok (true, d) := went_on
  have failed : repeated item more d = .error e := failed
  refine ⟨e, ?_⟩
  show repeated item more c = _
  rw [repeated, read]
  dsimp only
  rw [went_on]
  dsimp only
  rw [dif_pos shorter, failed]

variable {close : Mark}

/-- Up to a closing mark, which no item begins with. -/
theorem takes_untilMark {x : γ} {xs : List γ}
    (some : ∀ y ∈ x :: xs, tokens y ≠ [] ∧ front (tokens y) ≠ .mark close)
    (reads : ∀ y ∈ x :: xs, ∀ us,
      (front us = .mark close ∨ ∃ z ∈ x :: xs, front us = front (tokens z)) →
      Takes item (tokens y) us (R y)) :
    Takes (untilMark close item) ((x :: xs).flatMap tokens ++ [.mark close]) rest
      (List.Forall₂ R (x :: xs)) := by
  have front_append {y : γ} (hy : y ∈ x :: xs) (us : List Token) :
      front (tokens y ++ us) = front (tokens y) := by
    cases ht : tokens y with
    | nil => exact absurd ht (some y hy).1
    | cons t ts => rfl
  refine takes_repeated {
    some := fun y hy => (some y hy).1
    between := fun y hy z hz us => reads y hy _ (Or.inr ⟨z, hz, front_append hz us⟩)
    last := fun y hy => reads y hy _ (Or.inl rfl)
    goes_on := fun y hy us => ?_
    ends := ?_ }
  · refine Takes.look (takes_accept_not ?_) fun b hb => .pure (by rw [hb]; rfl)
    rw [List.nil_append, front_append hy]
    exact (some y hy).2
  · exact Takes.last (takes_accept close) fun b hb => .pure (by rw [hb]; rfl)

/-- What may be read between an opening and a closing mark. -/
def Enclosable (close : Mark) (item : Reader α) (tokens : γ → List Token) (R : γ → α → Prop)
    (xs : List γ) : Prop :=
  (∀ y ∈ xs, tokens y ≠ [] ∧ front (tokens y) ≠ .mark close) ∧
    ∀ y ∈ xs, ∀ us, (front us = .mark close ∨ ∃ z ∈ xs, front us = front (tokens z)) →
      Takes item (tokens y) us (R y)

theorem takes_enclosed {openMark : Mark} {xs : List γ} (some : xs ≠ [])
    (h : Enclosable close item tokens R xs) :
    Takes (optionally openMark close item)
      (.mark openMark :: (xs.flatMap tokens ++ [.mark close])) rest (List.Forall₂ R xs) := by
  cases xs with
  | nil => exact absurd rfl some
  | cons x xs =>
      refine Takes.next (takes_accept openMark) fun b hb => ?_
      rw [hb, if_pos rfl]
      exact takes_untilMark h.1 h.2

theorem takes_optionally {openMark : Mark} {xs : List γ}
    (h : Enclosable close item tokens R xs) (after : front rest ≠ .mark openMark) :
    Takes (optionally openMark close item)
      (if xs.isEmpty then [] else .mark openMark :: (xs.flatMap tokens ++ [.mark close])) rest
      (List.Forall₂ R xs) := by
  split
  · rename_i none
    rw [List.isEmpty_iff.mp none]
    refine Takes.look (takes_accept_not after) fun b hb => ?_
    rw [hb, if_neg Bool.false_ne_true]
    exact .pure .nil
  · rename_i some
    exact takes_enclosed (fun none => some (List.isEmpty_iff.mpr none)) h

end Repetition

/-! ## Parts of definitions -/

variable {depth : Nat}

/-- A description is a string. -/
theorem takes_description {t : Token} (h : front rest = t)
    (plain : (∃ s, t = .name s) ∨ ∃ m, t = .mark m) :
    Takes description [] rest fun b => b = false :=
  Takes.look takes_peek fun u hu => by
    rw [hu, List.nil_append, h]
    rcases plain with ⟨s, rfl⟩ | ⟨m, rfl⟩ <;> exact .pure rfl

theorem takes_directives {constant : Bool} (h : front rest ≠ .mark .at) :
    Takes (directives depth constant) [] rest fun ds => ds = [] :=
  Takes.look (takes_isMark_not h) fun b hb => by
    rw [hb, if_neg Bool.false_ne_true]
    exact .pure rfl

end Reader

end ResourceGraph.Query
