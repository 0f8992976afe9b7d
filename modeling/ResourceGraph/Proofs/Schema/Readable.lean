import ResourceGraph.Proofs.Api.Parts
import ResourceGraph.Proofs.Schema.Sketch

/-!
# Which schemas can be read

Reading goes through the objects that a schema includes: itself, and what the keywords of these
objects are schemas for. It fails if and only if one of them requires properties by something that
is no list of names, whatever has been read before.
-/

namespace ResourceGraph

/-- The objects that a schema includes. -/
inductive RawGraph.Includes (g : RawGraph) : RawValue g.size → Fin g.size → Prop
  | self (i : Fin g.size) : g.Includes (.obj i) i
  | part {i j : Fin g.size} {v : RawValue g.size} (mem : v ∈ (Layout.ofObject g i).parts)
      (inside : g.Includes v j) : g.Includes (.obj i) j

/-- The required properties of an object cannot be gone through. -/
def Layout.Unreadable {n : Nat} (e : SchemaError) : Layout n → Prop
  | .object _ required _ _ => required = .error e
  | _ => False

namespace Parsing

variable {g : RawGraph} {α β : Type} {S S' : Fin g.size → Prop}

/-- A reading that gives nodes to objects of a kind only, and fails only because of one of them. -/
def Confined (S : Fin g.size → Prop) (x : Parsing g.size α) : Prop :=
  ∀ t r t', outcome x t = (r, t') →
    (∀ i y, t'.find? i = some y → (∃ z, t.find? i = some z) ∨ S i) ∧
    ∀ e, r = .error e → ∃ i, S i ∧ (Layout.ofObject g i).Unreadable e

theorem Confined.mono (h : ∀ i, S i → S' i) {x : Parsing g.size α} (hx : Confined S x) :
    Confined S' x := fun t r t' run =>
  ⟨fun i y hy => ((hx t r t' run).1 i y hy).imp_right (h i), fun e he =>
    let ⟨i, hi, unreadable⟩ := (hx t r t' run).2 e he
    ⟨i, h i hi, unreadable⟩⟩

theorem confined_pure (a : α) : Confined S (pure a) := by
  rintro t r t' run
  cases run
  exact ⟨fun i y hy => Or.inl ⟨y, hy⟩, nofun⟩

theorem confined_serial (f : Nat → α) : Confined S (do return f (← nextSerial)) := by
  rintro t r t' run
  cases run
  exact ⟨fun i y hy => Or.inl ⟨y, hy⟩, nofun⟩

theorem confined_lift {i : Fin g.size} (hi : S i) {required : Except SchemaError α}
    (unreadable : ∀ e, required = .error e → (Layout.ofObject g i).Unreadable e) :
    Confined S (liftM required) := by
  rintro t r t' run
  cases required with
  | ok a =>
      cases run
      exact ⟨fun i y hy => Or.inl ⟨y, hy⟩, nofun⟩
  | error e =>
      cases run
      exact ⟨fun i y hy => Or.inl ⟨y, hy⟩, fun _ he => ⟨i, hi, unreadable _ (by cases he; rfl)⟩⟩

theorem Confined.bind {x : Parsing g.size α} {f : α → Parsing g.size β} (hx : Confined S x)
    (hf : ∀ a, Confined S (f a)) : Confined S (x >>= f) := by
  rintro t r t'' run
  rw [outcome_bind] at run
  rcases ran : outcome x t with ⟨e | a, t'⟩
  · rw [ran] at run
    cases run
    obtain ⟨stores, fails⟩ := hx _ _ _ ran
    exact ⟨stores, fun e' he => fails e' (by cases he; rfl)⟩
  · rw [ran] at run
    obtain ⟨stores, -⟩ := hx _ _ _ ran
    obtain ⟨stores', fails⟩ := hf a _ _ _ run
    refine ⟨fun i y hy => ?_, fails⟩
    rcases stores' i y hy with ⟨z, hz⟩ | hi
    · exact stores i z hz
    · exact Or.inr hi

/-- An object that is being read gets a reference. -/
theorem parse_back {within : List (Fin g.size)} {i : Fin g.size} {t : NodeTable g.size}
    (h : t.find? i = none) (hi : i ∈ within) :
    outcome (parse g within (.obj i)) t = outcome (do return .ref (← nextSerial) i) t := by
  rw [parse, outcome_bind, outcome_get]
  dsimp only
  rw [h]
  dsimp only
  rw [dif_pos hi]

mutual

theorem parse_confined (within : List (Fin g.size)) (raw : RawValue g.size) :
    Confined (g.Includes raw) (parse g within raw) := by
  by_cases leaf : ∀ i, raw = .obj i → False
  · rw [parse]
    · exact confined_serial fun k => Node.scalar (.serial k) .null .null
    · exact leaf
  · obtain ⟨i, rfl⟩ : ∃ i, raw = .obj i := by simpa using leaf
    rintro t r t' run
    cases found : t.find? i with
    | some y =>
        rw [parse_found found] at run
        cases run
        exact ⟨fun j z hz => Or.inl ⟨z, hz⟩, nofun⟩
    | none =>
        by_cases hi : i ∈ within
        · rw [parse_back found hi] at run
          exact confined_serial (Node.ref · i) t r t' run
        · have := unseenFin_cons_lt hi
          rw [parse_fresh found hi] at run
          have confined := parseLayout_confined i (i :: within) (Layout.ofObject g i) rfl
          rcases ran : outcome (parseLayout g i (i :: within) (Layout.ofObject g i)) t
            with ⟨e | y, t₁⟩
          · rw [ran] at run
            cases run
            obtain ⟨stores, fails⟩ := confined _ _ _ ran
            exact ⟨stores, fun e' he => fails e' (by cases he; rfl)⟩
          · rw [ran] at run
            cases run
            obtain ⟨stores, -⟩ := confined _ _ _ ran
            refine ⟨fun j z hz => ?_, nofun⟩
            rw [NodeTable.find?_store] at hz
            split at hz
            · rename_i same
              subst same
              exact Or.inr (.self _)
            · exact stores j z hz
termination_by (unseenFin within, 0)
decreasing_by all_goals decreasing_with omega

theorem parseLayout_confined (i : Fin g.size) (within : List (Fin g.size)) (layout : Layout g.size)
    (own : layout = Layout.ofObject g i) :
    Confined (g.Includes (.obj i)) (parseLayout g i within layout) := by
  have inside {v : RawValue g.size} (mem : v ∈ layout.parts) (j : Fin g.size)
      (hj : g.Includes v j) : g.Includes (.obj i) j := .part (own ▸ mem) hj
  match layout with
  | .composite kind branches =>
      rw [parseLayout]
      exact ((parseItems_confined within branches).mono fun j ⟨v, hv, hj⟩ => inside hv j hj).bind
        fun xs => confined_pure _
  | .enumeration values type =>
      rw [parseLayout]
      exact confined_pure _
  | .array none =>
      rw [parseLayout]
      exact confined_pure _
  | .array (some items) =>
      rw [parseLayout]
      exact ((parse_confined within items).mono (inside (List.mem_singleton_self _))).bind fun x =>
        confined_pure _
  | .object properties required additional other =>
      have rest (extra : Option (Node g.size)) : Confined (g.Includes (.obj i)) (do
          let properties ← parseMembers g within properties
          let required ← (required : Parsing g.size (List String))
          return Node.object (.parsed i) properties required extra other) := by
        refine ((parseMembers_confined within properties).mono fun j ⟨p, hp, hj⟩ =>
          inside (List.mem_append_left _ (List.mem_map_of_mem hp)) j hj).bind fun ps => ?_
        refine (confined_lift (.self i) fun e he => ?_).bind fun req => confined_pure _
        rw [← own]
        exact he
      cases additional with
      | none =>
          rw [parseLayout.eq_def]
          exact (confined_pure none).bind rest
      | some raw =>
          have extra : Confined (g.Includes (.obj i)) (some <$> parse g within raw) := by
            rw [map_eq_pure_bind]
            exact ((parse_confined within raw).mono
              (inside (List.mem_append_right _ (List.mem_singleton_self _)))).bind fun x =>
                confined_pure _
          rw [parseLayout.eq_def]
          exact extra.bind rest
  | .scalar type format =>
      rw [parseLayout]
      exact confined_pure _
termination_by (unseenFin within, 2 + sizeOf layout)
decreasing_by all_goals simp_wf; omega

theorem parseItems_confined (within : List (Fin g.size)) (items : List (RawValue g.size)) :
    Confined (fun i => ∃ v ∈ items, g.Includes v i) (parseItems g within items) := by
  match items with
  | [] =>
      rw [parseItems]
      exact confined_pure _
  | raw :: rest =>
      rw [parseItems]
      refine ((parse_confined within raw).mono fun i hi => ⟨raw, List.mem_cons_self .., hi⟩).bind
        fun x => ?_
      exact ((parseItems_confined within rest).mono fun i ⟨v, hv, hi⟩ =>
        ⟨v, List.mem_cons_of_mem _ hv, hi⟩).bind fun xs => confined_pure _
termination_by (unseenFin within, 1 + sizeOf items)
decreasing_by all_goals decreasing_with omega

theorem parseMembers_confined (within : List (Fin g.size))
    (ms : List (String × RawValue g.size)) :
    Confined (fun i => ∃ p ∈ ms, g.Includes p.2 i) (parseMembers g within ms) := by
  match ms with
  | [] =>
      rw [parseMembers]
      exact confined_pure _
  | (k, raw) :: rest =>
      rw [parseMembers]
      refine ((parse_confined within raw).mono fun i hi =>
        ⟨(k, raw), List.mem_cons_self .., hi⟩).bind fun x => ?_
      exact ((parseMembers_confined within rest).mono fun i ⟨p, hp, hi⟩ =>
        ⟨p, List.mem_cons_of_mem _ hp, hi⟩).bind fun xs => confined_pure _
termination_by (unseenFin within, 1 + sizeOf ms)
decreasing_by all_goals decreasing_with omega

end

end Parsing

/-! ## What has been read -/

/-- What a layout has below has a node below the node of the layout. -/
theorem Layout.Makes.part {n : Nat} {D : RawValue n → Node n → Prop} {i : Fin n} {l : Layout n}
    {x : Node n} (h : l.Makes D i x) {v : RawValue n} (mem : v ∈ l.parts) : ∃ y, D v y := by
  cases h with
  | composite kind branches =>
      obtain ⟨y, -, hy⟩ := exists_of_forall₂_left branches mem
      exact ⟨y, hy⟩
  | enumeration | scalar => cases mem
  | array items =>
      cases items with
      | none => cases mem
      | some hy => exact ⟨_, List.mem_singleton.mp mem ▸ hy⟩
  | object other properties required additional =>
      rcases List.mem_append.mp mem with mem | mem
      · obtain ⟨p, hp, rfl⟩ := List.mem_map.mp mem
        obtain ⟨q, -, -, hq⟩ := exists_of_forall₂_left properties hp
        exact ⟨q.2, hq⟩
      · cases additional with
        | none => cases mem
        | some hy => exact ⟨_, List.mem_singleton.mp mem ▸ hy⟩

namespace NodeTable

variable {g : RawGraph} {t : NodeTable g.size}

/-- Whatever is included in what has been read has been read. -/
theorem Denotes.find?_of_includes (sound : t.Sound []) (reflects : t.Reflects g [])
    {raw : RawValue g.size} {x : Node g.size} (h : t.Denotes [] raw x) {i : Fin g.size}
    (inside : g.Includes raw i) : ∃ y, t.find? i = some y := by
  induction inside generalizing x with
  | self i =>
      rcases h.deref sound with ⟨j, y, same, found, -⟩ | ⟨leaf, -⟩
      · cases same
        exact ⟨y, found⟩
      · exact (leaf i rfl).elim
  | @part i j v mem _ ih =>
      rcases h.deref sound with ⟨k, y, same, found, -⟩ | ⟨leaf, -⟩
      · cases same
        obtain ⟨z, hz⟩ := (reflects i y found).part mem
        exact ih hz
      · exact (leaf i rfl).elim

/-- What has been read could be read. -/
theorem Reflects.readable (reflects : t.Reflects g []) {i : Fin g.size} {x : Node g.size}
    (found : t.find? i = some x) (e : SchemaError) : ¬ (Layout.ofObject g i).Unreadable e := by
  intro unreadable
  have made := reflects i x found
  cases hl : Layout.ofObject g i with
  | object properties required additional other =>
      rw [hl] at made unreadable
      cases made with
      | object _ _ hreq => cases hreq.symm.trans unreadable
  | _ => rw [hl] at unreadable; exact unreadable

end NodeTable

/-- Reading fails if and only if an object inside cannot be read. -/
theorem Parsing.run_fails_iff {g : RawGraph} {t : NodeTable g.size} (sound : t.Sound [])
    (reflects : t.Reflects g []) (raw : RawValue g.size) :
    (∃ e t', run g raw t = (.error e, t')) ↔
      ∃ i e, g.Includes raw i ∧ (Layout.ofObject g i).Unreadable e := by
  constructor
  · rintro ⟨e, t', failed⟩
    obtain ⟨i, inside, unreadable⟩ := (parse_confined [] raw t _ t' failed).2 e rfl
    exact ⟨i, e, inside, unreadable⟩
  · rintro ⟨i, e, inside, unreadable⟩
    rcases read : run g raw t with ⟨e' | node, t'⟩
    · exact ⟨e', t', rfl⟩
    · obtain ⟨grown, reflects', denotes⟩ := parse_ensures [] raw t node t' sound reflects read
      obtain ⟨y, found⟩ := denotes.find?_of_includes grown.sound reflects' inside
      exact (reflects'.readable found e unreadable).elim

end ResourceGraph
