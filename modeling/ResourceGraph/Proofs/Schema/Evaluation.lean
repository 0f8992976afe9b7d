import ResourceGraph.Proofs.Raw.Unfolding
import ResourceGraph.Schema.Parsing

/-!
# Reading as a recursion over numbers

Reading enters an object only where it is not inside it already, so it goes no deeper than there
are objects. What one object adds is written with its parts still to be read, by whatever reader;
reading with a number of levels that are left is then a structural recursion, which gives the same
wherever there are levels enough, and which the kernel can evaluate.
-/

namespace ResourceGraph

/-! ## Going in -/

/-- What holds inside an object whenever it holds in all objects that are not entered yet. -/
theorem entering_induction {n : Nat} {P : List (Fin n) → Prop}
    (step : ∀ within, (∀ i, i ∉ within → P (i :: within)) → P within) (within : List (Fin n)) :
    P within :=
  step within fun i _ => entering_induction step (i :: within)
termination_by unseenFin within
decreasing_by exact unseenFin_cons_lt ‹_›

/-- With no level left, everything has been entered. -/
theorem contains_of_unseenFin_le_zero {n : Nat} {within : List (Fin n)}
    (h : unseenFin within ≤ 0) (i : Fin n) : within.contains i = true :=
  List.contains_iff_mem.mpr (mem_of_unseenFin_le_zero h i)

/-! ## Reading -/

namespace Parsing

section

variable {n : Nat} (read : RawValue n → Parsing n (Node n))

def itemsWith : List (RawValue n) → Parsing n (List (Node n))
  | [] => return []
  | raw :: rest => return (← read raw) :: (← itemsWith rest)

def membersWith : List (String × RawValue n) → Parsing n (List (String × Node n))
  | [] => return []
  | (k, raw) :: rest => return (k, ← read raw) :: (← membersWith rest)

def optionWith : Option (RawValue n) → Parsing n (Option (Node n))
  | none => return none
  | some raw => some <$> read raw

/-- The node of an object with the given layout, with its parts read by `read`. -/
def layoutWith (i : Fin n) : Layout n → Parsing n (Node n)
  | .composite kind branches => return .composite i kind (← itemsWith read branches)
  | .enumeration values type => return .enumeration i values type
  | .array none => return .array i none
  | .array (some items) => return .array i (some (← read items))
  | .object properties required additional otherAdditional => do
    let additional ← optionWith read additional
    let properties ← membersWith read properties
    let required ← (required : Parsing n (List String))
    return .object (.parsed i) properties required additional otherAdditional
  | .scalar type format => return .scalar (.parsed i) type format

end

variable (g : RawGraph)

/-- The node of a raw value, read at most `limit` objects deep. -/
def parseUpTo (limit : Nat) (within : List (Fin g.size)) :
    RawValue g.size → Parsing g.size (Node g.size)
  | .obj i => do
    match (← get).find? i with
    | some node => return node
    | none =>
      if within.contains i then return .ref (← nextSerial) i
      else
        match limit with
        | 0 => return .ref (← nextSerial) i
        | limit + 1 =>
          let node ← layoutWith (parseUpTo limit (i :: within)) i (Layout.ofObject g i)
          modify (·.store i node)
          return node
  | _ => return .scalar (.serial (← nextSerial)) .null .null

variable {g}

theorem parseItems_eq (within : List (Fin g.size)) :
    parseItems g within = itemsWith (parse g within) := by
  funext items
  induction items with
  | nil => rw [parseItems, itemsWith]
  | cons raw rest ih => rw [parseItems, itemsWith, ih]

theorem parseMembers_eq (within : List (Fin g.size)) :
    parseMembers g within = membersWith (parse g within) := by
  funext members
  induction members with
  | nil => rw [parseMembers, membersWith]
  | cons p rest ih => rw [parseMembers, membersWith, ih]

theorem parseLayout_eq (i : Fin g.size) (within : List (Fin g.size)) :
    parseLayout g i within = layoutWith (parse g within) i := by
  funext layout
  match layout with
  | .composite .. => rw [parseLayout, layoutWith, parseItems_eq]
  | .enumeration .. | .array none | .array (some _) | .scalar .. => rw [parseLayout, layoutWith]
  | .object _ _ none _ | .object _ _ (some _) _ =>
      rw [parseLayout, layoutWith, optionWith, parseMembers_eq]

/-- Reading an object that has no node and is not being read reads its parts inside it. -/
theorem parse_obj (within : List (Fin g.size)) (i : Fin g.size) :
    parse g within (.obj i) = do
      match (← get).find? i with
      | some node => return node
      | none =>
        if within.contains i then return .ref (← nextSerial) i
        else
          let node ← layoutWith (parse g (i :: within)) i (Layout.ofObject g i)
          modify (·.store i node)
          return node := by
  rw [parse, ← parseLayout_eq]
  simp only [List.contains_iff_mem]
  rfl

theorem parse_eq_upTo {limit : Nat} {within : List (Fin g.size)}
    (enough : unseenFin within ≤ limit) : parse g within = parseUpTo g limit within := by
  induction limit generalizing within with
  | zero =>
      funext raw
      cases raw with
      | obj i =>
          rw [parse_obj, parseUpTo]
          simp only [if_pos (contains_of_unseenFin_le_zero enough i)]
      | _ => rw [parse, parseUpTo] <;> simp
  | succ limit ih =>
      funext raw
      cases raw with
      | obj i =>
          rw [parse_obj, parseUpTo]
          by_cases hi : within.contains i
          · simp only [if_pos hi]
          · have := unseenFin_cons_lt (mt List.contains_iff_mem.mpr hi)
            have inside : parse g (i :: within) = parseUpTo g limit (i :: within) :=
              ih (by omega)
            simp only [if_neg hi, inside]
      | _ => rw [parse, parseUpTo] <;> simp

theorem run_eq_upTo (raw : RawValue g.size) (t : NodeTable g.size) :
    run g raw t = ExceptT.run (parseUpTo g g.size [] raw) t := by
  rw [run, parse_eq_upTo (unseenFin_nil_le g.size)]

end Parsing

end ResourceGraph
