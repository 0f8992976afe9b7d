/-!
Cutting a text at separators.
-/

namespace ResourceGraph.Text

/-- The pieces between separators; a text without one is a single piece. -/
def splitAt (sep : Char) : List Char → List (List Char)
  | [] => [[]]
  | c :: cs =>
    if c = sep then [] :: splitAt sep cs
    else
      match splitAt sep cs with
      | [] => [[c]]
      | piece :: pieces => (c :: piece) :: pieces

def pieces (sep : Char) (s : String) : List String := (splitAt sep s.toList).map String.ofList

/-- The text before the first separator, and the text after it if there is one. -/
def cutAt (sep : Char) (cs : List Char) : List Char × Option (List Char) :=
  match cs.dropWhile (· != sep) with
  | [] => (cs, none)
  | _ :: after => (cs.takeWhile (· != sep), some after)

end ResourceGraph.Text
