import ResourceGraph.Keyed
import ResourceGraph.Text.Case

/-!
The schema that describes the resource itself, among the schemas of a resource.
-/

namespace ResourceGraph

def variantSuffixes : List String := ["Create", "Update", "List"]

def isVariant (name : String) : Bool := variantSuffixes.any fun s => s.toList.isSuffixOf name.toList

/-- The schema under the capitalized singular, else the first one whose name is the singular but
for its case and that is no variant. -/
def mainSchema? {α : Type} (schemas : Keyed.Entries α) (singular : String) : Option α :=
  match Keyed.find? (Text.capitalize singular) schemas with
  | some schema => some schema
  | none =>
    (schemas.find? fun s => !isVariant s.1 && Text.lower s.1 == Text.lower singular).map (·.2)

end ResourceGraph
