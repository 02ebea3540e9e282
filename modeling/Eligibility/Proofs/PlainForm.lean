import Mathlib
import Eligibility.Proofs.Embedding
import Eligibility.Proofs.SettledDocument
import Eligibility.Proofs.TopLevel

namespace Eligibility

namespace Json

/-- What a text may spell without there being a value for it. -/
inductive Leaf where
  | number (m : Numeral)
  | text (letters : List Letter)

namespace Draft

mutual
/-- The numerals and strings of a draft, keys included. -/
def leaves : Draft → List Leaf
  | .number m => [.number m]
  | .string letters => [.text letters]
  | .array items _ => leavesItems items
  | .object members _ => leavesMembers members
  | _ => []
def leavesItems : List Draft → List Leaf
  | [] => []
  | d :: ds => leaves d ++ leavesItems ds
def leavesMembers : List (List Letter × Draft) → List Leaf
  | [] => []
  | (key, d) :: ms => .text key :: (leaves d ++ leavesMembers ms)
end

end Draft

end Json

/-- A document that describes a node has the name of its kind for a tag. -/
theorem Describes.tag? {j : Json} {n : Node} (h : Describes j n) :
    j.tag? = some (.string n.kind.name) := by
  have hobject : ∃ ms, j = .object ms := by cases h <;> exact ⟨_, rfl⟩
  obtain ⟨ms, rfl⟩ := hobject
  rw [Json.tag?, Json.lookup_eq_head?, h.typename, List.head?_cons]

namespace Node

open Json (Draft Readable isPlain letters)

end Node

end Eligibility
