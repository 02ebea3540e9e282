import Mathlib
import Eligibility.Proofs.Gathering

namespace Eligibility

open Json (valuesOf)

section Gives

variable {α : Type} {key : String} {R R' : Json → α → Prop} {ms : List (String × Json)}

end Gives

section Describes

variable {ms : List (String × Json)}

/-- A document that describes a node has one tag, the name of its kind. -/
theorem Describes.typename {n : Node} (h : Describes (.object ms) n) :
    valuesOf "typename" ms = [.string n.kind.name] := by
  cases h <;> assumption

end Describes

end Eligibility
