import Mathlib
import Eligibility.Proofs.Walk

namespace Eligibility

def Scalar.numbers : Scalar → List Double
  | .number x => [x]
  | .result _ => []

def Term.numbers (t : Term) : List Double := t.coefficient.numbers

def Affine.numbers (e : Affine) : List Double :=
  e.terms.flatMap Term.numbers ++ e.constants.flatMap Scalar.numbers

def Literal.numbers : Literal → List Double
  | .number x => [x]
  | .text _ => []
  | .truth _ => []

def Operand.numbers : Operand → List Double
  | .literal v => v.numbers
  | .var _ => []
  | .result _ => []
  | .affine e => e.numbers

def Comparison.numbers (c : Comparison) : List Double := c.rhs.numbers

def Ratio.numbers (q : Ratio) : List Double := q.denominator.numbers ++ [q.bound]

namespace Rule

mutual
def numbers : Rule → List Double
  | .task _ _ _ inner => numbersOptional inner
  | .comparison c => c.numbers
  | .ratio q => q.numbers
  | .oneOf options => numbersAll options
  | .allOf preds => numbersAll preds
  | .branch cond yes no => cond.numbers ++ numbers yes ++ numbersOptional no
def numbersOptional : Option Rule → List Double
  | none => []
  | some r => numbers r
def numbersAll : List Rule → List Double
  | [] => []
  | r :: rs => numbers r ++ numbersAll rs
end

theorem numbersAll_eq (rs : List Rule) : numbersAll rs = rs.flatMap numbers := by
  induction rs with
  | nil => rfl
  | cons r rs ih => rw [numbersAll, ih, List.flatMap_cons]

/-- The numbers of a rule inside another one are numbers of that one. -/
theorem mem_numbers_of_child {r c : Rule} {label : String} {x : Double}
    (hc : (label, c) ∈ r.children) (hx : x ∈ c.numbers) : x ∈ r.numbers := by
  cases isChild_of_mem hc with
  | inner => exact hx
  | option h =>
    rw [numbers, numbersAll_eq]
    exact List.mem_flatMap_of_mem (mem_of_mem_labelled h) hx
  | pred h =>
    rw [numbers, numbersAll_eq]
    exact List.mem_flatMap_of_mem (mem_of_mem_labelled h) hx
  | yes =>
    rw [numbers]
    exact List.mem_append_left _ (List.mem_append_right _ hx)
  | no =>
    rw [numbers]
    exact List.mem_append_right _ hx

/-- The numbers of a rule are numbers of every rule that it stands in. -/
theorem Inside.numbers {s r : Rule} (h : s.Inside r) {x : Double} (hx : x ∈ s.numbers) :
    x ∈ r.numbers := by
  induction h using Inside.children_induction with
  | self => exact hx
  | child hc _ ih => exact mem_numbers_of_child hc ih

end Rule

def Node.numbers : Node → List Double
  | .literal v => v.numbers
  | .var _ => []
  | .result _ => []
  | .term t => t.numbers
  | .affine e => e.numbers
  | .rule r => r.numbers

end Eligibility
