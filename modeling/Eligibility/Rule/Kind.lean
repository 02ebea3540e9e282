namespace Eligibility

/-- Five kinds of operands, then six kinds of rules. -/
inductive Kind where
  | value
  | var
  | taskResult
  | affineTerm
  | affineExpression
  | task
  | comparison
  | maintainRatio
  | oneOf
  | allOf
  | branch
deriving DecidableEq

namespace Kind

def all : List Kind :=
  [.value, .var, .taskResult, .affineTerm, .affineExpression, .task, .comparison, .maintainRatio,
    .oneOf, .allOf, .branch]

def name : Kind → String
  | .value => "Value"
  | .var => "Variable"
  | .taskResult => "TaskResult"
  | .affineTerm => "AffineTerm"
  | .affineExpression => "AffineExpression"
  | .task => "TaskConstraint"
  | .comparison => "ComparisonConstraint"
  | .maintainRatio => "MaintainRatioConstraint"
  | .oneOf => "OneOf"
  | .allOf => "AllOf"
  | .branch => "If"

def isRule : Kind → Bool
  | .task | .comparison | .maintainRatio | .oneOf | .allOf | .branch => true
  | .value | .var | .taskResult | .affineTerm | .affineExpression => false

def ofName? (s : String) : Option Kind := all.find? fun k => k.name == s

def rank (k : Kind) : Nat := all.idxOf k

def unknownMessage (s : String) : String := "unknown node kind '" ++ s ++ "'"

theorem mem_all (k : Kind) : k ∈ all := by
  cases k <;> simp [all]

end Kind

end Eligibility
