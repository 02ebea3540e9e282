import Eligibility.Rule.Basic

namespace Eligibility

inductive Mismatch where
  | kind (expected found : Kind)
  | notNumeric (found : Kind)
  | notNumber (found : Literal)
  | notRule (found : Kind)

def Mismatch.message : Mismatch → String
  | .kind expected found => "expected " ++ expected.name ++ ", got " ++ found.name
  | .notNumeric found => "expected a numeric Value, got " ++ found.name
  | .notNumber found => "expected a numeric Value, got " ++ found.shown
  | .notRule found => "Expected a rule, got a " ++ found.name ++ " operand"

namespace Node

def asVar : Node → Except Mismatch String
  | .var name => .ok name
  | n => .error (.kind .var n.kind)

def asResult : Node → Except Mismatch String
  | .result name => .ok name
  | n => .error (.kind .taskResult n.kind)

def asTerm : Node → Except Mismatch Term
  | .term t => .ok t
  | n => .error (.kind .affineTerm n.kind)

def asComparison : Node → Except Mismatch Comparison
  | .rule (.comparison c) => .ok c
  | n => .error (.kind .comparison n.kind)

def asNumber : Node → Except Mismatch Double
  | .literal (.number x) => .ok x
  | .literal v => .error (.notNumber v)
  | n => .error (.notNumeric n.kind)

def asScalar : Node → Except Mismatch Scalar
  | .result name => .ok (.result name)
  | n => n.asNumber.map .number

def asOperand : Node → Except Mismatch Operand
  | .literal v => .ok (.literal v)
  | .var name => .ok (.var name)
  | .result name => .ok (.result name)
  | .affine e => .ok (.affine e)
  | n => .error (.kind .affineExpression n.kind)

def asRule : Node → Except Mismatch Rule
  | .rule r => .ok r
  | n => .error (.notRule n.kind)

@[simp] theorem asOperand_toNode (o : Operand) : o.toNode.asOperand = .ok o := by
  cases o <;> rfl

@[simp] theorem asScalar_toNode (s : Scalar) : s.toNode.asScalar = .ok s := by
  cases s <;> rfl

end Node

end Eligibility
