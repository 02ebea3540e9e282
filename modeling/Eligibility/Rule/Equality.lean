import Eligibility.Rule.Basic

namespace Eligibility

def Scalar.same : Scalar → Scalar → Bool
  | .number x, .number y => x.same y
  | .result a, .result b => a == b
  | _, _ => false

def Term.same (s t : Term) : Bool := s.coefficient.same t.coefficient && s.name == t.name

def sameLists {α : Type} (same : α → α → Bool) : List α → List α → Bool
  | [], [] => true
  | a :: as, b :: bs => same a b && sameLists same as bs
  | _, _ => false

def Affine.same (e f : Affine) : Bool :=
  sameLists Term.same e.terms f.terms && sameLists Scalar.same e.constants f.constants

def Operand.same : Operand → Operand → Bool
  | .literal v, .literal w => v.same w
  | .var a, .var b => a == b
  | .result a, .result b => a == b
  | .affine e, .affine f => e.same f
  | _, _ => false

def Comparison.same (c d : Comparison) : Bool :=
  c.lhs == d.lhs && c.operator == d.operator && c.rhs.same d.rhs

def Ratio.same (r s : Ratio) : Bool :=
  r.numerator == s.numerator && r.denominator.same s.denominator && r.operator == s.operator &&
    r.bound.same s.bound

mutual
def Rule.same : Rule → Rule → Bool
  | .task root path each inner, .task root' path' each' inner' =>
    root == root' && path == path' && each == each' && sameOptional inner inner'
  | .comparison c, .comparison d => c.same d
  | .ratio r, .ratio s => r.same s
  | .oneOf as, .oneOf bs => sameAll as bs
  | .allOf as, .allOf bs => sameAll as bs
  | .branch c yes no, .branch d yes' no' => c.same d && yes.same yes' && sameOptional no no'
  | _, _ => false
def Rule.sameOptional : Option Rule → Option Rule → Bool
  | none, none => true
  | some a, some b => a.same b
  | _, _ => false
def Rule.sameAll : List Rule → List Rule → Bool
  | [], [] => true
  | a :: as, b :: bs => a.same b && sameAll as bs
  | _, _ => false
end

/-- Two trees of one shape whose numbers are equal as values, so that both zeros are one number and
a `nan` differs from itself. -/
def Node.same : Node → Node → Bool
  | .literal v, .literal w => v.same w
  | .var a, .var b => a == b
  | .result a, .result b => a == b
  | .term s, .term t => s.same t
  | .affine e, .affine f => e.same f
  | .rule r, .rule s => r.same s
  | _, _ => false

end Eligibility
