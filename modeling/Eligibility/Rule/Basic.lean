import Eligibility.Double.Shortest
import Eligibility.Rule.Kind
import Eligibility.Text.Quoted
import Eligibility.Text.Search

namespace Eligibility

inductive Literal where
  | number (x : Double)
  | text (s : String)
  | truth (b : Bool)
deriving DecidableEq

namespace Literal

/-- Numbers in a message about literals keep a point, and those below `1e-4` or from `1e16` on carry
an exponent. -/
def numberLayout : Double.Layout where
  plain := some (-4, 16)
  pointZero := true
  plusSign := false
  signedZero := true
  tie := .up

def shown : Literal → String
  | .number x => "Number(" ++ numberLayout.render x ++ ")"
  | .text s => "String(" ++ Text.quoted s ++ ")"
  | .truth b => "Boolean(" ++ (if b then "true" else "false") ++ ")"

def same : Literal → Literal → Bool
  | .number x, .number y => x.same y
  | .text s, .text t => s == t
  | .truth a, .truth b => a == b
  | _, _ => false

def number? : Literal → Option Double
  | .number x => some x
  | _ => none

end Literal

inductive Scalar where
  | number (x : Double)
  | result (name : String)
deriving DecidableEq

structure Term where
  coefficient : Scalar
  name : String
deriving DecidableEq

/-- The sum of the terms and the constants, in this order. -/
structure Affine where
  terms : List Term
  constants : List Scalar
deriving DecidableEq

inductive Operand where
  | literal (v : Literal)
  | var (name : String)
  | result (name : String)
  | affine (e : Affine)
deriving DecidableEq

inductive Operator where
  | atLeast
  | equal
  | atMost
deriving DecidableEq

namespace Operator

def all : List Operator := [.atLeast, .equal, .atMost]

def symbol : Operator → String
  | .atLeast => ">="
  | .equal => "=="
  | .atMost => "<="

def method : Operator → String
  | .atLeast => "is_gte"
  | .equal => "is_eq"
  | .atMost => "is_lte"

end Operator

/-- Selects the value of a task; it starts at the root `$`. -/
structure TaskPath where
  text : String
  rooted : text.toList.head? = some '$'
deriving DecidableEq

namespace TaskPath

def ofText? (s : String) : Option TaskPath :=
  if h : s.toList.head? = some '$' then some ⟨s, h⟩ else none

def refusal (s : String) : String := "task path must start with '$', got \"" ++ s ++ "\""

/-- The name bound to the fetched value: the segment after the last dot. -/
def binding (p : TaskPath) : String := String.ofList (Text.lastPiece '.' p.text.toList)

end TaskPath

/-- What a task is fetched from: the loan file, or the value an enclosing task has bound. -/
inductive TaskRoot where
  | loan
  | result (name : String)
deriving DecidableEq

def TaskRoot.name : TaskRoot → String
  | .loan => "Loan"
  | .result name => name

structure Comparison where
  lhs : String
  operator : Operator
  rhs : Operand
deriving DecidableEq

/-- The numerator over the denominator compares with the bound. -/
structure Ratio where
  numerator : String
  denominator : Operand
  operator : Operator
  bound : Double
deriving DecidableEq

inductive Rule where
  /-- Fetches a task; the inner rule is checked on the value, or on each element of it. -/
  | task (root : TaskRoot) (path : TaskPath) (each : Bool) (inner : Option Rule)
  | comparison (c : Comparison)
  | ratio (r : Ratio)
  | oneOf (options : List Rule)
  | allOf (preds : List Rule)
  | branch (cond : Comparison) (yes : Rule) (no : Option Rule)

inductive Node where
  | literal (v : Literal)
  | var (name : String)
  | result (name : String)
  | term (t : Term)
  | affine (e : Affine)
  | rule (r : Rule)

def Rule.kind : Rule → Kind
  | .task .. => .task
  | .comparison _ => .comparison
  | .ratio _ => .maintainRatio
  | .oneOf _ => .oneOf
  | .allOf _ => .allOf
  | .branch .. => .branch

def Operand.kind : Operand → Kind
  | .literal _ => .value
  | .var _ => .var
  | .result _ => .taskResult
  | .affine _ => .affineExpression

def Node.kind : Node → Kind
  | .literal _ => .value
  | .var _ => .var
  | .result _ => .taskResult
  | .term _ => .affineTerm
  | .affine _ => .affineExpression
  | .rule r => r.kind

def Scalar.toNode : Scalar → Node
  | .number x => .literal (.number x)
  | .result name => .result name

def Operand.toNode : Operand → Node
  | .literal v => .literal v
  | .var name => .var name
  | .result name => .result name
  | .affine e => .affine e

theorem Rule.kind_isRule (r : Rule) : r.kind.isRule = true := by
  cases r <;> rfl

end Eligibility
