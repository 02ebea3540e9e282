import Eligibility.Json.Fault
import Eligibility.Rule.Narrow

namespace Eligibility

inductive Field where
  | name
  | coefficient
  | coefficientOf
  | terms
  | constants
  | root
  | path
  | each
  | inner
  | lhs
  | operator
  | rhs
  | numerator
  | denominator
  | bound
  | options
  | preds
  | cond
  | yes
  | no
deriving DecidableEq

namespace Field

def key : Field → String
  | .name => "name"
  | .coefficient => "coefficient"
  | .coefficientOf => "variable"
  | .terms => "affineTerms"
  | .constants => "constantTerms"
  | .root => "root"
  | .path => "path"
  | .each => "array"
  | .inner => "inner"
  | .lhs => "lhs"
  | .operator => "operator"
  | .rhs => "rhs"
  | .numerator => "numerator"
  | .denominator => "denominator"
  | .bound => "ratio"
  | .options => "options"
  | .preds => "preds"
  | .cond => "cond"
  | .yes => "then"
  | .no => "else"

def isOptional : Field → Bool
  | .each | .inner | .no => true
  | _ => false

end Field

/-- The fields of a kind, in order. The two fields of a literal depend on each other and are read
together, so they are not listed. -/
def Kind.fields : Kind → List Field
  | .value => []
  | .var => [.name]
  | .taskResult => [.name]
  | .affineTerm => [.coefficient, .coefficientOf]
  | .affineExpression => [.terms, .constants]
  | .task => [.root, .path, .each, .inner]
  | .comparison => [.lhs, .operator, .rhs]
  | .maintainRatio => [.numerator, .denominator, .operator, .bound]
  | .oneOf => [.options]
  | .allOf => [.preds]
  | .branch => [.cond, .yes, .no]

def Kind.field? (k : Kind) (key : String) : Option Field := k.fields.find? fun f => f.key == key

structure Filled where
  name : Option String := none
  coefficient : Option Scalar := none
  coefficientOf : Option String := none
  terms : Option (List Term) := none
  constants : Option (List Scalar) := none
  root : Option TaskRoot := none
  path : Option TaskPath := none
  each : Option Bool := none
  inner : Option (Option Rule) := none
  lhs : Option String := none
  operator : Option Operator := none
  rhs : Option Operand := none
  numerator : Option String := none
  denominator : Option Operand := none
  bound : Option Double := none
  options : Option (List Rule) := none
  preds : Option (List Rule) := none
  cond : Option Comparison := none
  yes : Option Rule := none
  no : Option (Option Rule) := none

def Filled.has (s : Filled) : Field → Bool
  | .name => s.name.isSome
  | .coefficient => s.coefficient.isSome
  | .coefficientOf => s.coefficientOf.isSome
  | .terms => s.terms.isSome
  | .constants => s.constants.isSome
  | .root => s.root.isSome
  | .path => s.path.isSome
  | .each => s.each.isSome
  | .inner => s.inner.isSome
  | .lhs => s.lhs.isSome
  | .operator => s.operator.isSome
  | .rhs => s.rhs.isSome
  | .numerator => s.numerator.isSome
  | .denominator => s.denominator.isSome
  | .bound => s.bound.isSome
  | .options => s.options.isSome
  | .preds => s.preds.isSome
  | .cond => s.cond.isSome
  | .yes => s.yes.isSome
  | .no => s.no.isSome

inductive ReadFault where
  | json (f : Json.Fault)
  | mismatch (m : Mismatch)
  | taskPath (text : String)
  | rootName (name : String)
  | rootKind (kind : String)

def ReadFault.message : ReadFault → String
  | .json f => f.message
  | .mismatch m => m.message
  | .taskPath text => TaskPath.refusal text
  | .rootName name => "task root '" ++ name ++ "' must be Loan or a TaskResult"
  | .rootKind kind => "task root cannot be a " ++ kind

def require {α : Type} (f : Field) : Option α → Except ReadFault α
  | some a => .ok a
  | none => .error (.json (.missing f.key))

/-- The node of a kind with these fields; the first required field that is absent is reported. -/
def Filled.build (s : Filled) : Kind → Except ReadFault Node
  | .value => .error (.json (.missing "type"))
  | .var => do
    let name ← require .name s.name
    return .var name
  | .taskResult => do
    let name ← require .name s.name
    return .result name
  | .affineTerm => do
    let coefficient ← require .coefficient s.coefficient
    let name ← require .coefficientOf s.coefficientOf
    return .term ⟨coefficient, name⟩
  | .affineExpression => do
    let terms ← require .terms s.terms
    let constants ← require .constants s.constants
    return .affine ⟨terms, constants⟩
  | .task => do
    let root ← require .root s.root
    let path ← require .path s.path
    return .rule (.task root path (s.each.getD false) s.inner.join)
  | .comparison => do
    let lhs ← require .lhs s.lhs
    let operator ← require .operator s.operator
    let rhs ← require .rhs s.rhs
    return .rule (.comparison ⟨lhs, operator, rhs⟩)
  | .maintainRatio => do
    let numerator ← require .numerator s.numerator
    let denominator ← require .denominator s.denominator
    let operator ← require .operator s.operator
    let bound ← require .bound s.bound
    return .rule (.ratio ⟨numerator, denominator, operator, bound⟩)
  | .oneOf => do
    let options ← require .options s.options
    return .rule (.oneOf options)
  | .allOf => do
    let preds ← require .preds s.preds
    return .rule (.allOf preds)
  | .branch => do
    let cond ← require .cond s.cond
    let yes ← require .yes s.yes
    return .rule (.branch cond yes s.no.join)

end Eligibility
