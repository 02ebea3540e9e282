import Eligibility.Rule.Narrow

namespace Eligibility

abbrev Stack := List Node

inductive Step where
  | push (n : Node)
  /-- Passes a number literal. -/
  | number
  /-- Passes a coefficient or a constant. -/
  | scalar
  /-- Passes an operand. -/
  | operand
  /-- A coefficient and then a variable. -/
  | term
  /-- So many terms and then so many constants. -/
  | affine (terms constants : Nat)
  /-- A variable and then what it is compared with. -/
  | compare (o : Operator)
  /-- A numerator, a denominator and a bound. -/
  | ratio (o : Operator)
  /-- A task of the loan file. -/
  | task (path : String)
  /-- A task of a bound value. -/
  | taskOn (path : String)
  /-- A task and then its inner rule. -/
  | inner
  /-- Makes a task check each element. -/
  | each
  | allOf (n : Nat)
  | oneOf (n : Nat)
  /-- A condition and then a rule. -/
  | branch
  /-- A condition and then two rules. -/
  | branchElse
  | dup
  | swap
  | drop

inductive StepFault where
  | empty
  | mismatch (m : Mismatch)
  | notTask (k : Kind)
  | badPath (s : String)

namespace Stack

def pop {α : Type} (narrow : Node → Except Mismatch α) : Stack → Except StepFault (α × Stack)
  | [] => .error .empty
  | n :: s =>
    match narrow n with
    | .ok a => .ok (a, s)
    | .error m => .error (.mismatch m)

def popMany (k : Nat) (s : Stack) : Except StepFault (List Node × Stack) :=
  if k ≤ s.length then .ok ((s.take k).reverse, s.drop k) else .error .empty

def narrowAll {α : Type} (narrow : Node → Except Mismatch α) (ns : List Node) :
    Except StepFault (List α) :=
  (ns.mapM narrow).mapError .mismatch

def onTask (f : TaskRoot → TaskPath → Bool → Option Rule → Rule) : Stack → Except StepFault Stack
  | [] => .error .empty
  | .rule (.task root path each inner) :: s => .ok (.rule (f root path each inner) :: s)
  | .rule r :: _ => .error (.notTask r.kind)
  | n :: _ => .error (.mismatch (.notRule n.kind))

def pathOf (s : String) : Except StepFault TaskPath :=
  match TaskPath.ofText? s with
  | some p => .ok p
  | none => .error (.badPath s)

end Stack

open Stack in
/-- A step takes its parts from the stack and leaves what it has made. A part is judged as soon as
it is taken, and a step that fails makes nothing. -/
def Step.run : Step → Stack → Except StepFault Stack
  | .push n, s => .ok (n :: s)
  | .number, s => do
    let (x, s) ← s.pop Node.asNumber
    return .literal (.number x) :: s
  | .scalar, s => do
    let (a, s) ← s.pop Node.asScalar
    return a.toNode :: s
  | .operand, s => do
    let (a, s) ← s.pop Node.asOperand
    return a.toNode :: s
  | .term, s => do
    let (name, s) ← s.pop Node.asVar
    let (a, s) ← s.pop Node.asScalar
    return .term ⟨a, name⟩ :: s
  | .affine terms constants, s => do
    let (cs, s) ← s.popMany constants
    let (ts, s) ← s.popMany terms
    let ts ← narrowAll Node.asTerm ts
    let cs ← narrowAll Node.asScalar cs
    return .affine ⟨ts, cs⟩ :: s
  | .compare o, s => do
    let (rhs, s) ← s.pop Node.asOperand
    let (lhs, s) ← s.pop Node.asVar
    return .rule (.comparison ⟨lhs, o, rhs⟩) :: s
  | .ratio o, s => do
    let (bound, s) ← s.pop Node.asNumber
    let (denominator, s) ← s.pop Node.asOperand
    let (numerator, s) ← s.pop Node.asVar
    return .rule (.ratio ⟨numerator, denominator, o, bound⟩) :: s
  | .task path, s => do
    let p ← pathOf path
    return .rule (.task .loan p false none) :: s
  | .taskOn path, s => do
    let (name, s) ← s.pop Node.asResult
    let p ← pathOf path
    return .rule (.task (.result name) p false none) :: s
  | .inner, s => do
    let (r, s) ← s.pop Node.asRule
    s.onTask fun root path each _ => .task root path each (some r)
  | .each, s => s.onTask fun root path _ inner => .task root path true inner
  | .allOf n, s => do
    let (ns, s) ← s.popMany n
    let rs ← narrowAll Node.asRule ns
    return .rule (.allOf rs) :: s
  | .oneOf n, s => do
    let (ns, s) ← s.popMany n
    let rs ← narrowAll Node.asRule ns
    return .rule (.oneOf rs) :: s
  | .branch, s => do
    let (yes, s) ← s.pop Node.asRule
    let (cond, s) ← s.pop Node.asComparison
    return .rule (.branch cond yes none) :: s
  | .branchElse, s => do
    let (no, s) ← s.pop Node.asRule
    let (yes, s) ← s.pop Node.asRule
    let (cond, s) ← s.pop Node.asComparison
    return .rule (.branch cond yes (some no)) :: s
  | .dup, n :: s => .ok (n :: n :: s)
  | .swap, m :: n :: s => .ok (n :: m :: s)
  | .drop, _ :: s => .ok s
  | _, _ => .error .empty

end Eligibility
