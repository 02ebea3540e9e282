import Eligibility.Review.Bounds
import Eligibility.Review.Lint
import Eligibility.Review.Oracle
import Eligibility.Review.SourceLint
import Eligibility.Rule.Source

namespace Eligibility

inductive Outcome where
  /-- Every check passed; carries the program. -/
  | accepted (source : String)
  | rejected (failures : List Failure)

structure Validator (σ : Type) where
  validate : String → Rule → σ → Except Trouble Outcome × σ

structure Solver where
  check : Rule → Except Trouble (List Failure)

namespace Solver

def unconstrained : Solver := ⟨fun _ => .ok []⟩

def bounds : Solver := ⟨fun r => .ok r.conflicts⟩

end Solver

namespace Review

def overall (r : Rule) (code : FailureCode) (message : String) : Failure :=
  ⟨code, .root, .rule r, message⟩

def wellFormed (r : Rule) : List Failure :=
  r.lint ++ (Source.lint r.source).map (overall r .malformedOutput)

def allowed (kinds : List Kind) (r : Rule) : List Failure :=
  if kinds.contains r.kind then []
  else [overall r .disallowedKind (r.kind.name ++ " is not allowed at the top level")]

def boolean (r : Rule) : List Failure :=
  if Source.isBoolean r.source then []
  else [overall r .notBooleanProducing
    ("compiled source does not yield a boolean: " ++ r.source)]

def ofVerdict (r : Rule) : Verdict → List Failure
  | .agree => []
  | .disagree reason => [overall r .semanticDisagreement reason]

def outcome (r : Rule) : List Failure → Outcome
  | [] => .accepted r.source
  | failures => .rejected failures

end Review

/-- Lint, allowed kinds, solver and oracle. The oracle is asked after the solver has answered. -/
def Validator.full {σ : Type} (solver : Solver) (oracle : Oracle σ) (kinds : List Kind) :
    Validator σ where
  validate text r s :=
    match solver.check r with
    | .error t => (.error t, s)
    | .ok conflicts =>
      match oracle.judge text r.source s with
      | (.error t, s) => (.error t, s)
      | (.ok verdict, s) =>
        (.ok (Review.outcome r (Review.wellFormed r ++ Review.allowed kinds r ++
          Review.boolean r ++ conflicts ++ Review.ofVerdict r verdict)), s)

end Eligibility
