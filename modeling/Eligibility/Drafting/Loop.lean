import Eligibility.Drafting.Generator
import Eligibility.Review.Validator
import Eligibility.Settings.Config

namespace Eligibility

/-- An accepted rule's program, and the attempt that brought it. -/
structure Compiled where
  source : String
  attempts : Nat
deriving DecidableEq

inductive RunFault where
  | exhausted (attempts : Nat) (failures : List Failure)
  | unacceptable (kind : Kind) (allowed : List Kind)
  | config (fault : ConfigFault)
  | generator (trouble : Trouble)
  | validator (trouble : Trouble)

namespace RunFault

def isExhausted : RunFault → Bool
  | .exhausted .. => true
  | _ => false

def message : RunFault → String
  | .exhausted attempts failures =>
    "no valid constraint within attempt budget (" ++ toString attempts ++ " attempts, " ++
      toString failures.length ++ " failures in last round)"
  | .unacceptable kind allowed =>
    "no acceptable candidate: generator returned " ++ kind.name ++ ", allowed [" ++
      ", ".intercalate (allowed.map Kind.name) ++ "]"
  | .config fault => "invalid orchestrator config: " ++ fault.message
  | .generator trouble => "generator failed: " ++ trouble.text
  | .validator trouble => "validator failed: " ++ trouble.text

end RunFault

def Carry.next (c : Carry) (prior latest : List Failure) : List Failure :=
  match c with
  | .replace => latest
  | .accumulate => prior ++ latest

namespace Run

variable {σ : Type}

/-- Attempt `n` and, after a rejection, up to `left` more. -/
def attempt (config : Config) (g : Generator σ) (v : Validator σ) (text : String) :
    Nat → Nat → List Failure → σ → Except RunFault Compiled × σ
  | left, n, prior, s =>
    match g.generate ⟨text, config.allowedKinds, prior⟩ s with
    | (.error t, s) => (.error (.generator t), s)
    | (.ok r, s) =>
      if config.allows r.kind then
        match v.validate text r s with
        | (.error t, s) => (.error (.validator t), s)
        | (.ok (.accepted source), s) => (.ok ⟨source, n⟩, s)
        | (.ok (.rejected latest), s) =>
          match left with
          | 0 => (.error (.exhausted n latest), s)
          | left + 1 => attempt config g v text left (n + 1) (config.carry.next prior latest) s
      else (.error (.unacceptable r.kind config.allowedKinds), s)

/-- A run on a guideline text. Nothing is asked if the config is not valid. -/
def compile (config : Config) (g : Generator σ) (v : Validator σ) (text : String) (s : σ) :
    Except RunFault Compiled × σ :=
  match config.validate with
  | .error fault => (.error (.config fault), s)
  | .ok () => attempt config g v text (config.maxAttempts - 1) 1 [] s

def titled (title body : String) : String := title ++ "\n\n" ++ body

def withClient (config : Config) (client : Client σ) (text : String) (s : σ) :
    Except RunFault Compiled × σ :=
  compile config (.ofClient client)
    (.full .bounds (.ofClient client) config.allowedKinds) text s

end Run

end Eligibility
