import Eligibility.Rule.Kind
import Eligibility.Settings.Environment
import Eligibility.Text.Blank
import Eligibility.Text.Lowercase
import Eligibility.Text.Whole

namespace Eligibility

/-- Which earlier failures the next attempt is told of. -/
inductive Carry where
  /-- Those of the latest attempt. -/
  | replace
  /-- All of the run. -/
  | accumulate
deriving DecidableEq

namespace Carry

def name : Carry → String
  | .replace => "replace"
  | .accumulate => "accumulate"

def names : List (String × Carry) := [("replace", .replace), ("accumulate", .accumulate)]

end Carry

structure Config where
  maxAttempts : Nat
  allowedKinds : List Kind
  carry : Carry
deriving DecidableEq

inductive FileFault where
  | missing
  | directory
  | notDirectory
  | notText
  /-- Standard input is a terminal. -/
  | terminal
  | other (message : String)
deriving DecidableEq

def FileFault.message : FileFault → String
  | .missing => "No such file or directory (os error 2)"
  | .directory => "Is a directory (os error 21)"
  | .notDirectory => "Not a directory (os error 20)"
  | .notText => "stream did not contain valid UTF-8"
  | .terminal => "no input provided; use --file or pipe input via stdin"
  | .other message => message

inductive ConfigFault where
  | file (path : String) (fault : FileFault)
  | yaml
  | badVariable (name value : String)
  | zeroAttempts
  | noAllowedKinds
  | notRule (k : Kind)
deriving DecidableEq

def ConfigFault.message : ConfigFault → String
  | .file path fault => "failed to read config file " ++ path ++ ": " ++ fault.message
  | .yaml => "invalid config YAML"
  | .badVariable name value => "invalid value for " ++ name ++ ": '" ++ value ++ "'"
  | .zeroAttempts => "max_attempts must be at least 1"
  | .noAllowedKinds => "allowed_kinds must not be empty"
  | .notRule k => k.name ++ " is not a constraint kind and cannot be a top-level candidate"

namespace Config

/-- Ratios are left out: they stand only inside a task. -/
def defaultKinds : List Kind := [.allOf, .branch, .comparison, .oneOf, .task]

def default : Config := ⟨3, defaultKinds, .replace⟩

def allows (c : Config) (k : Kind) : Bool := c.allowedKinds.contains k

def validate (c : Config) : Except ConfigFault Unit :=
  if c.maxAttempts = 0 then .error .zeroAttempts
  else if c.allowedKinds.isEmpty then .error .noAllowedKinds
  else match c.allowedKinds.find? fun k => !k.isRule with
    | some k => .error (.notRule k)
    | none => .ok ()

def validated (c : Config) : Except ConfigFault Config := do
  c.validate
  return c

def attemptsVariable : String := "GUIDELINE_MAX_ATTEMPTS"

def carryVariable : String := "GUIDELINE_FAILURE_CARRY"

def attemptsIn (env : Environment) : Except ConfigFault Nat :=
  match env.lookup attemptsVariable with
  | none => .ok default.maxAttempts
  | some value =>
    match Text.word (String.ofList (Text.trim value.toList)) with
    | .ok n => .ok n
    | .error _ => .error (.badVariable attemptsVariable value)

def carryIn (env : Environment) : Except ConfigFault Carry :=
  match env.lookup carryVariable with
  | none => .ok default.carry
  | some value =>
    match Carry.names.lookup (String.ofList (Text.lower (Text.trim value.toList))) with
    | some c => .ok c
    | none => .error (.badVariable carryVariable value)

def ofEnvironment (env : Environment) : Except ConfigFault Config := do
  let attempts ← attemptsIn env
  let carry ← carryIn env
  validated { default with maxAttempts := attempts, carry := carry }

end Config

end Eligibility
