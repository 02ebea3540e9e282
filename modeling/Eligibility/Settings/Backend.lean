import Eligibility.Model.Client
import Eligibility.Settings.Config

namespace Eligibility

inductive Backend where
  | anthropic
  | openai
deriving DecidableEq

namespace Backend

def name : Backend → String
  | .anthropic => "Anthropic"
  | .openai => "OpenAI"

def keyVariable : Backend → String
  | .anthropic => "ANTHROPIC_API_KEY"
  | .openai => "OPENAI_API_KEY"

def modelVariable : Backend → String
  | .anthropic => "ANTHROPIC_MODEL"
  | .openai => "OPENAI_MODEL"

def defaultModel : Backend → String
  | .anthropic => "claude-sonnet-4-20250514"
  | .openai => "gpt-4o"

def default : Backend := .anthropic

def unknownMessage (s : String) : String :=
  "Unknown GUIDELINE_BACKEND '" ++ s ++ "'. Valid values: anthropic, claude, openai, gpt"

/-- A backend by name, blanks around it and capitals aside; else the name as it was understood. -/
def ofText (s : String) : Except String Backend :=
  match String.ofList (Text.lower (Text.trim s.toList)) with
  | "anthropic" => .ok .anthropic
  | "claude" => .ok .anthropic
  | "openai" => .ok .openai
  | "gpt" => .ok .openai
  | other => .error other

def ofEnvironment (env : Environment) : Except String Backend :=
  match env.lookup "GUIDELINE_BACKEND" with
  | some value => ofText value
  | none => .ok default

end Backend

structure Access where
  key : String
  /-- The backend's own default when absent. -/
  model : Option String
  /-- Seconds to wait for an answer. -/
  timeout : Nat
deriving DecidableEq

namespace Access

def timeoutVariable : String := "GUIDELINE_LLM_TIMEOUT_SECS"

def timeoutIn (env : Environment) : Except Trouble Nat :=
  match env.lookup timeoutVariable with
  | none => .ok 120
  | some raw =>
    match Text.word raw with
    | .ok n => .ok n
    | .error f => .error (.of (timeoutVariable ++ " '" ++ raw ++ "': " ++ f.message))

def ofEnvironment (b : Backend) (env : Environment) : Except Trouble Access :=
  match env.lookup b.keyVariable with
  | none => .error (.of (b.keyVariable ++ " environment variable not set"))
  | some key => do
    let timeout ← timeoutIn env
    return ⟨key, env.lookup b.modelVariable, timeout⟩

end Access

structure Host where
  backend : Backend
  model : String
deriving DecidableEq

namespace Host

def ofAccess (b : Backend) (a : Access) : Host := ⟨b, a.model.getD b.defaultModel⟩

def ofEnvironment (env : Environment) : Except Trouble Host :=
  match Backend.ofEnvironment env with
  | .error s => .error (.of (Backend.unknownMessage s))
  | .ok b => (Access.ofEnvironment b env).map (ofAccess b)

end Host

end Eligibility
