namespace Eligibility

/-- What went wrong in a collaborator: texts from the outermost context inwards. -/
structure Trouble where
  causes : List String
deriving DecidableEq

namespace Trouble

def of (s : String) : Trouble := ⟨[s]⟩

def text (t : Trouble) : String := ": ".intercalate t.causes

end Trouble

/-- Answers a system and a user prompt. The state is whatever the client keeps between calls. -/
structure Client (σ : Type) where
  ask : String → String → σ → Except Trouble String × σ

structure Call where
  system : String
  user : String
deriving DecidableEq

/-- The answers that are left, and the questions put so far. -/
structure Script where
  replies : List (Except Trouble String)
  calls : List Call

def Client.scripted : Client Script where
  ask system user s :=
    match s.replies with
    | [] => (.error (.of "no more replies"), ⟨[], s.calls ++ [⟨system, user⟩]⟩)
    | r :: rs => (r, ⟨rs, s.calls ++ [⟨system, user⟩]⟩)

end Eligibility
