import Eligibility.Json.Expect
import Eligibility.Model.Client
import Eligibility.Model.Prompt
import Eligibility.Text.Fence

namespace Eligibility

inductive Verdict where
  | agree
  | disagree (reason : String)
deriving DecidableEq

/-- Judges a guideline text and a program. -/
structure Oracle (σ : Type) where
  judge : String → String → σ → Except Trouble Verdict × σ

def Oracle.assenting {σ : Type} : Oracle σ where
  judge _ _ s := (.ok .agree, s)

structure Reply where
  agree : Bool
  reason : String
deriving DecidableEq

namespace Reply

open Json (Draft Fault)

def build (agree : Option Bool) (reason : Option String) : Except Fault Reply :=
  match agree with
  | some a => .ok ⟨a, reason.getD ""⟩
  | none => .error (.missing "agree")

def ofMembers (closed : Bool) (agree : Option Bool) (reason : Option String) :
    List (List Json.Letter × Draft) → Except Fault Reply
  | [] => if closed then build agree reason else .error .grammar
  | (letters, d) :: ms => do
    let key ← Draft.spelled letters
    match key with
    | "agree" =>
      if agree.isSome then .error (.duplicate key)
      else do
        let a ← d.asBool
        ofMembers closed (some a) reason ms
    | "reason" =>
      if reason.isSome then .error (.duplicate key)
      else do
        let a ← d.asText
        ofMembers closed agree (some a) ms
    | _ => do
      d.pass
      ofMembers closed agree reason ms

def ofItems (closed : Bool) : List Draft → Except Fault Reply
  | [] =>
    .error (if closed then .wrongLength 0 "struct OracleReply with 2 elements" else .grammar)
  | [a] => do
    let agree ← a.asBool
    if closed then return ⟨agree, ""⟩ else .error .grammar
  | a :: r :: rest => do
    let agree ← a.asBool
    let reason ← r.asText
    if rest.isEmpty && closed then return ⟨agree, reason⟩ else .error .grammar

/-- Read member by member; the first fault wins, also over a later break in the text. -/
def ofDraft : Draft → Except Fault Reply
  | .object members closed => ofMembers closed none none members
  | .array items closed => ofItems closed items
  | d => d.refuse "struct OracleReply"

def parse (text : String) : Except Fault Reply := do
  let (draft, rest) := Draft.read text.toList
  let r ← ofDraft draft
  if (Draft.skipSpace rest).isEmpty then return r else .error .grammar

def verdict (r : Reply) : Verdict :=
  if r.agree then .agree
  else if (Text.trim r.reason.toList).isEmpty then
    .disagree "compiled rule does not match the guideline text"
  else .disagree r.reason

end Reply

namespace Verdict

def ofReply (reply : String) : Except Trouble Verdict :=
  let json := Text.extractJson reply
  match Reply.parse json with
  | .ok r => .ok r.verdict
  | .error f =>
    .error (.of ("Failed to parse oracle reply: " ++ f.message ++ "\n\nJSON was:\n" ++ json))

end Verdict

def Oracle.question (text compiled : String) : String :=
  "## Guideline text\n" ++ text ++ "\n\n## Compiled rule\n```\n" ++ compiled ++ "\n```"

def Oracle.ofClient {σ : Type} (client : Client σ) : Oracle σ where
  judge text compiled s :=
    match client.ask Prompt.judge (question text compiled) s with
    | (.ok reply, s) => (Verdict.ofReply reply, s)
    | (.error t, s) => (.error t, s)

end Eligibility
