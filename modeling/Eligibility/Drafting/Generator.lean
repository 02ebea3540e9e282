import Eligibility.Model.Client
import Eligibility.Model.Prompt
import Eligibility.Review.Failure
import Eligibility.Text.Fence

namespace Eligibility

/-- What a generator is told: the text, the kinds it may return, and what was wrong before. -/
structure Brief where
  text : String
  kinds : List Kind
  prior : List Failure

structure Generator (σ : Type) where
  generate : Brief → σ → Except Trouble Rule × σ

namespace Brief

def finding (f : Failure) : String :=
  "- " ++ f.display ++ "\n  node: " ++ f.node.serialize ++ "\n"

def question (b : Brief) : String :=
  "## Guideline text\n" ++ b.text ++ "\n\n## Allowed top-level kinds\n" ++
    ", ".intercalate (b.kinds.map Kind.name) ++ "\n" ++
    (if b.prior.isEmpty then ""
    else
      "\n## Your previous answer was rejected\n" ++ String.join (b.prior.map finding) ++
        "\nFix every problem above and answer again.\n")

end Brief

def Rule.ofReply (reply : String) : Except Trouble Rule :=
  let json := Text.extractJson reply
  match Rule.parse json with
  | .ok r => .ok r
  | .error (.unreadable f) =>
    .error (.of ("Failed to parse generated node: " ++ f.message ++ "\n\nJSON was:\n" ++ json))
  | .error (.notRule k) => .error (.of ("Generated node is a " ++ k.name ++ ", not a rule"))

def Generator.ofClient {σ : Type} (client : Client σ) : Generator σ where
  generate brief s :=
    match client.ask Prompt.draft brief.question s with
    | (.ok reply, s) => (Rule.ofReply reply, s)
    | (.error t, s) => (.error t, s)

end Eligibility
