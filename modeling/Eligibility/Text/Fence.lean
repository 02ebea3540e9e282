import Eligibility.Text.Blank
import Eligibility.Text.Search

namespace Eligibility.Text

def fence : List Char := "```".toList

def jsonFence : List Char := "```json".toList

/-- What stands between the first two fences marked as JSON, up to the first fence in it, else what
stands between the first two fences, else all of it. -/
def fencedBody (cs : List Char) : List Char :=
  match cut? jsonFence cs with
  -- The next mark is looked for first, and takes only the last three backticks of a longer run.
  | some (_, after) => upTo fence (upTo jsonFence after)
  | none =>
    match cut? fence cs with
    | some (_, after) => upTo fence after
    | none => cs

def extractJson (s : String) : String := String.ofList (trim (fencedBody (trim s.toList)))

end Eligibility.Text
