import Eligibility.Text.Blank
import Eligibility.Text.Search

namespace Eligibility.Source

inductive Problem where
  /-- A closing parenthesis without an open one, at this byte. -/
  | unmatched (offset : Nat)
  | unterminated
  | unclosed (count : Nat)
  | notCompact
deriving DecidableEq

def Problem.message : Problem → String
  | .unmatched offset => "unmatched ')' at offset " ++ toString offset
  | .unterminated => "unterminated string literal"
  | .unclosed count => toString count ++ " unclosed '('"
  | .notCompact => "output must be a single compact line"

structure Scan where
  /-- Bytes at which a parenthesis closed that none had opened. -/
  unmatched : List Nat
  depth : Nat
  inString : Bool
  stray : Bool
deriving DecidableEq

def Scan.found (s : Scan) (offset : Nat) : Scan := { s with unmatched := offset :: s.unmatched }

/-- Reads the text from a byte on. A quote opens or closes a string; parentheses and blanks count
outside strings; a parenthesis that closes none is noted and does not count. -/
def scan (offset depth : Nat) (inString stray : Bool) : List Char → Scan
  | [] => ⟨[], depth, inString, stray⟩
  | c :: cs =>
    let next := offset + c.utf8Size
    if c = '"' then scan next depth (!inString) stray cs
    else if inString then scan next depth true stray cs
    else if Text.isBlank c then scan next depth false true cs
    else if c = '(' then scan next (depth + 1) false stray cs
    else if c = ')' then
      match depth with
      | 0 => (scan next 0 false stray cs).found offset
      | depth + 1 => scan next depth false stray cs
    else scan next depth false stray cs

def problems (source : String) : List Problem :=
  let s := scan 0 0 false false source.toList
  s.unmatched.map .unmatched ++ (if s.inString then [.unterminated] else []) ++
    (if 0 < s.depth then [.unclosed s.depth] else []) ++ (if s.stray then [.notCompact] else [])

def lint (source : String) : List String := (problems source).map Problem.message

def combinators : List String := ["dsl.allOf(", "dsl.oneOf(", "dsl.if_(", "fetchTask("]

def predicates : List String := [".is_gte(", ".is_eq(", ".is_lte(", ".maintain_ratio("]

def firstCall (cs : List Char) : Option (List Char) :=
  (Text.cut? ['('] cs).map fun (before, _) => before ++ ['(']

/-- The text starts with a combinator, or with a variable whose first call is a predicate. -/
def isBoolean (source : String) : Bool :=
  let cs := source.toList
  combinators.any (fun w => w.toList.isPrefixOf cs) ||
    ("vars.".toList.isPrefixOf cs &&
      match firstCall cs with
      | some call => predicates.any fun w => w.toList.isSuffixOf call
      | none => false)

end Eligibility.Source
