import Eligibility.Rule.Parse
import Eligibility.Rule.Walk

namespace Eligibility

inductive FailureCode where
  | malformedOutput
  | invalidIdentifier
  | invalidTaskPath
  | emptyCombinator
  | invalidLiteral
  | notBooleanProducing
  | disallowedKind
  | unsatisfiable
  | semanticDisagreement
deriving DecidableEq

namespace FailureCode

def all : List FailureCode :=
  [.malformedOutput, .invalidIdentifier, .invalidTaskPath, .emptyCombinator, .invalidLiteral,
    .notBooleanProducing, .disallowedKind, .unsatisfiable, .semanticDisagreement]

def name : FailureCode → String
  | .malformedOutput => "MALFORMED_OUTPUT"
  | .invalidIdentifier => "INVALID_IDENTIFIER"
  | .invalidTaskPath => "INVALID_TASK_PATH"
  | .emptyCombinator => "EMPTY_COMBINATOR"
  | .invalidLiteral => "INVALID_LITERAL"
  | .notBooleanProducing => "NOT_BOOLEAN_PRODUCING"
  | .disallowedKind => "DISALLOWED_KIND"
  | .unsatisfiable => "UNSATISFIABLE"
  | .semanticDisagreement => "SEMANTIC_DISAGREEMENT"

def names : List (String × FailureCode) := all.map fun c => (c.name, c)

end FailureCode

structure Failure where
  code : FailureCode
  path : NodePath
  node : Node
  message : String

namespace Failure

def display (f : Failure) : String :=
  "[" ++ f.code.name ++ "] at " ++ f.path.text ++ " (" ++ f.node.kind.name ++ "): " ++ f.message

def toJson (f : Failure) : Json :=
  .object [("code", .string f.code.name), ("path", .string f.path.text),
    ("node", f.node.toJson), ("message", .string f.message)]

def serialize (f : Failure) : String := f.toJson.render

open Json (Draft)

structure Partly where
  code : Option FailureCode := none
  path : Option NodePath := none
  node : Option Node := none
  message : Option String := none

def requireKey {α : Type} (key : String) : Option α → Except ReadFault α
  | some a => .ok a
  | none => .error (.json (.missing key))

def Partly.build (s : Partly) : Except ReadFault Failure := do
  let code ← requireKey "code" s.code
  let path ← requireKey "path" s.path
  let node ← requireKey "node" s.node
  let message ← requireKey "message" s.message
  return ⟨code, path, node, message⟩

def Partly.take (s : Partly) (room : Nat) (key : String) (d : Draft) : Except ReadFault Partly :=
  match key with
  | "code" => do
    if s.code.isSome then throw (.json (.duplicate key))
    let a ← (d.choice FailureCode.names).mapError .json
    return { s with code := some a }
  | "path" => do
    if s.path.isSome then throw (.json (.duplicate key))
    let a ← d.asText.mapError .json
    return { s with path := some ⟨a⟩ }
  | "node" => do
    if s.node.isSome then throw (.json (.duplicate key))
    let a ← Node.ofDraft room d
    return { s with node := some a }
  | "message" => do
    if s.message.isSome then throw (.json (.duplicate key))
    let a ← d.asText.mapError .json
    return { s with message := some a }
  | _ => do
    d.pass.mapError .json
    return s

def ofMembers (room : Nat) (closed : Bool) (s : Partly) :
    List (List Json.Letter × Draft) → Except ReadFault Failure
  | [] => if closed then s.build else .error (.json .grammar)
  | (letters, d) :: ms => do
    let key ← (Draft.spelled letters).mapError .json
    let s ← s.take room key d
    ofMembers room closed s ms

def keys : List String := ["code", "path", "node", "message"]

def ofItems (room : Nat) (closed : Bool) (n : Nat) (s : Partly) :
    List String → List Draft → Except ReadFault Failure
  | [], [] => if closed then s.build else .error (.json .grammar)
  | [], _ :: _ => .error (.json .grammar)
  | _ :: _, [] =>
    .error (.json (if closed then .wrongLength n "struct ValidationFailure with 4 elements"
      else .grammar))
  | key :: rest, d :: ds => do
    let s ← s.take room key d
    ofItems room closed (n + 1) s rest ds

/-- A failure is read member by member; the first fault wins, also over a later break in the text. -/
def ofDraft : Draft → Except ReadFault Failure
  | .object members closed => ofMembers (Json.maxDepth - 1) closed {} members
  | .array items closed => ofItems (Json.maxDepth - 1) closed 0 {} keys items
  | d => (d.refuse "struct ValidationFailure").mapError .json

def parse (text : String) : Except ReadFault Failure := do
  let (draft, rest) := Draft.read text.toList
  let f ← ofDraft draft
  if (Draft.skipSpace rest).isEmpty then return f else .error (.json .grammar)

end Failure

end Eligibility
