import Eligibility.Rule.Document
import Eligibility.Rule.Reader

namespace Eligibility.Node

open Json (Draft)

def topKind : Draft → Except ReadFault Kind
  | .string letters => do
    let s ← (Draft.spelled letters).mapError .json
    Place.node.kindNamed s
  | d => (d.refuse "variant identifier").mapError .json

/-- The kind and the other members of an object that has not been read to its end; its values open
at most `room` containers. -/
def topMembers (room : Nat) (closed : Bool) (seen : Option Kind) :
    List (List Json.Letter × Draft) → Except ReadFault (Kind × List (String × Json))
  | [] =>
    if closed then
      match seen with
      | some k => .ok (k, [])
      | none => .error (.json (.missing "typename"))
    else .error (.json .grammar)
  | (letters, d) :: ms => do
    let key ← (Draft.spelled letters).mapError .json
    if key = "typename" then
      match seen with
      | some _ => .error (.json (.duplicate "typename"))
      | none => do
        let k ← topKind d
        topMembers room closed (some k) ms
    else do
      let j ← (d.settle room).mapError .json
      let (k, rest) ← topMembers room closed seen ms
      return (k, (key, j) :: rest)

def topItems (room : Nat) (closed : Bool) : List Draft → Except ReadFault (List Json)
  | [] => if closed then .ok [] else .error (.json .grammar)
  | d :: ds => do
    let j ← (d.settle room).mapError .json
    let js ← topItems room closed ds
    return j :: js

def ofMembers (k : Kind) (members : List (String × Json)) : Except ReadFault Node :=
  if k = .value then ((Literal.ofMembers members).map .literal).mapError .json
  else readMembers k {} members

def ofItems (k : Kind) (items : List Json) : Except ReadFault Node :=
  if k = .value then ((Literal.ofItems items).map .literal).mapError .json
  else readItems k 0 {} k.fields items

def ofDraft (room : Nat) : Draft → Except ReadFault Node
  | .object members closed =>
    match room with
    | 0 => .error (.json .grammar)
    | room + 1 => do
      let (k, rest) ← topMembers room closed none members
      ofMembers k rest
  | .array items closed =>
    match room with
    | 0 => .error (.json .grammar)
    | room + 1 =>
      match items with
      | [] => .error (.json (if closed then .missing "typename" else .grammar))
      | tag :: rest => do
        let k ← topKind tag
        ofItems k (← topItems room closed rest)
  | d => (d.refuse Place.node.title).mapError .json

/-- The kind is judged as soon as it is met; a fault in it is reported even if the text breaks off
later. All other faults are those of the whole document, and only white space may follow it. -/
def parse (text : String) : Except ReadFault Node := do
  let (draft, rest) := Draft.read text.toList
  let n ← ofDraft Json.maxDepth draft
  if (Draft.skipSpace rest).isEmpty then return n else .error (.json .grammar)

end Eligibility.Node

namespace Eligibility

inductive RuleFault where
  | unreadable (f : ReadFault)
  | notRule (k : Kind)

def Rule.parse (text : String) : Except RuleFault Rule :=
  match Node.parse text with
  | .error f => .error (.unreadable f)
  | .ok (.rule r) => .ok r
  | .ok n => .error (.notRule n.kind)

end Eligibility
