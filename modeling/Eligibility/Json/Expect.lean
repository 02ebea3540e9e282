import Eligibility.Json.Draft
import Eligibility.Json.Fault

namespace Eligibility.Json

def isUnit (emptyCounts : Bool) : Json → Bool
  | .null => true
  | .object [] => emptyCounts
  | _ => false

/-- One of a fixed list of names: the name itself, or an object with the name as its only key and no
contents. -/
def choice {α : Type} (emptyCounts : Bool) (names : List (String × α)) :
    Json → Except Fault α
  | .string s => pick s
  | .object [(s, contents)] => do
    let a ← pick s
    if contents.isUnit emptyCounts then return a else .error (.wrongType contents.found "unit")
  | .object _ => .error (.wrongValue .map "map with a single key")
  | j => .error (.wrongType j.found "string or map")
where
  pick (s : String) : Except Fault α :=
    match names.lookup s with
    | some a => .ok a
    | none => .error (.unknownVariant s (names.map (·.1)))

def asText : Json → Except Fault String
  | .string s => .ok s
  | j => .error (.wrongType j.found "a string")

def asBool : Json → Except Fault Bool
  | .bool b => .ok b
  | j => .error (.wrongType j.found "a boolean")

def asDouble : Json → Except Fault Double
  | .number (.integer n) => .ok (Double.ofRatio (n < 0) n.natAbs 1)
  | .number (.real x) => .ok x
  | j => .error (.wrongType j.found "f64")

namespace Draft

def found : Draft → Except Fault Found
  | .array .. => .ok .sequence
  | .object .. => .ok .map
  | d =>
    match d.settle? 0 with
    | some j => .ok j.found
    | none => .error .grammar

def refuse {α : Type} (d : Draft) (expected : String) : Except Fault α := do
  let f ← d.found
  .error (.wrongType f expected)

def spelled (letters : List Letter) : Except Fault String :=
  match Letter.text? letters with
  | some s => .ok s
  | none => .error .grammar

def asText : Draft → Except Fault String
  | .string letters => spelled letters
  | d => d.refuse "a string"

def asBool : Draft → Except Fault Bool
  | .bool b => .ok b
  | d => d.refuse "a boolean"

/-- A value that is not looked at must only be whole. -/
def pass (d : Draft) : Except Fault Unit := if d.isUnbroken then .ok () else .error .grammar

def settle (d : Draft) (room : Nat) : Except Fault Json :=
  match d.settle? room with
  | some j => .ok j
  | none => .error .grammar

/-- One of a fixed list of names: the name itself, or an object with the name as its only key and
`null` as its contents. -/
def choice {α : Type} (names : List (String × α)) : Draft → Except Fault α
  | .string letters => do pick (← spelled letters)
  | .object ((letters, contents) :: rest) closed => do
    let a ← pick (← spelled letters)
    match contents with
    | .null => if rest.isEmpty && closed then return a else .error .grammar
    | d => d.refuse "unit"
  | _ => .error .grammar
where
  pick (s : String) : Except Fault α :=
    match names.lookup s with
    | some a => .ok a
    | none => .error (.unknownVariant s (names.map (·.1)))

end Draft

end Eligibility.Json
