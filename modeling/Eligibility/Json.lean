import Eligibility.Double

namespace Eligibility

/-- A whole number of at most 64 bits stays whole; any other number is a double. -/
inductive Json.Number where
  | integer (n : Int)
  | real (x : Double)
deriving DecidableEq

inductive Json where
  | null
  | bool (b : Bool)
  | number (n : Json.Number)
  | string (s : String)
  | array (items : List Json)
  | object (members : List (String × Json))

namespace Json

mutual
def depth : Json → Nat
  | .array items => depthItems items + 1
  | .object members => depthMembers members + 1
  | _ => 0
def depthItems : List Json → Nat
  | [] => 0
  | j :: js => max (depth j) (depthItems js)
def depthMembers : List (String × Json) → Nat
  | [] => 0
  | (_, j) :: ms => max (depth j) (depthMembers ms)
end

def member? (key : String) : Json → Option Json
  | .object members => members.lookup key
  | _ => none

def item? (i : Nat) : Json → Option Json
  | .array items => items[i]?
  | _ => none

end Json

end Eligibility
