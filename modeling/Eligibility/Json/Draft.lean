import Eligibility.Json.Letter
import Eligibility.Json.Numeral

namespace Eligibility.Json

/-- A text read as far as its grammar holds. Where the grammar is violated the draft breaks off: the
containers open at that point are left unclosed, so that a reader can judge what stands before the
break. -/
inductive Draft where
  | null
  | bool (b : Bool)
  | number (n : Numeral)
  | string (letters : List Letter)
  | array (items : List Draft) (closed : Bool)
  | object (members : List (List Letter × Draft)) (closed : Bool)
  | broken

namespace Draft

def isSpace (c : Char) : Bool := c == ' ' || c == '\n' || c == '\t' || c == '\r'

def skipSpace (cs : List Char) : List Char := cs.dropWhile isSpace

def ofNumeral : Option (Numeral × List Char) → Draft × List Char
  | some (n, rest) => (.number n, rest)
  | none => (.broken, [])

def readAtom : List Char → Draft × List Char
  | '"' :: r =>
    match Letter.readAll r with
    | some (ls, rest) => (.string ls, rest)
    | none => (.broken, [])
  | 'n' :: 'u' :: 'l' :: 'l' :: r => (.null, r)
  | 't' :: 'r' :: 'u' :: 'e' :: r => (.bool true, r)
  | 'f' :: 'a' :: 'l' :: 's' :: 'e' :: r => (.bool false, r)
  | '-' :: r => ofNumeral (Numeral.read true r)
  | cs => ofNumeral (Numeral.read false cs)

mutual
/-- One value, and the rest of the text; nothing rests after a break. -/
def readValue : Nat → List Char → Draft × List Char
  | 0, _ => (.broken, [])
  | fuel + 1, cs =>
    match skipSpace cs with
    | '[' :: r =>
      match skipSpace r with
      | ']' :: rest => (.array [] true, rest)
      | r => let (items, closed, rest) := readItems fuel r; (.array items closed, rest)
    | '\x7b' :: r =>
      match skipSpace r with
      | '\x7d' :: rest => (.object [] true, rest)
      | r => let (members, closed, rest) := readMembers fuel r; (.object members closed, rest)
    | cs => readAtom cs
def readItems : Nat → List Char → List Draft × Bool × List Char
  | 0, _ => ([], false, [])
  | fuel + 1, cs =>
    let (d, rest) := readValue fuel cs
    match skipSpace rest with
    | ',' :: r => let (ds, closed, rest) := readItems fuel r; (d :: ds, closed, rest)
    | ']' :: r => ([d], true, r)
    | _ => ([d], false, [])
def readMembers : Nat → List Char → List (List Letter × Draft) × Bool × List Char
  | 0, _ => ([], false, [])
  | fuel + 1, cs =>
    match skipSpace cs with
    | '"' :: r =>
      match Letter.readAll r with
      | none => ([], false, [])
      | some (key, r) =>
        match skipSpace r with
        | ':' :: r =>
          let (d, rest) := readValue fuel r
          match skipSpace rest with
          | ',' :: r => let (ms, closed, rest) := readMembers fuel r; ((key, d) :: ms, closed, rest)
          | '\x7d' :: r => ([(key, d)], true, r)
          | _ => ([(key, d)], false, [])
        | _ => ([(key, .broken)], false, [])
    | _ => ([], false, [])
end

/-- The draft at the start of a text, and what follows it. Each step of reading passes a character
or enters the value that begins there, which bounds the steps. -/
def read (cs : List Char) : Draft × List Char := readValue (2 * cs.length + 2) cs

mutual
/-- The document of a draft without a break. It opens at most `room` containers at a time, its
numbers are in range and its strings spell texts. -/
def settle? : Draft → Nat → Option Json
  | .null, _ => some .null
  | .bool b, _ => some (.bool b)
  | .number n, _ => n.value?.map .number
  | .string ls, _ => (Letter.text? ls).map .string
  | .array _ false, _ => none
  | .array _ true, 0 => none
  | .array items true, room + 1 => (settleItems? items room).map .array
  | .object _ false, _ => none
  | .object _ true, 0 => none
  | .object members true, room + 1 => (settleMembers? members room).map .object
  | .broken, _ => none
def settleItems? : List Draft → Nat → Option (List Json)
  | [], _ => some []
  | d :: ds, room => do
    let j ← settle? d room
    let js ← settleItems? ds room
    return j :: js
def settleMembers? : List (List Letter × Draft) → Nat → Option (List (String × Json))
  | [], _ => some []
  | (key, d) :: ms, room => do
    let k ← Letter.text? key
    let j ← settle? d room
    let js ← settleMembers? ms room
    return (k, j) :: js
end

mutual
def isUnbroken : Draft → Bool
  | .array items closed => closed && areUnbroken items
  | .object members closed => closed && membersUnbroken members
  | .broken => false
  | _ => true
def areUnbroken : List Draft → Bool
  | [] => true
  | d :: ds => isUnbroken d && areUnbroken ds
def membersUnbroken : List (List Letter × Draft) → Bool
  | [] => true
  | (_, d) :: ms => isUnbroken d && membersUnbroken ms
end

end Draft

def maxDepth : Nat := 127

def parse? (text : String) (room : Nat) : Option Json :=
  let (draft, rest) := Draft.read text.toList
  if (Draft.skipSpace rest).isEmpty then draft.settle? room else none

end Eligibility.Json
