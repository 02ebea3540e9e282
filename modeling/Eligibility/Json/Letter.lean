namespace Eligibility.Json

/-- A character that stands for itself or follows a backslash, or a 16-bit code. -/
inductive Letter where
  | plain (c : Char)
  | code (n : Nat)
deriving DecidableEq

namespace Letter

def hexDigit? (c : Char) : Option Nat :=
  if c.isDigit then some (c.toNat - '0'.toNat)
  else if 'a' ≤ c ∧ c ≤ 'f' then some (c.toNat - 'a'.toNat + 10)
  else if 'A' ≤ c ∧ c ≤ 'F' then some (c.toNat - 'A'.toNat + 10)
  else none

def hexCode? (a b c d : Char) : Option Nat := do
  return (((← hexDigit? a) * 16 + (← hexDigit? b)) * 16 + (← hexDigit? c)) * 16 + (← hexDigit? d)

def escaped? : Char → Option Char
  | '"' => some '"'
  | '\\' => some '\\'
  | '/' => some '/'
  | 'b' => some '\x08'
  | 'f' => some '\x0c'
  | 'n' => some '\n'
  | 'r' => some '\r'
  | 't' => some '\t'
  | _ => none

def readAll : List Char → Option (List Letter × List Char)
  | '"' :: r => some ([], r)
  | '\\' :: 'u' :: a :: b :: c :: d :: r => do
    let n ← hexCode? a b c d
    let (ls, rest) ← readAll r
    return (.code n :: ls, rest)
  | '\\' :: c :: r => do
    let e ← escaped? c
    let (ls, rest) ← readAll r
    return (.plain e :: ls, rest)
  | c :: r =>
    if c.toNat < 0x20 ∨ c = '\\' then none
    else do
      let (ls, rest) ← readAll r
      return (.plain c :: ls, rest)
  | [] => none

def isHigh (n : Nat) : Bool := 0xD800 ≤ n && n ≤ 0xDBFF

def isLow (n : Nat) : Bool := 0xDC00 ≤ n && n ≤ 0xDFFF

/-- The text that letters spell: the codes of a surrogate pair make one character, and a surrogate
outside a pair spells nothing. -/
def spell? : List Letter → Option (List Char)
  | [] => some []
  | .plain c :: r => (spell? r).map (c :: ·)
  | .code h :: .code l :: r =>
    if isHigh h then
      if isLow l then
        (spell? r).map (Char.ofNat (0x10000 + (h - 0xD800) * 0x400 + (l - 0xDC00)) :: ·)
      else none
    else if isLow h then none
    else (spell? (.code l :: r)).map (Char.ofNat h :: ·)
  | .code h :: r =>
    if isHigh h || isLow h then none else (spell? r).map (Char.ofNat h :: ·)

def text? (ls : List Letter) : Option String := (spell? ls).map String.ofList

end Letter

end Eligibility.Json
