namespace Eligibility.Text

inductive WholeFault where
  | empty
  | badDigit
  | tooLarge
deriving DecidableEq

def WholeFault.message : WholeFault → String
  | .empty => "cannot parse integer from empty string"
  | .badDigit => "invalid digit found in string"
  | .tooLarge => "number too large to fit in target type"

/-- Reads digits onto `n`; the first digit that is none or that passes the limit is reported. -/
def wholeFrom (limit n : Nat) : List Char → Except WholeFault Nat
  | [] => .ok n
  | c :: cs =>
    if c.isDigit then
      let next := 10 * n + (c.toNat - '0'.toNat)
      if next < limit then wholeFrom limit next cs else .error .tooLarge
    else .error .badDigit

def whole (limit : Nat) : List Char → Except WholeFault Nat
  | [] => .error .empty
  | ['+'] => .error .badDigit
  | '+' :: cs => wholeFrom limit 0 cs
  | cs => wholeFrom limit 0 cs

def word (s : String) : Except WholeFault Nat := whole (Nat.pow 2 64) s.toList

end Eligibility.Text
