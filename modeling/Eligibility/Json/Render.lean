import Eligibility.Double.Shortest
import Eligibility.Json

namespace Eligibility.Json

/-- Numbers from `1e-5` up to `1e16` are written plainly and keep a point; the others carry a signed
exponent. Halves go to the even digit. -/
def numberLayout : Double.Layout where
  plain := some (-5, 16)
  pointZero := true
  plusSign := true
  signedZero := true
  tie := .toEven

def escapedChar (c : Char) : List Char :=
  if c = '"' then ['\\', '"']
  else if c = '\\' then ['\\', '\\']
  else if c.toNat = 0x8 then ['\\', 'b']
  else if c.toNat = 0xC then ['\\', 'f']
  else if c = '\n' then ['\\', 'n']
  else if c = '\r' then ['\\', 'r']
  else if c = '\t' then ['\\', 't']
  else if c.toNat < 0x20 then
    ['\\', 'u', '0', '0', if c.toNat < 0x10 then '0' else '1', Nat.digitChar (c.toNat % 16)]
  else [c]

def renderString (s : String) : List Char :=
  '"' :: s.toList.flatMap escapedChar ++ ['"']

def renderNumber : Number → List Char
  | .integer n => (toString n).toList
  | .real x => if x.isFinite then (numberLayout.render x).toList else "null".toList

mutual
def renderChars : Json → List Char
  | .null => "null".toList
  | .bool b => (if b then "true" else "false").toList
  | .number n => renderNumber n
  | .string s => renderString s
  | .array items => '[' :: renderItems items ++ [']']
  | .object members => '\x7b' :: renderMembers members ++ ['\x7d']
def renderItems : List Json → List Char
  | [] => []
  | [j] => renderChars j
  | j :: js => renderChars j ++ ',' :: renderItems js
def renderMembers : List (String × Json) → List Char
  | [] => []
  | [(k, j)] => renderString k ++ ':' :: renderChars j
  | (k, j) :: ms => renderString k ++ ':' :: renderChars j ++ ',' :: renderMembers ms
end

def render (j : Json) : String := String.ofList j.renderChars

end Eligibility.Json
