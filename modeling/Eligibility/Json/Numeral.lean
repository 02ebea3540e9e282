import Eligibility.Json

namespace Eligibility.Json

structure Numeral where
  negative : Bool
  whole : List Char
  fraction : Option (List Char)
  /-- Whether the exponent is negative, and its digits. -/
  exponent : Option (Bool × List Char)
deriving DecidableEq

namespace Numeral

def ofDigits (cs : List Char) : Nat :=
  cs.foldl (fun n c => 10 * n + (c.toNat - '0'.toNat)) 0

/-- Leading digits join the significand as long as it fits in 64 bits; the second number counts those
that did, the third those that did not. -/
def gather (m taken : Nat) : List Char → Nat × Nat × Nat
  | [] => (m, taken, 0)
  | c :: cs =>
    let next := 10 * m + (c.toNat - '0'.toNat)
    if next < Nat.pow 2 64 then gather next (taken + 1) cs else (m, taken, cs.length + 1)

def shift (n : Numeral) : Int :=
  match n.exponent with
  | none => 0
  | some (true, ds) => -(ofDigits ds : Int)
  | some (false, ds) => ofDigits ds

def decimal (n : Numeral) : Decimal :=
  let (whole, _, dropped) := gather 0 0 n.whole
  let (significand, places, _) := gather whole 0 (n.fraction.getD [])
  ⟨significand, n.shift + dropped - places⟩

def powerOfTen (k : Nat) : Nat := (((⟨1, k⟩ : Decimal).toDouble false).units?).getD 0

def scaleDown : Nat → Double → Nat → Double
  | 0, _, _ => Double.zero
  | fuel + 1, x, k =>
    match x.units? with
    | none => x
    | some u =>
      if k ≤ 308 then Double.quotient u (powerOfTen k)
      else if u = 0 then x
      else scaleDown fuel (Double.quotient u (powerOfTen 308)) (k - 308)

/-- The significand becomes a number, and is then multiplied or divided by a power of ten; both steps
round. A result that is not finite is none. After a third division nothing is left of a significand,
which bounds the steps. -/
def scaled? (d : Decimal) : Option Double :=
  let x := Double.ofRatio false d.digits 1
  let y :=
    if 0 ≤ d.exponent then
      if d.digits = 0 then x
      else if 308 < d.exponent then .infinite false
      else Double.product (x.units?.getD 0) (powerOfTen d.exponent.toNat)
    else scaleDown 4 x (-d.exponent).toNat
  if y.isFinite then some y else none

/-- The integer that a numeral without fraction and exponent is, if it has at most 64 bits. A
negative zero is no integer: it keeps its sign as a double. -/
def integer? (n : Numeral) : Option Int :=
  if n.fraction.isSome || n.exponent.isSome then none
  else
    let m := ofDigits n.whole
    if n.negative then
      if 0 < m ∧ m ≤ Nat.pow 2 63 then some (-(m : Int)) else none
    else if m < Nat.pow 2 64 then some m else none

def value? (n : Numeral) : Option Number :=
  match n.integer? with
  | some i => some (.integer i)
  | none => (scaled? n.decimal).map fun x => .real (x.withSign n.negative)

def readWhole : List Char → Option (List Char × List Char)
  | '0' :: r => if (r.head?.any Char.isDigit) then none else some (['0'], r)
  | cs =>
    match cs.takeWhile Char.isDigit with
    | [] => none
    | ds => some (ds, cs.dropWhile Char.isDigit)

def readDigits (cs : List Char) : Option (List Char × List Char) :=
  match cs.takeWhile Char.isDigit with
  | [] => none
  | ds => some (ds, cs.dropWhile Char.isDigit)

def readFraction : List Char → Option (Option (List Char) × List Char)
  | '.' :: r => (readDigits r).map fun (ds, rest) => (some ds, rest)
  | cs => some (none, cs)

def readPower : List Char → Option ((Bool × List Char) × List Char)
  | '-' :: r => (readDigits r).map fun (ds, rest) => ((true, ds), rest)
  | '+' :: r => (readDigits r).map fun (ds, rest) => ((false, ds), rest)
  | cs => (readDigits cs).map fun (ds, rest) => ((false, ds), rest)

def readExponent : List Char → Option (Option (Bool × List Char) × List Char)
  | 'e' :: r => (readPower r).map fun (p, rest) => (some p, rest)
  | 'E' :: r => (readPower r).map fun (p, rest) => (some p, rest)
  | cs => some (none, cs)

def read (negative : Bool) (cs : List Char) : Option (Numeral × List Char) := do
  let (whole, r₁) ← readWhole cs
  let (fraction, r₂) ← readFraction r₁
  let (exponent, r₃) ← readExponent r₂
  return (⟨negative, whole, fraction, exponent⟩, r₃)

end Numeral

end Eligibility.Json
