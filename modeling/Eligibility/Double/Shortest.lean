import Eligibility.Double

namespace Eligibility.Double

/-- Which of two equally near candidates is taken. -/
inductive Tie where
  | up
  | toEven
deriving DecidableEq

def stripZeros : Nat → Nat → Int → Decimal
  | 0, digits, exponent => ⟨digits, exponent⟩
  | fuel + 1, digits, exponent =>
    if digits % 10 = 0 then stripZeros fuel (digits / 10) (exponent + 1) else ⟨digits, exponent⟩

/-- The exponent `k` with `10 ^ (k - 1) ≤ value < 10 ^ k`, for a positive count of steps. -/
def scale (units : Nat) : Int :=
  (Decimal.width (units * Nat.pow 10 400 / Nat.pow 2 1074) : Int) - 400

def overGrid (units : Nat) (exponent : Int) : Nat × Nat :=
  if 0 ≤ exponent then (units, Nat.pow 2 1074 * Nat.pow 10 exponent.toNat)
  else (units * Nat.pow 10 (-exponent).toNat, Nat.pow 2 1074)

/-- The candidates of one grid, the preferred one first. -/
def neighbours (tie : Tie) (units : Nat) (exponent : Int) : List Nat :=
  let (num, den) := overGrid units exponent
  let low := num / den
  let rest := num % den
  let upFirst := den < 2 * rest ∨ (den = 2 * rest ∧ (tie = .up ∨ low % 2 = 1))
  if upFirst then [low + 1, low] else [low, low + 1]

def onGrid (tie : Tie) (units n : Nat) : Option Decimal :=
  let exponent := scale units - n
  ((neighbours tie units exponent).map (stripZeros n · exponent)).find? fun d =>
    d.toDouble false == ofUnits false units

def exactDecimal (units : Nat) : Decimal := ⟨units * Nat.pow 5 1074, -1074⟩

/-- The fewest digits that read back. Grids of one up to seventeen significant digits are tried in
turn; on each the two neighbours of the exact value are candidates, and a candidate counts only if
reading it gives the number back. -/
def shortest (tie : Tie) (units : Nat) : Decimal :=
  ((List.range 17).findSome? fun i => onGrid tie units (i + 1)).getD (exactDecimal units)

/-- How a format writes numbers. -/
structure Layout where
  /-- Exponents of the leading digit that are written without an exponent mark, from the first up to
  but not including the second; every exponent when absent. -/
  plain : Option (Int × Int)
  /-- A whole number ends in `.0`. -/
  pointZero : Bool
  /-- A positive exponent carries a plus sign. -/
  plusSign : Bool
  /-- Negative zero keeps its sign. -/
  signedZero : Bool
  tie : Tie

namespace Layout

def isPlain (l : Layout) (leading : Int) : Bool :=
  match l.plain with
  | none => true
  | some (low, high) => low ≤ leading && leading < high

/-- Digits without an exponent mark; the value is `0.d₁d₂… * 10 ^ point`. -/
def positional (l : Layout) (ds : List Char) (point : Int) : List Char :=
  if point ≤ 0 then '0' :: '.' :: List.replicate (-point).toNat '0' ++ ds
  else
    let p := point.toNat
    if p < ds.length then ds.take p ++ '.' :: ds.drop p
    else ds ++ List.replicate (p - ds.length) '0' ++ (if l.pointZero then ['.', '0'] else [])

def exponentText (l : Layout) (e : Int) : List Char :=
  if e < 0 then '-' :: Nat.toDigits 10 e.natAbs
  else (if l.plusSign then ['+'] else []) ++ Nat.toDigits 10 e.natAbs

def scientific (l : Layout) (ds : List Char) (leading : Int) : List Char :=
  let mantissa := match ds with
    | d :: r :: rest => d :: '.' :: r :: rest
    | one => one
  mantissa ++ 'e' :: l.exponentText leading

def decimal (l : Layout) (d : Decimal) : List Char :=
  let ds := Nat.toDigits 10 d.digits
  let point := d.exponent + ds.length
  if l.isPlain (point - 1) then l.positional ds point else l.scientific ds (point - 1)

def magnitude (l : Layout) (units : Nat) : List Char :=
  if units = 0 then '0' :: (if l.pointZero then ['.', '0'] else [])
  else l.decimal (shortest l.tie units)

def render (l : Layout) : Double → String
  | .nan => "NaN"
  | .infinite negative => if negative then "-inf" else "inf"
  | .finite negative units _ =>
    let text := l.magnitude units
    String.ofList (if negative && (l.signedZero || units != 0) then '-' :: text else text)

end Layout

end Eligibility.Double
