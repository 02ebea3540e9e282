namespace Eligibility

/-- Distance from a magnitude to the next one above it, both counted in least steps. -/
def Double.gap (units : Nat) : Nat := Nat.pow 2 (units.log2 - 52)

/-- A count of least steps that is a magnitude: at most 53 significant bits, and in range. -/
def Double.Fits (units : Nat) : Prop := units % Double.gap units = 0 ∧ units < Nat.pow 2 2098

instance (units : Nat) : Decidable (Double.Fits units) := by
  unfold Double.Fits; infer_instance

/-- Double-precision numbers as exact data: a finite one is a sign and a whole count of the least
positive step `2 ^ -1074`, so order and equality are those of the integers, and rounding is division
with remainder. -/
inductive Double where
  | nan
  | infinite (negative : Bool)
  | finite (negative : Bool) (units : Nat) (fits : Double.Fits units)
deriving DecidableEq

namespace Double

def isFinite : Double → Bool
  | finite .. => true
  | _ => false

def ofUnits (negative : Bool) (units : Nat) : Double :=
  if h : Fits units then finite negative units h else infinite negative

def zero : Double := ofUnits false 0

def roundHalfEven (num den : Nat) : Nat :=
  let q := num / den
  let r := num % den
  if 2 * r < den then q else if den < 2 * r then q + 1 else q + q % 2

def ofRatio (negative : Bool) (num den : Nat) : Double :=
  let steps := num * Nat.pow 2 1074
  let spare := Nat.pow 2 ((steps / den).log2 - 52)
  ofUnits negative (roundHalfEven steps (den * spare) * spare)

def product (u v : Nat) : Double := ofRatio false (u * v) (Nat.pow 2 2148)

def quotient (u v : Nat) : Double := ofRatio false u v

def units? : Double → Option Nat
  | finite _ u _ => some u
  | _ => none

def withSign (negative : Bool) : Double → Double
  | nan => nan
  | infinite _ => infinite negative
  | finite _ u h => finite negative u h

def signed (negative : Bool) (units : Nat) : Int :=
  if negative then -(units : Int) else units

/-- Equality of values: both zeros are one value, and `nan` equals nothing. -/
def same : Double → Double → Bool
  | finite s u _, finite t v _ => signed s u == signed t v
  | infinite s, infinite t => s == t
  | _, _ => false

def below : Double → Double → Bool
  | finite s u _, finite t v _ => signed s u < signed t v
  | infinite s, infinite t => s && !t
  | infinite s, finite .. => s
  | finite .., infinite t => !t
  | _, _ => false

/-- The larger of two, a `nan` giving way to the other; of equals the first. -/
def max : Double → Double → Double
  | nan, y => y
  | x, nan => x
  | x, y => if below x y then y else x

def min : Double → Double → Double
  | nan, y => y
  | x, nan => x
  | x, y => if below y x then y else x

end Double

/-- The number `digits * 10 ^ exponent`. -/
structure Decimal where
  digits : Nat
  exponent : Int
deriving DecidableEq

namespace Decimal

def width (n : Nat) : Nat := (Nat.toDigits 10 n).length

/-- Nearest number. Far outside the range the answer is known without the division. -/
def toDouble (negative : Bool) (d : Decimal) : Double :=
  if d.digits = 0 then Double.ofUnits negative 0
  else if 400 < d.exponent then .infinite negative
  else if d.exponent + width d.digits < -400 then Double.ofUnits negative 0
  else if 0 ≤ d.exponent then Double.ofRatio negative (d.digits * Nat.pow 10 d.exponent.toNat) 1
  else Double.ofRatio negative d.digits (Nat.pow 10 (-d.exponent).toNat)

end Decimal

end Eligibility
