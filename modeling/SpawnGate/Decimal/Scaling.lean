import SpawnGate.Decimal.Digits
import SpawnGate.Decimal.Binary64

/-!
The magnitude of a decimal literal by one rounding of its leading digits and further roundings for
its power of ten. Digits that do not fit a 64-bit significand are dropped.
-/

namespace SpawnGate.Decimal

def significandLimit : Nat := Nat.pow 2 64

/-- The significand after a row of whole digits, and how many of them did not fit. -/
def takeWhole (significand : Nat) : List Digit → Nat × Nat
  | [] => (significand, 0)
  | d :: ds =>
    if significand * 10 + d.val < significandLimit then takeWhole (significand * 10 + d.val) ds
    else (significand, ds.length + 1)

/-- The significand after a row of fraction digits, and how many of them were used. -/
def takeFraction (significand : Nat) : List Digit → Nat × Nat
  | [] => (significand, 0)
  | d :: ds =>
    if significand * 10 + d.val < significandLimit then
      let (total, used) := takeFraction (significand * 10 + d.val) ds
      (total, used + 1)
    else (significand, 0)

/-- The greatest power of ten that is multiplied or divided by at once. -/
def greatestPower : Nat := 308

def powerOfTen (k : Nat) : Magnitude :=
  (Magnitude.round (Nat.pow 10 k) 1).getD .zero

/-- Divides by the greatest power of ten, up to so many times, and stops at zero. -/
def shrink : Nat → Magnitude → Magnitude
  | 0, a => a
  | n + 1, a =>
    if a.isZero then a else shrink n ((a.div (powerOfTen greatestPower)).getD .zero)

/-- A significand times a power of ten, or nothing when that lies beyond the range. -/
def scale (significand : Nat) (exponent : Int) : Option Magnitude := do
  let a ← Magnitude.round significand 1
  if 0 ≤ exponent then
    if a.isZero then some a
    else if exponent.toNat ≤ greatestPower then a.mul (powerOfTen exponent.toNat)
    else none
  else
    let depth := (-exponent).toNat
    let steps := (depth - 1) / greatestPower
    (shrink steps a).div (powerOfTen (depth - steps * greatestPower))

/-- The greatest exponent that is read as written. -/
def exponentLimit : Nat := Nat.pow 2 31

/-- The magnitude that a literal's digits and signed exponent stand for. -/
def magnitude? (whole fraction : List Digit) (exponent : Option (Bool × List Digit)) :
    Option Magnitude :=
  let (first, extra) := takeWhole 0 whole
  let (significand, used) := takeFraction first fraction
  let start : Int := extra - used
  match exponent with
  | none => scale significand start
  | some (negative, ds) =>
    if ofDigits ds < exponentLimit then
      scale significand (if negative then start - ofDigits ds else start + ofDigits ds)
    else if significand = 0 ∨ negative then some .zero
    else none

end SpawnGate.Decimal
