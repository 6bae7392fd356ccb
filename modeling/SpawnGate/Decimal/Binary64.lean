/-!
Finite non-negative binary64 magnitudes with exact arithmetic: a result is the nearest magnitude to
the exact quotient of two naturals, ties to even, and is missing where that lies beyond the range.
-/

namespace SpawnGate.Decimal

/-- The magnitude `mantissa * 2 ^ exponent`. Those that rounding yields have the least exponent
that keeps the mantissa under `2 ^ 53`, and none below `-1074`. -/
structure Magnitude where
  mantissa : Nat
  exponent : Int
deriving DecidableEq, Repr

namespace Magnitude

def leastExponent : Int := -1074

def greatestExponent : Int := 971

def zero : Magnitude := ⟨0, leastExponent⟩

def isZero (a : Magnitude) : Bool := a.mantissa == 0

/-- The exact value as a quotient of naturals. -/
def numerator (a : Magnitude) : Nat := a.mantissa * Nat.pow 2 a.exponent.toNat

def denominator (a : Magnitude) : Nat := Nat.pow 2 (-a.exponent).toNat

/-- The exponent of the leading binary digit of a positive quotient. -/
def leadingExponent (num den : Nat) : Int :=
  let e : Int := num.log2 - den.log2
  if den * Nat.pow 2 e.toNat ≤ num * Nat.pow 2 (-e).toNat then e else e - 1

/-- The nearest natural to a quotient, ties to even. -/
def nearest (num den : Nat) : Nat :=
  let q := num / den
  let r := num % den
  if den < 2 * r ∨ (2 * r = den ∧ q % 2 = 1) then q + 1 else q

/-- The nearest magnitude to a quotient. -/
def round (num den : Nat) : Option Magnitude :=
  if num = 0 then some zero
  else
    let e := max (leadingExponent num den - 52) leastExponent
    let m := nearest (num * Nat.pow 2 (-e).toNat) (den * Nat.pow 2 e.toNat)
    let a : Magnitude := if m = Nat.pow 2 53 then ⟨Nat.pow 2 52, e + 1⟩ else ⟨m, e⟩
    if a.exponent ≤ greatestExponent then some a else none

def mul (a b : Magnitude) : Option Magnitude :=
  round (a.numerator * b.numerator) (a.denominator * b.denominator)

def div (a b : Magnitude) : Option Magnitude :=
  round (a.numerator * b.denominator) (a.denominator * b.numerator)

end Magnitude

/-- A finite binary64 number; the two zeros differ in sign. -/
structure Binary64 where
  negative : Bool
  magnitude : Magnitude
deriving DecidableEq, Repr

end SpawnGate.Decimal
