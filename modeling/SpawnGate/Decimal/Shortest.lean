import SpawnGate.Decimal.Digits
import SpawnGate.Decimal.Binary64

/-!
The fewest decimal digits that lie in the interval of reals nearest to a magnitude, and their layout.
-/

namespace SpawnGate.Decimal

/-- A positive decimal: `value * 10 ^ power`. -/
structure Scientific where
  value : Nat
  power : Int
deriving DecidableEq, Repr

/-- The reals that round to a magnitude, in quarters of its last place: the ends, and whether they
belong to it. -/
structure Interval where
  low : Nat
  middle : Nat
  high : Nat
  closed : Bool
deriving DecidableEq, Repr

def Magnitude.interval (a : Magnitude) : Interval :=
  { low := 4 * a.mantissa - (if a.mantissa = Nat.pow 2 52 ∧ leastExponent < a.exponent then 1 else 2)
    middle := 4 * a.mantissa
    high := 4 * a.mantissa + 2
    closed := a.mantissa % 2 = 0 }

/-- Whether `x`, on the scale of the interval's ends times `unit`, lies in it. -/
def Interval.contains (i : Interval) (unit x : Nat) : Bool :=
  if i.closed then i.low * unit ≤ x ∧ x ≤ i.high * unit
  else i.low * unit < x ∧ x < i.high * unit

/-- The multiple of `10 ^ power` in the interval that is nearest to the magnitude, a tie going to
the even one. -/
def Magnitude.onGrid (a : Magnitude) (power : Int) : Option Nat :=
  let i := a.interval
  let unit := Nat.pow 2 (a.exponent - 2).toNat * Nat.pow 10 (-power).toNat
  let step := Nat.pow 2 (2 - a.exponent).toNat * Nat.pow 10 power.toNat
  let c := i.middle * unit / step
  let below := i.middle * unit - c * step
  let above := (c + 1) * step - i.middle * unit
  match i.contains unit (c * step), i.contains unit ((c + 1) * step) with
  | true, true => some (if below < above ∨ (below = above ∧ c % 2 = 0) then c else c + 1)
  | true, false => some c
  | false, true => some (c + 1)
  | false, false => none

/-- A power of ten above the magnitude, by at most three places. -/
def Magnitude.topPower (a : Magnitude) : Int :=
  (a.mantissa.log2 + a.exponent + 1) * 30103 / 100000 + 1

/-- The first hit on grids of falling powers. -/
def Magnitude.descend (a : Magnitude) : Nat → Int → Option Scientific
  | 0, _ => none
  | n + 1, power =>
    match a.onGrid power with
    | some c => some ⟨c, power⟩
    | none => a.descend n (power - 1)

/-- The shortest decimal of a magnitude; among the shortest, the nearest. -/
def Magnitude.shortest (a : Magnitude) : Scientific :=
  if a.isZero then ⟨0, 0⟩ else (a.descend 24 a.topPower).getD ⟨0, 0⟩

/-- When a decimal is written in full and how an exponent looks otherwise. -/
structure Layout where
  /-- The least exponent of the leading digit of a number written in full. -/
  leastPlain : Int
  /-- The greatest such exponent. -/
  greatestPlain : Int
  /-- Whether a positive exponent has a sign. -/
  plusSign : Bool
deriving DecidableEq, Repr

def zeros (n : Nat) : List Char := List.replicate n '0'

/-- A decimal in full, always with a fraction. -/
def plain (ds : List Char) (power : Int) : List Char :=
  let point := ds.length + power
  if 0 ≤ power then ds ++ zeros power.toNat ++ ['.', '0']
  else if 0 < point then ds.take point.toNat ++ '.' :: ds.drop point.toNat
  else '0' :: '.' :: zeros (-point).toNat ++ ds

def withExponent (plusSign : Bool) (ds : List Char) (exponent : Int) : List Char :=
  let mantissa := match ds with
    | d :: e :: r => d :: '.' :: e :: r
    | short => short
  let sign := if exponent < 0 then ['-'] else if plusSign then ['+'] else []
  mantissa ++ 'e' :: sign ++ text (digits exponent.natAbs)

def Layout.write (l : Layout) (s : Scientific) : List Char :=
  let ds := text (digits s.value)
  let exponent := ds.length + s.power - 1
  if s.value = 0 then ['0', '.', '0']
  else if l.leastPlain ≤ exponent ∧ exponent ≤ l.greatestPlain then plain ds s.power
  else withExponent l.plusSign ds exponent

def Layout.writeBinary (l : Layout) (x : Binary64) : List Char :=
  (if x.negative then ['-'] else []) ++ l.write x.magnitude.shortest

end SpawnGate.Decimal
