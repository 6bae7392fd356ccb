import SpawnGate.Decimal.Digits

/-!
JSON number literals: an optional minus, whole digits without a leading zero, an optional fraction
and an optional exponent.
-/

namespace SpawnGate.Json

open Decimal

structure Numeral where
  negative : Bool
  whole : List Digit
  /-- Empty when the literal has no fraction. -/
  fraction : List Digit
  /-- Whether the exponent is negative, and its digits. -/
  exponent : Option (Bool × List Digit)
deriving DecidableEq, Repr

namespace Numeral

def isNumeralChar (c : Char) : Bool :=
  (Digit.ofChar? c).isSome || c == '-' || c == '+' || c == '.' || c == 'e' || c == 'E'

def minus : List Char → Bool × List Char
  | '-' :: r => (true, r)
  | r => (false, r)

def whole? (cs : List Char) : Option (List Digit × List Char) :=
  match leading cs with
  | ([], _) => none
  | (⟨0, _⟩ :: _ :: _, _) => none
  | found => some found

/-- Reads a whole literal. -/
def ofChars? (cs : List Char) : Option Numeral := do
  let (negative, cs) := minus cs
  let (whole, cs) ← whole? cs
  let (fraction, cs) ← fraction? cs
  let exponent ← exponent? cs
  return { negative, whole, fraction, exponent }

/-- Neither a fraction nor an exponent is written. -/
def isWhole (n : Numeral) : Bool :=
  n.fraction.isEmpty && n.exponent.isNone

end Numeral

end SpawnGate.Json
