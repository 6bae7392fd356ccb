import SpawnGate.Json.Numeral
import SpawnGate.Decimal.Scaling
import SpawnGate.Decimal.Shortest

/-!
JSON numbers as values: an integer that fits a signed or an unsigned 64-bit word, else a double.
-/

namespace SpawnGate.Json

open Decimal

inductive Number where
  | integer (n : Int)
  | double (x : Binary64)
deriving DecidableEq, Repr

namespace Number

def leastInteger : Int := -Nat.pow 2 63

def integerLimit : Int := Nat.pow 2 64

/-- How doubles are written: in full from `1e-5` up to `1e16`. -/
def doubles : Layout := ⟨-5, 15, true⟩

def double? (n : Numeral) : Option Number :=
  (magnitude? n.whole n.fraction n.exponent).map fun m => .double ⟨n.negative, m⟩

/-- The value of a literal; minus zero is a double. -/
def ofNumeral? (n : Numeral) : Option Number :=
  let size := ofDigits n.whole
  if n.isWhole && !n.negative && decide ((size : Int) < integerLimit) then some (.integer size)
  else if n.isWhole && n.negative && size != 0 && decide (leastInteger ≤ -(size : Int)) then
    some (.integer (-size))
  else double? n

def chars : Number → List Char
  | .integer (.ofNat n) => text (digits n)
  | .integer (.negSucc n) => '-' :: text (digits (n + 1))
  | .double x => doubles.writeBinary x

end Number

/-- A numeral that writes a natural under the limit and nothing more. -/
def Numeral.natBelow? (limit : Nat) (n : Numeral) : Option Nat :=
  if n.isWhole && !n.negative && decide (ofDigits n.whole < limit) then some (ofDigits n.whole)
  else none

end SpawnGate.Json
