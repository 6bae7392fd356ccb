/-!
Hexadecimal digits: read in either case, written in lower case.
-/

namespace SpawnGate.Hex

abbrev Digit := Fin 16

def Digit.ofChar? (c : Char) : Option Digit :=
  if h : 48 ≤ c.toNat ∧ c.toNat ≤ 57 then some ⟨c.toNat - 48, by omega⟩
  else if h : 65 ≤ c.toNat ∧ c.toNat ≤ 70 then some ⟨c.toNat - 55, by omega⟩
  else if h : 97 ≤ c.toNat ∧ c.toNat ≤ 102 then some ⟨c.toNat - 87, by omega⟩
  else none

def Digit.toChar (d : Digit) : Char :=
  if d.val < 10 then Char.ofNat (48 + d.val) else Char.ofNat (87 + d.val)

/-- The two digits of a byte. -/
def ofByte (b : UInt8) : List Char :=
  [Digit.toChar (Fin.ofNat 16 (b.toNat / 16)), Digit.toChar (Fin.ofNat 16 b.toNat)]

def ofBytes (bs : List UInt8) : List Char := bs.flatMap ofByte

theorem Digit.ofChar?_toChar (d : Digit) : Digit.ofChar? d.toChar = some d := by
  revert d; decide

end SpawnGate.Hex
