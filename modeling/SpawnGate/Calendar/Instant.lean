import SpawnGate.Calendar.Date
import SpawnGate.Decimal.Digits
import SpawnGate.Text.Blank

/-!
Instants in coordinated universal time and their text. The reader is lenient about the separator,
about blanks before a field and about the offset; the writer has one form.
-/

namespace SpawnGate.Calendar

open Decimal

structure Instant where
  date : Date
  /-- Seconds since midnight. -/
  second : Nat
  /-- A billion or more in a leap second, which stands after the second that it follows. -/
  nano : Nat
deriving DecidableEq, Repr

namespace Instant

def billion : Nat := 1000000000

def secondsPerDay : Nat := 86400

def ofUnixSeconds (n : Nat) : Instant :=
  ⟨Date.ofEpochDay (n / secondsPerDay), n % secondsPerDay, 0⟩

def padded (width n : Nat) : List Char :=
  let ds := text (digits n)
  List.replicate (width - ds.length) '0' ++ ds

def yearChars (year : Int) : List Char :=
  if 0 ≤ year ∧ year ≤ 9999 then padded 4 year.toNat
  else (if year < 0 then '-' else '+') :: padded 4 year.natAbs

/-- The least of no, three, six and nine digits that loses nothing. -/
def fractionChars (nano : Nat) : List Char :=
  if nano = 0 then []
  else if nano % 1000000 = 0 then '.' :: padded 3 (nano / 1000000)
  else if nano % 1000 = 0 then '.' :: padded 6 (nano / 1000)
  else '.' :: padded 9 nano

def chars (t : Instant) : List Char :=
  let leap := t.nano / billion
  yearChars t.date.year ++ '-' :: padded 2 t.date.month ++ '-' :: padded 2 t.date.day ++
    'T' :: padded 2 (t.second / 3600) ++ ':' :: padded 2 (t.second / 60 % 60) ++
    ':' :: padded 2 (t.second % 60 + leap) ++ fractionChars (t.nano % billion) ++ ['Z']

def write (t : Instant) : String :=
  String.ofList t.chars

abbrev Reader := StateT (List Char) Option

namespace Reader

def blanks : Reader Unit := modify (·.dropWhile Text.isBlank)

def next : Reader Char := do
  match ← get with
  | [] => failure
  | c :: r => set r; return c

def exactly (c : Char) : Reader Unit := do
  if (← next) ≠ c then failure

/-- At most so many digits. -/
def leadingUpTo : Nat → List Char → List Digit × List Char
  | 0, cs => ([], cs)
  | _ + 1, [] => ([], [])
  | n + 1, c :: cs =>
    match Digit.ofChar? c with
    | some d => (d :: (leadingUpTo n cs).1, (leadingUpTo n cs).2)
    | none => ([], c :: cs)

def digitsUpTo (width : Nat) : Reader (List Digit) := do
  let (ds, r) := leadingUpTo width (← get)
  if ds.isEmpty then failure
  set r
  return ds

def allDigits : Reader (List Digit) := do
  let (ds, r) := leading (← get)
  if ds.isEmpty then failure
  set r
  return ds

/-- A field of at most so many digits, with blanks before it. -/
def field (width : Nat) : Reader Nat := do
  blanks
  return ofDigits (← digitsUpTo width)

/-- Four digits at most, or any number of them after a sign. -/
def year : Reader Int := do
  blanks
  match ← get with
  | '-' :: r => set r; return -(ofDigits (← allDigits))
  | '+' :: r => set r; return ofDigits (← allDigits)
  | _ => return ofDigits (← digitsUpTo 4)

/-- A mark with blanks before it. -/
def mark (c : Char) : Reader Unit := do
  blanks
  exactly c

def separator : Reader Unit := do
  let c ← next
  if c ≠ 't' ∧ c ≠ 'T' ∧ c ≠ ' ' then failure

/-- The fraction of a second in billionths; digits past the ninth are dropped. -/
def fraction : Reader Nat := do
  match ← get with
  | '.' :: r =>
    set r
    let ds ← digitsUpTo 9
    modify fun r => (leading r).2
    return ofDigits ds * Nat.pow 10 (9 - ds.length)
  | _ => return 0

/-- Exactly two digits. -/
def pair : Reader Nat := do
  let ds ← digitsUpTo 2
  if ds.length ≠ 2 then failure
  return ofDigits ds

/-- The offset from universal time in seconds: `UTC`, `Z`, or a sign, hours and minutes. -/
def offset : Reader Int := do
  match ← get with
  | u :: t :: c :: r =>
    if [u, t, c].map Char.toLower = ['u', 't', 'c'] then
      set r
      return 0
  | _ => pure ()
  let sign ← next
  if sign = 'z' ∨ sign = 'Z' then return 0
  if sign ≠ '+' ∧ sign ≠ '-' ∧ sign ≠ '\u2212' then failure
  let hours ← pair
  modify (·.dropWhile fun c => c = ':' || Text.isBlank c)
  let minutes ← pair
  if 59 < minutes ∨ 23 < hours then failure
  let seconds : Int := hours * 3600 + minutes * 60
  return if sign = '+' then seconds else -seconds

end Reader

/-- The instant of a local date and time at an offset. -/
def ofLocal (date : Date) (second nano : Nat) (offset : Int) : Instant :=
  let utc : Int := second - offset
  if utc < 0 then ⟨date.previous, (utc + secondsPerDay).toNat, nano⟩
  else if secondsPerDay ≤ utc then ⟨date.next, (utc - secondsPerDay).toNat, nano⟩
  else ⟨date, utc.toNat, nano⟩

open Reader in
def reader : Reader Instant := do
  let year ← year
  mark '-'
  let month ← field 2
  mark '-'
  let day ← field 2
  separator
  let hour ← field 2
  mark ':'
  let minute ← field 2
  mark ':'
  let second ← field 2
  let fraction ← fraction
  blanks
  let offset ← offset
  blanks
  if !(← get).isEmpty then failure
  let date : Date := ⟨year, month, day⟩
  if ¬ date.IsValid ∨ 23 < hour ∨ 59 < minute ∨ 60 < second then failure
  let leap := second / 60
  let utc := ofLocal date (hour * 3600 + minute * 60 + (second - leap)) (fraction + leap * billion) offset
  if ¬ utc.date.IsValid then failure
  return utc

def ofText? (s : String) : Option Instant :=
  (reader.run s.toList).map (·.1)

end Instant

end SpawnGate.Calendar
