import SpawnGate.Hex
import SpawnGate.Calendar.Date
import SpawnGate.Decimal.Digits
import SpawnGate.Decimal.Binary64

/-!
Unquoted TOML scalars: booleans, integers, floats, dates and times.
-/

namespace SpawnGate.Toml

open Decimal

inductive Scalar where
  | string (s : String)
  | boolean (b : Bool)
  /-- An integer, which has no value if its digits make none. -/
  | integer (n : Option Int)
  /-- A float, of which only matters whether it is in range. -/
  | float (inRange : Bool)
  /-- A date, a time, or both. -/
  | moment
deriving DecidableEq, Repr

namespace Scalar

/-- Integers fit a signed or an unsigned 128-bit word. -/
def isReadable : Scalar → Bool
  | .integer n => n.any fun n => -(Nat.pow 2 127 : Int) ≤ n && n < Nat.pow 2 128
  | .float inRange => inRange
  | _ => true

/-- Whether each underscore follows and precedes a digit. One that comes first needs `afterDigit`. -/
def underscoresFit (isDigit : Char → Bool) (afterDigit : Bool) : List Char → Bool
  | [] => true
  | '_' :: r => afterDigit && r.head?.any isDigit && underscoresFit isDigit false r
  | c :: r => underscoresFit isDigit (isDigit c) r

def withoutUnderscores (cs : List Char) : List Char := cs.filter (· ≠ '_')

def isHexDigit (c : Char) : Bool := (Hex.Digit.ofChar? c).isSome

def radixDigit? (radix : Nat) (c : Char) : Option Nat :=
  (Hex.Digit.ofChar? c).bind fun d => if d.val < radix then some d.val else none

def radixValue? (radix : Nat) : List Nat → Option Int
  | [] => none
  | ds => some (ds.foldl (fun n d => n * radix + d) 0 : Nat)

/-- Digits may be missing after the mark of a radix. -/
def radixInteger? (radix : Nat) (cs : List Char) : Option Scalar := do
  if ¬ underscoresFit isHexDigit false cs then none
  let ds ← (withoutUnderscores cs).mapM (radixDigit? radix)
  return .integer (radixValue? radix ds)

def hasLeadingZero : List Char → Bool
  | '0' :: c :: _ => c.isDigit || c == '_'
  | _ => false

def isFloatMark (c : Char) : Bool := c == '.' || c == 'e' || c == 'E'

def exponentValue : Option (Bool × List Digit) → Int
  | none => 0
  | some (negative, ds) => if negative then -(ofDigits ds) else ofDigits ds

/-- Whether a decimal rounds to a finite magnitude. -/
def isInRange (significand : Nat) (power : Int) : Bool :=
  let top := (digits significand).length + power
  if significand = 0 ∨ top < 300 then true
  else if 320 < top then false
  else (Magnitude.round (significand * Nat.pow 10 power.toNat) (Nat.pow 10 (-power).toNat)).isSome

/-- A float without its sign and underscores. -/
def float? (cs : List Char) : Option Scalar := do
  let (whole, rest) := leading cs
  if whole.isEmpty then none
  let (fraction, rest) ← fraction? rest
  let exponent ← exponent? rest
  return .float (isInRange (ofDigits (whole ++ fraction)) (exponentValue exponent - fraction.length))

def decimalValue? (negative : Bool) (cs : List Char) : Option Int :=
  (cs.mapM Digit.ofChar?).map fun ds => if negative then -(ofDigits ds) else ofDigits ds

/-- A decimal number without its sign. An underscore after the first digits makes it an integer even
if characters follow that are no decimal digits; right after a sign, too, an underscore may stand. -/
def decimal? (hasSign negative : Bool) (cs : List Char) : Option Scalar :=
  let rest := cs.dropWhile Char.isDigit
  let bare := withoutUnderscores cs
  if cs.isEmpty || hasLeadingZero cs then none
  else if rest.any isFloatMark then
    if underscoresFit Char.isDigit hasSign cs then float? bare else none
  else if rest.head?.all (· == '_') && !rest.contains ' ' && underscoresFit isHexDigit hasSign cs then
    some (.integer (decimalValue? negative bare))
  else none

def number? (cs : List Char) : Option Scalar :=
  match cs with
  | '0' :: 'x' :: r => radixInteger? 16 r
  | '0' :: 'o' :: r => radixInteger? 8 r
  | '0' :: 'b' :: r => radixInteger? 2 r
  | _ =>
    let (negative, r) := signed cs
    if r = ['i', 'n', 'f'] ∨ r = ['n', 'a', 'n'] then some (.float true)
    else decimal? (r.length < cs.length) negative r

/-- A field of so many digits. -/
def field? (width : Nat) (cs : List Char) : Option (Nat × List Char) :=
  match (cs.take width).mapM Digit.ofChar? with
  | some ds => if ds.length = width then some (ofDigits ds, cs.drop width) else none
  | none => none

def after? (c : Char) : List Char → Option (List Char)
  | d :: r => if c = d then some r else none
  | [] => none

/-- What follows a date in the calendar. -/
def date? (cs : List Char) : Option (List Char) := do
  let (year, r) ← field? 4 cs
  let (month, r) ← field? 2 (← after? '-' r)
  let (day, r) ← field? 2 (← after? '-' r)
  if Calendar.Date.IsValid ⟨year, month, day⟩ then some r else none

def secondFraction? : List Char → Option (List Char)
  | '.' :: r => if (r.takeWhile Char.isDigit).isEmpty then none else some (r.dropWhile Char.isDigit)
  | r => some r

def seconds? : List Char → Option (List Char)
  | ':' :: r => do
    let (second, r) ← field? 2 r
    if second ≤ 60 then secondFraction? r else none
  | r => some r

/-- What follows a time of day; its seconds may be left out. -/
def time? (cs : List Char) : Option (List Char) := do
  let (hour, r) ← field? 2 cs
  let (minute, r) ← field? 2 (← after? ':' r)
  if hour ≤ 23 ∧ minute ≤ 59 then seconds? r else none

def isOffset (cs : List Char) : Bool :=
  match cs with
  | [] => true
  | [c] => c == 'Z' || c == 'z'
  | sign :: r =>
    (sign == '+' || sign == '-') && time? r == some [] && r.length == 5

def isMoment (cs : List Char) : Bool :=
  match date? cs with
  | none => time? cs == some []
  | some [] => true
  | some (c :: r) =>
    (c == 'T' || c == 't' || c == ' ') && (time? r).any isOffset

/-- Reads the whole text of an unquoted scalar. -/
def ofChars? (cs : List Char) : Option Scalar :=
  if cs = ['t', 'r', 'u', 'e'] then some (.boolean true)
  else if cs = ['f', 'a', 'l', 's', 'e'] then some (.boolean false)
  else if isMoment cs then some .moment
  else number? cs

end Scalar

end SpawnGate.Toml
