/-!
The inside of a JSON string literal: characters written as themselves or by a short escape, and
UTF-16 code units written as four hexadecimal digits. Code units pair up only when the literal is
read as text.
-/

namespace SpawnGate.Json

inductive Symbol where
  | plain (c : Char)
  | unit (code : Fin 0x10000)
deriving DecidableEq, Repr

def isHighSurrogate (n : Nat) : Bool := 0xD800 ≤ n && n ≤ 0xDBFF

def isLowSurrogate (n : Nat) : Bool := 0xDC00 ≤ n && n ≤ 0xDFFF

def joinSurrogates (high low : Nat) : Char :=
  Char.ofNat (0x10000 + (high - 0xD800) * 0x400 + (low - 0xDC00))

/-- The text of a literal, unless a surrogate stands alone. -/
def decode? : List Symbol → Option (List Char)
  | [] => some []
  | .plain c :: r => (c :: ·) <$> decode? r
  | .unit h :: r =>
    if isHighSurrogate h then
      match r with
      | .unit l :: r => if isLowSurrogate l then (joinSurrogates h l :: ·) <$> decode? r else none
      | _ => none
    else if isLowSurrogate h then none
    else (Char.ofNat h :: ·) <$> decode? r

def text? (s : List Symbol) : Option String :=
  String.ofList <$> decode? s

/-- The character that a one-letter escape stands for. -/
def shortEscape? : Char → Option Char
  | '"' => some '"'
  | '\\' => some '\\'
  | '/' => some '/'
  | 'b' => some '\x08'
  | 'f' => some '\x0c'
  | 'n' => some '\n'
  | 'r' => some '\r'
  | 't' => some '\t'
  | _ => none

end SpawnGate.Json
