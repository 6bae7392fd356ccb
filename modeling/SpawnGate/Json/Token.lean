import SpawnGate.Hex
import SpawnGate.Json.Symbol
import SpawnGate.Json.Numeral

/-!
JSON tokens, scanned one character at a time. Only form is checked here: the size of a number and
the pairing of surrogates are not.
-/

namespace SpawnGate.Json

inductive Token where
  | openArray
  | closeArray
  | openObject
  | closeObject
  | comma
  | colon
  | null
  | boolean (b : Bool)
  | number (n : Numeral)
  | string (s : List Symbol)
deriving DecidableEq, Repr

namespace Token

def isSpace (c : Char) : Bool := c == ' ' || c == '\t' || c == '\n' || c == '\r'

def mark? : Char → Option Token
  | '[' => some .openArray
  | ']' => some .closeArray
  | '{' => some .openObject
  | '}' => some .closeObject
  | ',' => some .comma
  | ':' => some .colon
  | _ => none

def word? (cs : List Char) : Option Token :=
  if cs = ['n', 'u', 'l', 'l'] then some .null
  else if cs = ['t', 'r', 'u', 'e'] then some (.boolean true)
  else if cs = ['f', 'a', 'l', 's', 'e'] then some (.boolean false)
  else none

/-- What the scanner is inside of; the characters so far are kept latest first. -/
inductive Mode where
  | between
  | word (seen : List Char)
  | numeral (seen : List Char)
  | string (seen : List Symbol)
  | escape (seen : List Symbol)
  | unit (seen : List Symbol) (digits : List (Fin 16))
deriving DecidableEq, Repr

structure Scanner where
  mode : Mode
  /-- Latest first. -/
  tokens : List Token
deriving DecidableEq, Repr

namespace Scanner

def start : Scanner := ⟨.between, []⟩

/-- A character between tokens. -/
def enter (tokens : List Token) (c : Char) : Option Scanner :=
  if isSpace c then some ⟨.between, tokens⟩
  else if c = '"' then some ⟨.string [], tokens⟩
  else if c.isLower then some ⟨.word [c], tokens⟩
  else if c = '-' ∨ (Decimal.Digit.ofChar? c).isSome then some ⟨.numeral [c], tokens⟩
  else (mark? c).map fun t => ⟨.between, t :: tokens⟩

def fourDigits (a b c d : Fin 16) : Fin 0x10000 :=
  ⟨((a.val * 16 + b.val) * 16 + c.val) * 16 + d.val, by omega⟩

def step (s : Scanner) (c : Char) : Option Scanner :=
  match s.mode with
  | .between => enter s.tokens c
  | .word seen =>
    if c.isLower then some { s with mode := .word (c :: seen) }
    else (word? seen.reverse).bind fun t => enter (t :: s.tokens) c
  | .numeral seen =>
    if Numeral.isNumeralChar c then some { s with mode := .numeral (c :: seen) }
    else (Numeral.ofChars? seen.reverse).bind fun n => enter (.number n :: s.tokens) c
  | .string seen =>
    if c = '"' then some ⟨.between, .string seen.reverse :: s.tokens⟩
    else if c = '\\' then some { s with mode := .escape seen }
    else if c.toNat < 0x20 then none
    else some { s with mode := .string (.plain c :: seen) }
  | .escape seen =>
    if c = 'u' then some { s with mode := .unit seen [] }
    else (shortEscape? c).map fun e => { s with mode := .string (.plain e :: seen) }
  | .unit seen digits =>
    (Hex.Digit.ofChar? c).map fun d =>
      match digits with
      | [x, y, z] => { s with mode := .string (.unit (fourDigits z y x d) :: seen) }
      | ds => { s with mode := .unit seen (d :: ds) }

/-- The end of the text. -/
def finish (s : Scanner) : Option (List Token) :=
  match s.mode with
  | .between => some s.tokens.reverse
  | .word seen => (word? seen.reverse).map fun t => (t :: s.tokens).reverse
  | .numeral seen => (Numeral.ofChars? seen.reverse).map fun n => (.number n :: s.tokens).reverse
  | _ => none

end Scanner

def scan (cs : List Char) : Option (List Token) :=
  (cs.foldlM Scanner.step Scanner.start).bind Scanner.finish

end Token

end SpawnGate.Json
