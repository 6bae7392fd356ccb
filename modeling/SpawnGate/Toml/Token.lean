import SpawnGate.Hex

/-!
TOML tokens, scanned one character at a time. Strings are read to their text here; what an unquoted
word means depends on where it stands.
-/

namespace SpawnGate.Toml

inductive Token where
  | blank (cs : List Char)
  | comment
  | newline
  | dot
  | equals
  | comma
  | openBracket
  | closeBracket
  | openBrace
  | closeBrace
  | word (cs : List Char)
  | string (multiline : Bool) (cs : List Char)
deriving DecidableEq, Repr

namespace Token

def mark? : Char → Option Token
  | '.' => some .dot
  | '=' => some .equals
  | ',' => some .comma
  | '[' => some .openBracket
  | ']' => some .closeBracket
  | '{' => some .openBrace
  | '}' => some .closeBrace
  | '\n' => some .newline
  | _ => none

def isSpace (c : Char) : Bool := c == ' ' || c == '\t'

/-- Characters that stand for themselves in comments and strings. -/
def isTextChar (c : Char) : Bool := c == '\t' || (0x20 ≤ c.toNat && c.toNat != 0x7F)

def endsWord (c : Char) : Bool := isSpace c || c == '#' || c == '\r' || (mark? c).isSome

/-- How a string is quoted. -/
structure Quoting where
  mark : Char
  multiline : Bool
deriving DecidableEq, Repr

def Quoting.hasEscapes (q : Quoting) : Bool := q.mark == '"'

inductive Escape where
  | char (c : Char)
  /-- A character's code in so many hexadecimal digits. -/
  | code (digits : Nat)
deriving DecidableEq, Repr

def escape? : Char → Option Escape
  | 'b' => some (.char '\x08')
  | 't' => some (.char '\t')
  | 'n' => some (.char '\n')
  | 'f' => some (.char '\x0c')
  | 'r' => some (.char '\r')
  | 'e' => some (.char '\x1b')
  | '"' => some (.char '"')
  | '\\' => some (.char '\\')
  | 'x' => some (.code 2)
  | 'u' => some (.code 4)
  | 'U' => some (.code 8)
  | _ => none

/-- What the scanner is inside of; the characters so far are kept latest first. -/
inductive Mode where
  | between
  | blank (seen : List Char)
  | comment
  /-- After a carriage return, which a newline must follow. -/
  | carriage
  | word (seen : List Char)
  /-- After one or two quotation marks. -/
  | opening (mark : Char) (second : Bool)
  /-- At the start of a multi-line string, where a newline is dropped. -/
  | first (q : Quoting) (carriage : Bool)
  /-- In a string, after so many quotation marks. -/
  | inside (q : Quoting) (seen : List Char) (marks : Nat)
  | insideCarriage (q : Quoting) (seen : List Char)
  | escape (q : Quoting) (seen : List Char)
  | code (q : Quoting) (seen : List Char) (left value : Nat)
  /-- After a backslash at the end of a line: blanks and newlines are dropped. -/
  | joining (q : Quoting) (seen : List Char) (crossed carriage : Bool)
deriving DecidableEq, Repr

structure Scanner where
  mode : Mode
  /-- Latest first. -/
  tokens : List Token
deriving DecidableEq, Repr

namespace Scanner

def start : Scanner := ⟨.between, []⟩

/-- A character between tokens. -/
def enter (tokens : List Token) (c : Char) : Scanner :=
  if isSpace c then ⟨.blank [c], tokens⟩
  else if c = '#' then ⟨.comment, tokens⟩
  else if c = '\r' then ⟨.carriage, tokens⟩
  else if c = '"' ∨ c = '\'' then ⟨.opening c false, tokens⟩
  else
    match mark? c with
    | some t => ⟨.between, t :: tokens⟩
    | none => ⟨.word [c], tokens⟩

def insideLine (q : Quoting) (seen : List Char) (tokens : List Token) (c : Char) : Option Scanner :=
  if c = q.mark then some ⟨.between, .string false seen.reverse :: tokens⟩
  else if c = '\\' ∧ q.hasEscapes then some ⟨.escape q seen, tokens⟩
  else if isTextChar c then some ⟨.inside q (c :: seen) 0, tokens⟩
  else none

/-- At most two quotation marks may stand before the three that close a multi-line string. -/
def insideLines (q : Quoting) (seen : List Char) (marks : Nat) (tokens : List Token) (c : Char) :
    Option Scanner :=
  let closed (extra : Nat) := Token.string true (List.replicate extra q.mark ++ seen).reverse
  let kept := List.replicate marks q.mark ++ seen
  if c = q.mark then
    if marks = 4 then some ⟨.between, closed 2 :: tokens⟩
    else some ⟨.inside q seen (marks + 1), tokens⟩
  else if 3 ≤ marks then some (enter (closed (marks - 3) :: tokens) c)
  else if c = '\\' ∧ q.hasEscapes then some ⟨.escape q kept, tokens⟩
  else if c = '\r' then some ⟨.insideCarriage q kept, tokens⟩
  else if c = '\n' ∨ isTextChar c then some ⟨.inside q (c :: kept) 0, tokens⟩
  else none

def insideString (q : Quoting) (seen : List Char) (marks : Nat) (tokens : List Token) (c : Char) :
    Option Scanner :=
  if q.multiline then insideLines q seen marks tokens c else insideLine q seen tokens c

def scalar? (n : Nat) : Option Char :=
  if n.isValidChar then some (Char.ofNat n) else none

def step (s : Scanner) (c : Char) : Option Scanner :=
  match s.mode with
  | .between => some (enter s.tokens c)
  | .blank seen =>
    if isSpace c then some { s with mode := .blank (c :: seen) }
    else some (enter (.blank seen.reverse :: s.tokens) c)
  | .comment =>
    if c = '\n' ∨ c = '\r' then some (enter (.comment :: s.tokens) c)
    else if isTextChar c then some s
    else none
  | .carriage => if c = '\n' then some ⟨.between, .newline :: s.tokens⟩ else none
  | .word seen =>
    if endsWord c then some (enter (.word seen.reverse :: s.tokens) c)
    else some { s with mode := .word (c :: seen) }
  | .opening mark false =>
    if c = mark then some { s with mode := .opening mark true }
    else insideString ⟨mark, false⟩ [] 0 s.tokens c
  | .opening mark true =>
    if c = mark then some { s with mode := .first ⟨mark, true⟩ false }
    else some (enter (.string false [] :: s.tokens) c)
  | .first q true => if c = '\n' then some { s with mode := .inside q [] 0 } else none
  | .first q false =>
    if c = '\n' then some { s with mode := .inside q [] 0 }
    else if c = '\r' then some { s with mode := .first q true }
    else insideString q [] 0 s.tokens c
  | .inside q seen marks => insideString q seen marks s.tokens c
  | .insideCarriage q seen =>
    if c = '\n' then some { s with mode := .inside q ('\n' :: '\r' :: seen) 0 } else none
  | .escape q seen =>
    if q.multiline ∧ (isSpace c ∨ c = '\n' ∨ c = '\r') then
      some { s with mode := .joining q seen (c = '\n') (c = '\r') }
    else
      (escape? c).map fun
        | .char e => { s with mode := .inside q (e :: seen) 0 }
        | .code digits => { s with mode := .code q seen digits 0 }
  | .code q seen left value => do
    let d ← Hex.Digit.ofChar? c
    let value := value * 16 + d.val
    if left ≤ 1 then
      let e ← scalar? value
      some { s with mode := .inside q (e :: seen) 0 }
    else some { s with mode := .code q seen (left - 1) value }
  | .joining q seen _ true =>
    if c = '\n' then some { s with mode := .joining q seen true false } else none
  | .joining q seen crossed false =>
    if isSpace c then some s
    else if c = '\n' then some { s with mode := .joining q seen true false }
    else if c = '\r' then some { s with mode := .joining q seen crossed true }
    else if crossed then insideString q seen 0 s.tokens c
    else none

/-- The end of the text. -/
def finish (s : Scanner) : Option (List Token) :=
  match s.mode with
  | .between => some s.tokens.reverse
  | .blank seen => some (.blank seen.reverse :: s.tokens).reverse
  | .comment => some (.comment :: s.tokens).reverse
  | .word seen => some (.word seen.reverse :: s.tokens).reverse
  | .opening _ true => some (.string false [] :: s.tokens).reverse
  | .inside q seen marks =>
    if q.multiline ∧ 3 ≤ marks then
      some (.string true (List.replicate (marks - 3) q.mark ++ seen).reverse :: s.tokens).reverse
    else none
  | _ => none

end Scanner

/-- The tokens of a text, after a byte order mark if it has one. -/
def scan (cs : List Char) : Option (List Token) :=
  let body := match cs with
    | '\uFEFF' :: r => r
    | r => r
  (body.foldlM Scanner.step Scanner.start).bind Scanner.finish

end Token

end SpawnGate.Toml
