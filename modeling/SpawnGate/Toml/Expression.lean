import SpawnGate.Toml.Token
import SpawnGate.Toml.Node

/-!
The lines of a TOML text: headers and assignments. Values in brackets and braces are put together
from the inside out, so each closing mark meets a flat row of pieces.
-/

namespace SpawnGate.Toml

/-- A token, or a value that was written in brackets or braces. -/
inductive Piece where
  | token (t : Token)
  | value (n : Node)

inductive Expression where
  | table (path : List String)
  | element (path : List String)
  | assignment (path : List String) (v : Node)

namespace Piece

/-- The longest dotted key and the deepest nesting of brackets and braces. -/
def limit : Nat := 80

def isTrivia : Piece → Bool
  | .token (.blank _) => true
  | .token .comment => true
  | .token .newline => true
  | _ => false

def isBlank : Piece → Bool
  | .token (.blank _) => true
  | _ => false

def isEquals : Piece → Bool
  | .token .equals => true
  | _ => false

def isComma : Piece → Bool
  | .token .comma => true
  | _ => false

def trim (ps : List Piece) : List Piece :=
  ((ps.dropWhile isTrivia).reverse.dropWhile isTrivia).reverse

def isKeyChar (c : Char) : Bool := c.isAlphanum || c == '_' || c == '-'

def part? : Piece → Option String
  | .token (.word cs) => if cs.all isKeyChar then some (String.ofList cs) else none
  | .token (.string false cs) => some (String.ofList cs)
  | _ => none

def parts? : List Piece → Option (List String)
  | [p] => (fun k => [k]) <$> part? p
  | p :: .token .dot :: r => do
    let k ← part? p
    return k :: (← parts? r)
  | _ => none

def key? (ps : List Piece) : Option (List String) := do
  let ks ← parts? ((trim ps).filter fun p => !p.isBlank)
  if ks.length ≤ limit then some ks else none

/-- The text of an unquoted scalar, which may run over dots and blanks. -/
def bareText? : List Piece → Option (List Char)
  | [] => some []
  | .token (.word cs) :: r => (cs ++ ·) <$> bareText? r
  | .token (.blank cs) :: r => (cs ++ ·) <$> bareText? r
  | .token .dot :: r => ('.' :: ·) <$> bareText? r
  | _ => none

def value? (ps : List Piece) : Option Node :=
  match trim ps with
  | [.value n] => some n
  | [.token (.string _ cs)] => some (.scalar (.string (String.ofList cs)))
  | ps => .scalar <$> (bareText? ps).bind Scalar.ofChars?

def assignment? (ps : List Piece) : Option (List String × Node) := do
  let path ← key? (ps.takeWhile fun p => !p.isEquals)
  match ps.dropWhile fun p => !p.isEquals with
  | _ :: r => return (path, ← value? r)
  | [] => none

def splitCommas : List Piece → List (List Piece)
  | [] => [[]]
  | p :: r =>
    if p.isComma then [] :: splitCommas r
    else
      match splitCommas r with
      | [] => [[p]]
      | s :: ss => (p :: s) :: ss

/-- The items between commas; one comma may stand after the last. -/
def items (ps : List Piece) : List (List Piece) :=
  let segments := splitCommas ps
  match segments.getLast? with
  | some s => if (trim s).isEmpty then segments.dropLast else segments
  | none => segments

def array? (ps : List Piece) : Option Node :=
  .array <$> (items ps).mapM value?

def inlineTable? (ps : List Piece) : Option Node := do
  let assignments ← (items ps).mapM assignment?
  let entries ← assignments.foldlM (fun es a => Entries.assign a.1 a.2 es) []
  return .table .inline entries

/-- The pieces before a closing mark at the end. -/
def beforeLast? (t : Token) (ps : List Piece) : Option (List Piece) :=
  match ps.getLast? with
  | some (.token u) => if u = t then some ps.dropLast else none
  | _ => none

/-- A line without what surrounds it; an empty one has no expression. -/
def line? (ps : List Piece) : Option (Option Expression) :=
  match trim ps with
  | [] => some none
  | .token .openBracket :: .token .openBracket :: r => do
    let inner ← beforeLast? .closeBracket (← beforeLast? .closeBracket r)
    return some (.element (← key? inner))
  | .token .openBracket :: r => do
    return some (.table (← key? (← beforeLast? .closeBracket r)))
  | ps => do
    let (path, v) ← assignment? ps
    return some (.assignment path v)

/-- An open bracket or brace, with the pieces before it, latest first. -/
structure Frame where
  brace : Bool
  before : List Piece

structure Builder where
  frames : List Frame
  /-- Pieces since the innermost opening or the start of the line, latest first. -/
  pieces : List Piece
  /-- The line began with a bracket, so it is a header. -/
  heading : Bool
  /-- Latest first. -/
  expressions : List Expression

namespace Builder

def start : Builder := ⟨[], [], false, []⟩

def endLine (b : Builder) : Option Builder := do
  let found ← line? b.pieces.reverse
  return ⟨[], [], false, found.toList ++ b.expressions⟩

def push (b : Builder) (t : Token) : Builder :=
  { b with pieces := .token t :: b.pieces }

def enclose (b : Builder) (brace : Bool) : Option Builder :=
  if b.frames.length < limit then
    some { b with frames := ⟨brace, b.pieces⟩ :: b.frames, pieces := [] }
  else none

def close (b : Builder) (brace : Bool) : Option Builder :=
  match b.frames with
  | [] => none
  | f :: frames => do
    if f.brace ≠ brace then none
    let n ← if brace then inlineTable? b.pieces.reverse else array? b.pieces.reverse
    return { b with frames, pieces := .value n :: f.before }

def step (b : Builder) (t : Token) : Option Builder :=
  if b.frames.isEmpty ∧ t = .newline then b.endLine
  else if b.heading then some (b.push t)
  else if b.frames.isEmpty ∧ t = .openBracket ∧ b.pieces.all isBlank then
    some { b.push t with heading := true }
  else
    match t with
    | .openBracket => b.enclose false
    | .openBrace => b.enclose true
    | .closeBracket => b.close false
    | .closeBrace => b.close true
    | t => some (b.push t)

def finish (b : Builder) : Option (List Expression) := do
  if !b.frames.isEmpty then none
  return (← b.endLine).expressions.reverse

end Builder

end Piece

/-- The expressions of a text, in order. -/
def Expression.ofTokens? (ts : List Token) : Option (List Expression) :=
  (ts.foldlM Piece.Builder.step Piece.Builder.start).bind Piece.Builder.finish

end SpawnGate.Toml
