import SpawnGate.Hex
import SpawnGate.Json.Value

/-!
Compact JSON text of values and of records, whose members keep the order they are given in.
-/

namespace SpawnGate.Json

def escapeChar (c : Char) : List Char :=
  if c = '"' then ['\\', '"']
  else if c = '\\' then ['\\', '\\']
  else if c = '\x08' then ['\\', 'b']
  else if c = '\x0c' then ['\\', 'f']
  else if c = '\n' then ['\\', 'n']
  else if c = '\r' then ['\\', 'r']
  else if c = '\t' then ['\\', 't']
  else if c.toNat < 0x20 then '\\' :: 'u' :: '0' :: '0' :: Hex.ofByte (UInt8.ofNat c.toNat)
  else [c]

def quote (s : String) : List Char :=
  '"' :: s.toList.flatMap escapeChar ++ ['"']

/-- Texts with commas between them. -/
def commaSeparated : List (List Char) → List Char
  | [] => []
  | [x] => x
  | x :: y :: r => x ++ ',' :: commaSeparated (y :: r)

mutual

def Value.chars : Value → List Char
  | .null => ['n', 'u', 'l', 'l']
  | .boolean true => ['t', 'r', 'u', 'e']
  | .boolean false => ['f', 'a', 'l', 's', 'e']
  | .number n => n.chars
  | .string s => quote s
  | .array items => '[' :: commaSeparated (itemChars items) ++ [']']
  | .object members => '{' :: commaSeparated (memberChars members) ++ ['}']

def itemChars : List Value → List (List Char)
  | [] => []
  | v :: r => v.chars :: itemChars r

def memberChars : List (String × Value) → List (List Char)
  | [] => []
  | (k, v) :: r => (quote k ++ ':' :: v.chars) :: memberChars r

end

def Value.text (v : Value) : String :=
  String.ofList v.chars

/-- An object's text with its members in the order given. -/
def recordText (members : List (String × Value)) : String :=
  String.ofList ('{' :: commaSeparated (memberChars members) ++ ['}'])

end SpawnGate.Json
