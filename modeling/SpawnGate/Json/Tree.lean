import SpawnGate.Json.Token

/-!
Syntax trees of JSON texts, built from tokens with a stack of open arrays and objects. A text has a
tree exactly when it is grammatical: no limit on depth, numbers or keys applies.
-/

namespace SpawnGate.Json

inductive Tree where
  | null
  | boolean (b : Bool)
  | number (n : Numeral)
  | string (s : List Symbol)
  | array (items : List Tree)
  | object (members : List (List Symbol × Tree))
deriving Repr

namespace Tree

/-- An open array or object, with what it holds so far latest first. -/
inductive Frame where
  | array (before : List Tree)
  | object (before : List (List Symbol × Tree)) (key : List Symbol)

/-- What the text must go on with. -/
inductive Next where
  | value
  | firstItem
  | firstKey
  | key (before : List (List Symbol × Tree))
  | colon (before : List (List Symbol × Tree)) (key : List Symbol)
  | after (t : Tree)

structure Builder where
  frames : List Frame
  next : Next

namespace Builder

def start : Builder := ⟨[], .value⟩

/-- A token where a value begins. -/
def enter (frames : List Frame) : Token → Option Builder
  | .null => some ⟨frames, .after .null⟩
  | .boolean b => some ⟨frames, .after (.boolean b)⟩
  | .number n => some ⟨frames, .after (.number n)⟩
  | .string s => some ⟨frames, .after (.string s)⟩
  | .openArray => some ⟨.array [] :: frames, .firstItem⟩
  | .openObject => some ⟨frames, .firstKey⟩
  | _ => none

def step : Builder → Token → Option Builder
  | ⟨frames, .value⟩, t => enter frames t
  | ⟨.array [] :: frames, .firstItem⟩, .closeArray => some ⟨frames, .after (.array [])⟩
  | ⟨frames, .firstItem⟩, t => enter frames t
  | ⟨frames, .firstKey⟩, .closeObject => some ⟨frames, .after (.object [])⟩
  | ⟨frames, .firstKey⟩, .string k => some ⟨frames, .colon [] k⟩
  | ⟨frames, .key before⟩, .string k => some ⟨frames, .colon before k⟩
  | ⟨frames, .colon before k⟩, .colon => some ⟨.object before k :: frames, .value⟩
  | ⟨.array before :: frames, .after v⟩, .comma => some ⟨.array (v :: before) :: frames, .value⟩
  | ⟨.array before :: frames, .after v⟩, .closeArray =>
    some ⟨frames, .after (.array (v :: before).reverse)⟩
  | ⟨.object before k :: frames, .after v⟩, .comma => some ⟨frames, .key ((k, v) :: before)⟩
  | ⟨.object before k :: frames, .after v⟩, .closeObject =>
    some ⟨frames, .after (.object ((k, v) :: before).reverse)⟩
  | _, _ => none

def finish : Builder → Option Tree
  | ⟨[], .after t⟩ => some t
  | _ => none

end Builder

def ofTokens? (ts : List Token) : Option Tree :=
  (ts.foldlM Builder.step Builder.start).bind Builder.finish

def ofChars? (cs : List Char) : Option Tree :=
  (Token.scan cs).bind ofTokens?

def ofText? (s : String) : Option Tree :=
  ofChars? s.toList

end Tree

end SpawnGate.Json
