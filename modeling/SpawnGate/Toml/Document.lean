import SpawnGate.Toml.Expression

/-!
TOML documents: the root table after all headers and assignments, in order.
-/

namespace SpawnGate.Toml

/-- The root table so far, and the path of the header that is in force. -/
structure Document where
  root : Entries
  current : List String

namespace Document

def start : Document := ⟨[], []⟩

/-- Opens the last key of a path in the table that the rest leads to. -/
def openAt (f : Option Node → Option Node) (d : Document) (path : List String) : Option Document :=
  match path.getLast? with
  | none => none
  | some k => do
    let root ← Entries.within path.dropLast (Entries.update k f) d.root
    return ⟨root, path⟩

def add (d : Document) : Expression → Option Document
  | .table path => d.openAt Entries.openTable path
  | .element path => d.openAt Entries.openElement path
  | .assignment path v => do
    let root ← Entries.within d.current (Entries.assign path v) d.root
    return { d with root }

def ofExpressions? (es : List Expression) : Option Entries :=
  (es.foldlM add start).map (·.root)

/-- The root table of a text. -/
def ofText? (s : String) : Option Entries := do
  let tokens ← Token.scan s.toList
  ofExpressions? (← Expression.ofTokens? tokens)

end Document

end SpawnGate.Toml
