import SpawnGate.Toml.Scalar

/-!
TOML values as a tree that remembers how each table came about, because that decides what may be
added to it later.
-/

namespace SpawnGate.Toml

inductive Origin where
  /-- Opened by its own header. -/
  | header
  /-- Named on the way to a header's table. -/
  | implied
  /-- Named on the way to a dotted key. -/
  | dotted
  /-- Written in braces. -/
  | inline
deriving DecidableEq, Repr

inductive Node where
  | scalar (s : Scalar)
  | array (items : List Node)
  | table (origin : Origin) (entries : List (String × Node))
  /-- An array of tables that headers append to, latest first. -/
  | tables (elements : List Node)
deriving Repr, Inhabited

abbrev Entries := List (String × Node)

namespace Entries

/-- Changes what one key has, or adds the key. -/
def update (k : String) (f : Option Node → Option Node) : Entries → Option Entries
  | [] => do
    let n ← f none
    return [(k, n)]
  | (k', n) :: r =>
    if k = k' then do
      let n ← f (some n)
      return (k', n) :: r
    else do
      let r ← update k f r
      return (k', n) :: r

def get? (k : String) (es : Entries) : Option Node :=
  (es.find? (·.1 = k)).map (·.2)

/-- Sets a dotted key that is not set yet. Only a table that dotted keys made takes a new key. -/
def assign : List String → Node → Entries → Option Entries
  | [], _, _ => none
  | [k], v, es =>
    es.update k fun
      | none => some v
      | some _ => none
  | k :: k' :: ks, v, es =>
    es.update k fun
      | none => .table .dotted <$> assign (k' :: ks) v []
      | some (.table .dotted inner) => .table .dotted <$> assign (k' :: ks) v inner
      | some (.table .implied inner) =>
        if ks.isEmpty then none else .table .implied <$> assign (k' :: ks) v inner
      | some (.tables (.table origin inner :: r)) =>
        if ks.isEmpty then none
        else (fun inner => .tables (.table origin inner :: r)) <$> assign (k' :: ks) v inner
      | _ => none

/-- Changes the table at a path of headers; of an array of tables, the latest. -/
def within : List String → (Entries → Option Entries) → Entries → Option Entries
  | [], f, es => f es
  | k :: ks, f, es =>
    es.update k fun
      | none => .table .implied <$> within ks f []
      | some (.table .inline _) => none
      | some (.table origin inner) => .table origin <$> within ks f inner
      | some (.tables (.table origin inner :: r)) =>
        (fun inner => .tables (.table origin inner :: r)) <$> within ks f inner
      | _ => none

def openTable : Option Node → Option Node
  | none => some (.table .header [])
  | some (.table .implied inner) => some (.table .header inner)
  | _ => none

def openElement : Option Node → Option Node
  | none => some (.tables [.table .header []])
  | some (.tables elements) => some (.tables (.table .header [] :: elements))
  | _ => none

end Entries

namespace Node

mutual

/-- All numbers in the tree are in range. -/
def isReadable : Node → Bool
  | .scalar s => s.isReadable
  | .array items => areReadable items
  | .table _ entries => haveReadable entries
  | .tables elements => areReadable elements

def areReadable : List Node → Bool
  | [] => true
  | n :: r => isReadable n && areReadable r

def haveReadable : List (String × Node) → Bool
  | [] => true
  | (_, n) :: r => isReadable n && haveReadable r

end

end Node

end SpawnGate.Toml
