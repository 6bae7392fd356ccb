import SpawnGate.Json.Value

/-!
Records in JSON: an object of named fields in any order, where unknown members are passed over
unread, or an array of the fields in order. A known field must not come twice.
-/

namespace SpawnGate.Json

/-- What a record has for one field. -/
inductive Slot where
  | given (t : Tree)
  /-- An object without the field. -/
  | unnamed
  /-- An array that ends before the field. -/
  | unplaced

namespace Slot

variable {α : Type}

def required (read : Tree → Option α) : Slot → Option α
  | given t => read t
  | _ => none

/-- Reads null as no value. -/
def nullable (read : Tree → Option α) : Tree → Option (Option α)
  | .null => some none
  | t => some <$> read t

/-- A field that only an object may leave out. -/
def optional (read : Tree → Option α) : Slot → Option (Option α)
  | given t => nullable read t
  | unnamed => some none
  | unplaced => none

/-- A field that may be left out. -/
def defaulted (read : Tree → Option α) (default : α) : Slot → Option α
  | given t => read t
  | _ => some default

end Slot

/-- Every key must be a text, also those of unknown members. -/
def namedMembers? : List (List Symbol × Tree) → Option (List (String × Tree))
  | [] => some []
  | (k, t) :: r => do
    let key ← text? k
    return (key, t) :: (← namedMembers? r)

def namedSlot? (members : List (String × Tree)) (name : String) : Option Slot :=
  match members.filter (·.1 = name) with
  | [] => some .unnamed
  | [(_, t)] => some (.given t)
  | _ => none

/-- One slot for each field name, in order. -/
def slots? (names : List String) : Tree → Option (List Slot)
  | .object members => do
    let named ← namedMembers? members
    names.mapM (namedSlot? named)
  | .array items =>
    if items.length ≤ names.length then
      some (items.map .given ++ List.replicate (names.length - items.length) .unplaced)
    else none
  | _ => none

namespace Tree

def string? : Tree → Option String
  | .string s => text? s
  | _ => none

def natBelow? (limit : Nat) : Tree → Option Nat
  | .number n => n.natBelow? limit
  | _ => none

/-- The name of an alternative: a string, or an object with that one key and null. -/
def alternative? : Tree → Option String
  | .string s => text? s
  | .object [(k, .null)] => text? k
  | _ => none

end Tree

end SpawnGate.Json
