import SpawnGate.Json.Tree
import SpawnGate.Json.Number

/-!
JSON values. An object keeps its members sorted by key, and of two members with one key the later
stays. A tree is read as a value only if its nesting has room, its numbers are in range and its
strings are texts.
-/

namespace SpawnGate.Json

namespace Members

variable {α : Type}

/-- Sets a key in members that are sorted by key. -/
def put (k : String) (v : α) : List (String × α) → List (String × α)
  | [] => [(k, v)]
  | (k', v') :: r =>
    if k = k' then (k, v) :: r
    else if k < k' then (k, v) :: (k', v') :: r
    else (k', v') :: put k v r

def ofList (members : List (String × α)) : List (String × α) :=
  members.foldl (fun sorted m => put m.1 m.2 sorted) []

def erase (k : String) (members : List (String × α)) : List (String × α) :=
  members.filter fun m => m.1 ≠ k

def get? (k : String) (members : List (String × α)) : Option α :=
  (members.find? (·.1 = k)).map (·.2)

theorem get?_put (k k' : String) (v : α) (members : List (String × α)) :
    get? k' (put k v members) = if k = k' then some v else get? k' members := by
  induction members with
  | nil => by_cases h : k = k' <;> simp [put, get?, h]
  | cons m r ih =>
    obtain ⟨l, w⟩ := m
    simp only [get?] at ih
    by_cases hl : k = l
    · subst hl
      by_cases h : k = k' <;> simp [put, get?, h]
    · by_cases hlt : k < l
      · by_cases h : k = k'
        · subst h; simp [put, get?, hl, hlt]
        · simp [put, get?, hl, hlt, h]
      · by_cases hw : l = k'
        · subst hw
          simp [put, get?, hl, hlt]
        · simp [put, get?, hl, hlt, hw, ih]

end Members

inductive Value where
  | null
  | boolean (b : Bool)
  | number (n : Number)
  | string (s : String)
  | array (items : List Value)
  | object (members : List (String × Value))
deriving BEq, Repr, Inhabited

namespace Value

/-- The deepest nesting of arrays and objects in a value that is read. -/
def greatestDepth : Nat := 127

mutual

/-- Reads a tree as a value with room for so many levels of arrays and objects. -/
def ofTree? (room : Nat) : Tree → Option Value
  | .null => some .null
  | .boolean b => some (.boolean b)
  | .number n => .number <$> Number.ofNumeral? n
  | .string s => .string <$> text? s
  | .array items =>
    match room with
    | 0 => none
    | room + 1 => .array <$> ofItems? room items
  | .object members =>
    match room with
    | 0 => none
    | room + 1 => (.object ∘ Members.ofList) <$> ofMembers? room members

def ofItems? (room : Nat) : List Tree → Option (List Value)
  | [] => some []
  | t :: r => do
    let v ← ofTree? room t
    return v :: (← ofItems? room r)

def ofMembers? (room : Nat) : List (List Symbol × Tree) → Option (List (String × Value))
  | [] => some []
  | (k, t) :: r => do
    let key ← text? k
    let v ← ofTree? room t
    return (key, v) :: (← ofMembers? room r)

end

/-- Reads a whole text. -/
def ofText? (s : String) : Option Value :=
  (Tree.ofText? s).bind (ofTree? greatestDepth)

def isNull : Value → Bool
  | .null => true
  | _ => false

def isObject : Value → Bool
  | .object _ => true
  | _ => false

/-- The member with a key; a value other than an object has none. -/
def get? (k : String) : Value → Option Value
  | .object members => Members.get? k members
  | _ => none

def string? : Value → Option String
  | .string s => some s
  | _ => none

end Value

end SpawnGate.Json
