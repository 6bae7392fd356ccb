/-!
File paths as text, and the steps that they lead through.
-/

namespace SpawnGate

namespace Path

/-- An absolute right side stands alone; nothing is normalised. -/
def join (base rest : String) : String :=
  if rest.startsWith "/" then rest
  else if base = "" ∨ base.endsWith "/" then base ++ rest
  else base ++ "/" ++ rest

inductive Step where
  | up
  | name (s : String)
deriving DecidableEq, Repr

def greatestNameSize : Nat := 255

def Step.fits : Step → Bool
  | up => true
  | name s => s.utf8ByteSize ≤ greatestNameSize

/-- A name must not hold a null character. -/
def Step.isLegal : Step → Bool
  | up => true
  | name s => !s.toList.contains '\x00'

/-- The parts of a text between slashes. -/
def split : List Char → List (List Char)
  | [] => [[]]
  | c :: r =>
    if c = '/' then [] :: split r
    else
      match split r with
      | [] => [[c]]
      | p :: ps => (c :: p) :: ps

def step? (part : String) : Option Step :=
  if part = "" ∨ part = "." then none
  else if part = ".." then some .up
  else some (.name part)

end Path

structure Path where
  /-- The text between slashes. -/
  parts : List String
deriving DecidableEq, Repr

namespace Path

def ofText (s : String) : Path := ⟨(split s.toList).map String.ofList⟩

def isAbsolute (p : Path) : Bool :=
  match p.parts with
  | "" :: _ :: _ => true
  | _ => false

def steps (p : Path) : List Step := p.parts.filterMap step?

/-- The text ends in a slash or a dot, so only a directory can be meant. -/
def asksDirectory (p : Path) : Bool :=
  p.parts.getLast?.all fun part => (part = "" ∨ part = ".")

/-- The path up to the last part that is a step, and no slash or dot after it. -/
def parent (p : Path) : Path :=
  let isNoStep (part : String) : Bool := (step? part).isNone
  ⟨(((p.parts.reverse.dropWhile isNoStep).drop 1).dropWhile isNoStep).reverse⟩

/-- The bytes of the text. -/
def size (p : Path) : Nat :=
  p.parts.foldl (· + ·.utf8ByteSize) (p.parts.length - 1)

def sizeLimit : Nat := 4096

/-- A longer text leads nowhere, whatever its steps are. -/
def isShort (p : Path) : Bool := p.size < sizeLimit

theorem filterMap_dropWhile (ps : List String) :
    (ps.dropWhile fun part => (step? part).isNone).filterMap step? = ps.filterMap step? := by
  induction ps with
  | nil => rfl
  | cons part ps ih =>
    cases h : step? part with
    | none => simp [h, ih]
    | some s => simp [h]

theorem filterMap_tail (ps : List String) :
    ((ps.dropWhile fun part => (step? part).isNone).drop 1).filterMap step? =
      (ps.filterMap step?).drop 1 := by
  induction ps with
  | nil => rfl
  | cons part ps ih =>
    cases h : step? part with
    | none => simpa [h] using ih
    | some s => simp [h]

theorem steps_parent (p : Path) : p.parent.steps = p.steps.dropLast := by
  simp only [parent, steps, List.filterMap_reverse]
  rw [filterMap_dropWhile, filterMap_tail, List.filterMap_reverse]
  simp

end Path

end SpawnGate
