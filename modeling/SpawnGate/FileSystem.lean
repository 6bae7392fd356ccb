import SpawnGate.Path

/-!
A file system without links: files, directories and listening sockets by their location. Writing a
file creates the directories that are missing on the way to it, and these stay if the write fails.
-/

namespace SpawnGate

/-- The names from the root down. -/
abbrev Location := List String

local instance sameBytes : DecidableEq ByteArray := ByteArray.instDecidableEq

inductive Entry where
  | file (content : ByteArray)
  | directory
  | socket
deriving DecidableEq

structure FileSystem where
  entries : List (Location × Entry)

namespace FileSystem

def empty : FileSystem := ⟨[]⟩

/-- The root is always a directory. -/
def find? (fs : FileSystem) (l : Location) : Option Entry :=
  if l = [] then some .directory else (fs.entries.find? (·.1 = l)).map (·.2)

def set (fs : FileSystem) (l : Location) (e : Entry) : FileSystem :=
  ⟨(l, e) :: fs.entries.filter (·.1 ≠ l)⟩

/-- Removes a location and everything under it. -/
def remove (fs : FileSystem) (l : Location) : FileSystem :=
  ⟨fs.entries.filter fun e => !l.isPrefixOf e.1⟩

theorem find?_set (fs : FileSystem) {l : Location} (hl : l ≠ []) (l' : Location) (e : Entry) :
    (fs.set l e).find? l' = if l' = l then some e else fs.find? l' := by
  unfold find? set
  by_cases h : l' = l
  · subst h; simp [hl]
  · by_cases h' : l' = []
    · subst h'; simp [Ne.symm hl]
    · simp only [h', h, if_false, List.find?_cons, decide_eq_false (Ne.symm h)]
      congr 1
      rw [List.find?_filter]
      congr 1
      funext x
      by_cases hx : x.1 = l' <;> simp [hx, h]

theorem find?_remove (fs : FileSystem) {l l' : Location} (hl : l' ≠ []) :
    (fs.remove l).find? l' = if l.isPrefixOf l' then none else fs.find? l' := by
  unfold find? remove
  rw [if_neg hl, if_neg hl, List.find?_filter]
  by_cases h : l.isPrefixOf l' = true
  · rw [if_pos h, Option.map_eq_none_iff, List.find?_eq_none]
    intro e _
    by_cases he : e.1 = l' <;> simp_all
  · rw [if_neg h]
    congr 2
    funext e
    by_cases he : e.1 = l'
    · simp [he, Bool.eq_false_iff.mpr h]
    · simp [he]

/-- Where a step leads from a directory; above the root is the root. -/
def follow (here : Location) : Path.Step → Location
  | .up => here.dropLast
  | .name s => here ++ [s]

/-- Follows steps through directories only. -/
def walk (fs : FileSystem) : Location → List Path.Step → Option Location
  | here, [] => some here
  | here, s :: r =>
    if s.fits ∧ s.isLegal ∧ fs.find? (follow here s) = some .directory then
      walk fs (follow here s) r
    else none

def origin (p : Path) (current : Location) : Location :=
  if p.isAbsolute then [] else current

/-- The location of a path whose parents are directories. -/
def locate? (fs : FileSystem) (current : Location) (p : Path) : Option Location := do
  if ¬ p.isShort then none
  let here ← fs.walk (origin p current) p.parent.steps
  match p.steps.getLast? with
  | none => some here
  | some s => if s.fits ∧ s.isLegal then some (follow here s) else none

/-- What a path leads to; nothing if it asks for a directory and leads to anything else. -/
def entry? (fs : FileSystem) (current : Location) (p : Path) : Option Entry :=
  ((fs.locate? current p).bind fs.find?).filter fun e => !p.asksDirectory || e = .directory

/-- The content of a regular file. -/
def read? (fs : FileSystem) (current : Location) (p : Path) : Option ByteArray :=
  match fs.entry? current p with
  | some (.file content) => some content
  | _ => none

/-- Makes the directories along some steps; nothing if one cannot be made. -/
def makeDirectories (fs : FileSystem) : Location → List Path.Step → FileSystem × Option Location
  | here, [] => (fs, some here)
  | here, s :: r =>
    if ¬ s.fits then (fs, none)
    else
      match fs.find? (follow here s) with
      | some .directory => makeDirectories fs (follow here s) r
      | some _ => (fs, none)
      | none => makeDirectories (fs.set (follow here s) .directory) (follow here s) r

/-- Makes the directories above a path, then writes its file from what is there already. -/
def write (fs : FileSystem) (current : Location) (p : Path) (content : Option Entry → Option ByteArray) :
    FileSystem × Bool :=
  if ¬ p.parent.isShort ∨ ¬ p.parent.steps.all Path.Step.isLegal then (fs, false)
  else
    match fs.makeDirectories (origin p current) p.parent.steps, p.steps.getLast? with
    | (fs, some here), some (.name s) =>
      if ¬ p.isShort ∨ p.asksDirectory ∨ ¬ (Path.Step.name s).fits ∨ ¬ (Path.Step.name s).isLegal then
        (fs, false)
      else
        match content (fs.find? (here ++ [s])) with
        | some bytes => (fs.set (here ++ [s]) (.file bytes), true)
        | none => (fs, false)
    | (fs, _), _ => (fs, false)

/-- The absolute path of a new file in a path's directory, whose name is drawn but always as long as this one. -/
def siblingPath (current : Location) (p : Path) : Path :=
  ⟨"" :: (if p.isAbsolute then p.parent.parts.drop 1 else current ++ p.parent.parts) ++ [".tmpXXXXXX"]⟩

/-- A file can be made beside a path: the longer name does not make the path too long. -/
def hasRoom (current : Location) (p : Path) : Bool := (siblingPath current p).isShort

/-- The content of a replaced file: anything but a directory gives way, if there is room for the new file. -/
def replacement (room : Bool) (bytes : ByteArray) : Option Entry → Option ByteArray
  | some .directory => none
  | _ => if room then some bytes else none

theorem replacement_of_no_room (bytes : ByteArray) (e : Option Entry) : replacement false bytes e = none := by
  unfold replacement
  split <;> rfl

theorem replacement_of_room (bytes : ByteArray) {e : Option Entry} (he : e ≠ some .directory) :
    replacement true bytes e = some bytes := by
  unfold replacement
  split
  · exact absurd rfl he
  · rfl

def extension (bytes : ByteArray) : Option Entry → Option ByteArray
  | none => some bytes
  | some (.file old) => some (old ++ bytes)
  | some _ => none

/-- Replaces a file as a whole, by a new one that is made beside it. -/
def replace (fs : FileSystem) (current : Location) (p : Path) (bytes : ByteArray) : FileSystem × Bool :=
  fs.write current p (replacement (hasRoom current p) bytes)

/-- Adds to the end of a file. -/
def append (fs : FileSystem) (current : Location) (p : Path) (bytes : ByteArray) : FileSystem × Bool :=
  fs.write current p (extension bytes)

end FileSystem

end SpawnGate
