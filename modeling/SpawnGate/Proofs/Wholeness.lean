import SpawnGate.Proofs.Unmarked
import SpawnGate.Proofs.Writes

/-!
A write comes off as a whole or not at all, whichever of its steps fails: making the directories above a path, making
and filling a new file, moving it over the old one, or adding to the end of a file.
-/

namespace SpawnGate.FileSystem

def file? (fs : FileSystem) (l : Location) : Option ByteArray :=
  match fs.find? l with
  | some (.file bytes) => some bytes
  | _ => none

/-- What may befall a new file before it is moved: it cannot be made, or not all of its bytes can be written. -/
inductive Mishap where
  | unmade
  | torn (part : ByteArray)

def makeParents (fs : FileSystem) (current : Location) (p : Path) : FileSystem × Option Location :=
  if ¬ p.parent.isShort ∨ ¬ p.parent.steps.all Path.Step.isLegal then (fs, none)
  else fs.makeDirectories (origin p current) p.parent.steps

/-- Sets out to replace a file by way of another one, which meets with a mishap; what there is of it is removed. -/
def replaceSpoilt (mishap : Mishap) (fresh : FileSystem → Location → String) (fs : FileSystem) (current : Location)
    (p : Path) : FileSystem × Bool :=
  match fs.makeParents current p with
  | (made, none) => (made, false)
  | (made, some here) =>
    match mishap with
    | .unmade => (made, false)
    | .torn part => ((made.set (here ++ [fresh made here]) (.file part)).remove (here ++ [fresh made here]), false)

/-- What a write at a path leaves: the bytes that it should, or the file as it was; and besides nothing but directories
that were missing on the way. -/
structure AllOrNothing (fs : FileSystem) (current : Location) (p : Path) (bytes : ByteArray)
    (left : FileSystem × Bool) : Prop where
  done : left.2 = true → left.1.read? current p = some bytes
  failed : left.2 = false → left.1.file? (target current p) = fs.file? (target current p)
  kept : left.2 = false → ∀ old, fs.read? current p = some old → left.1.read? current p = some old
  frame : ∀ l, left.1.find? l = fs.find? l ∨
    (fs.find? l = none ∧ left.1.find? l = some .directory ∧ l ∈ parentWay current p) ∨
    (left.2 = true ∧ l = target current p ∧ left.1.find? l = some (.file bytes))

/-- A change that goes over whatever file there is. -/
def GoesOver (content : Option Entry → Option ByteArray) : Prop :=
  ∀ old, content (some (.file old)) ≠ none

/-- A write that meets with no mishap fails only where something is in its way, and then what is read at the path is the
same as before. A write that goes over no file at all may make directories and so bring a file within reach, unless the
path leaves none again that was missing. -/
structure Undisturbed (content : Option Entry → Option ByteArray) (fs : FileSystem) (current : Location) (p : Path)
    (bytes : ByteArray) (left : FileSystem × Bool) : Prop extends AllOrNothing fs current p bytes left where
  same : GoesOver content ∨ fs.Settled current p → left.2 = false → left.1.read? current p = fs.read? current p
  fails_iff : left.2 = false ↔ Hindered content left.1 current p

theorem goesOver_replacement {room : Bool} (hroom : room = true) (bytes : ByteArray) :
    GoesOver (replacement room bytes) := by
  intro old
  rw [hroom]
  exact Option.some_ne_none bytes

theorem goesOver_extension (bytes : ByteArray) : GoesOver (extension bytes) := fun old =>
  Option.some_ne_none (old ++ bytes)

variable {fs fs' : FileSystem} {current : Location} {p : Path} {bytes : ByteArray}

theorem Grows.file?_eq {made : List Location} (h : Grows fs fs' made) (l : Location) : fs'.file? l = fs.file? l := by
  rcases h l with hsame | ⟨hnone, hdirectory, -⟩
  · rw [file?, file?, hsame]
  · rw [file?, file?, hnone, hdirectory]

theorem allOrNothing_of_grows (h : Grows fs fs' (parentWay current p)) (bytes : ByteArray) :
    AllOrNothing fs current p bytes (fs', false) where
  done := nofun
  failed _ := h.file?_eq _
  kept _ _ hold := h.read?_eq_some hold
  frame l := (h l).imp_right .inl

theorem AllOrNothing.congr {left left' : FileSystem × Bool} (h : AllOrNothing fs current p bytes left)
    (hdone : left'.2 = left.2) (hfind : ∀ l, left'.1.find? l = left.1.find? l) :
    AllOrNothing fs current p bytes left' := by
  have hread := read?_congr hfind current p
  refine ⟨?_, ?_, ?_, ?_⟩
  · rw [hdone, hread]
    exact h.done
  · rw [hdone, file?, hfind, ← file?]
    exact h.failed
  · rw [hdone, hread]
    exact h.kept
  · simp only [hdone, hfind]
    exact h.frame

theorem Undisturbed.congr {content : Option Entry → Option ByteArray} {left left' : FileSystem × Bool}
    (h : Undisturbed content fs current p bytes left) (hdone : left'.2 = left.2)
    (hfind : ∀ l, left'.1.find? l = left.1.find? l) : Undisturbed content fs current p bytes left' := by
  refine ⟨h.toAllOrNothing.congr hdone hfind, ?_, ?_⟩
  · rw [hdone, read?_congr hfind]
    exact h.same
  · simp only [hdone, Hindered, hfind]
    exact h.fails_iff

theorem grows_makeParents (fs : FileSystem) (current : Location) (p : Path) :
    Grows fs (fs.makeParents current p).1 (parentWay current p) := by
  unfold makeParents
  split
  · exact Grows.refl fs _
  · exact makeDirectories_grows fs _ _

theorem makeParents_isTree (hfs : fs.IsTree) (hcurrent : fs.find? current = some .directory) (p : Path) :
    (fs.makeParents current p).1.IsTree := by
  unfold makeParents
  split
  · exact hfs
  · exact makeDirectories_isTree hfs (find?_origin hcurrent p) _

theorem find?_replaceSpoilt (hfs : fs.IsTree) (hcurrent : fs.find? current = some .directory)
    {fresh : FileSystem → Location → String}
    (hfresh : ∀ (fs : FileSystem) here, fs.find? (here ++ [fresh fs here]) = none) (mishap : Mishap) (p : Path) :
    (fs.replaceSpoilt mishap fresh current p).2 = false ∧
      ∀ l, (fs.replaceSpoilt mishap fresh current p).1.find? l = (fs.makeParents current p).1.find? l := by
  have htree := makeParents_isTree hfs hcurrent p
  unfold replaceSpoilt
  cases hmade : fs.makeParents current p with
  | mk made here =>
    rw [hmade] at htree
    cases here with
    | none => exact ⟨rfl, fun l => rfl⟩
    | some here =>
      cases mishap with
      | unmade => exact ⟨rfl, fun l => rfl⟩
      | torn part => exact ⟨rfl, find?_remove_set htree (hfresh made here) (.file part)⟩

theorem allOrNothing_replaceSpoilt (hfs : fs.IsTree) (hcurrent : fs.find? current = some .directory)
    {fresh : FileSystem → Location → String}
    (hfresh : ∀ (fs : FileSystem) here, fs.find? (here ++ [fresh fs here]) = none) (mishap : Mishap) (p : Path)
    (bytes : ByteArray) : AllOrNothing fs current p bytes (fs.replaceSpoilt mishap fresh current p) := by
  obtain ⟨hfails, hfind⟩ := find?_replaceSpoilt hfs hcurrent hfresh mishap p
  exact (allOrNothing_of_grows (grows_makeParents fs current p) bytes).congr hfails hfind

theorem undisturbed_write (hfs : fs.IsTree) (hcurrent : fs.find? current = some .directory)
    {content : Option Entry → Option ByteArray} (hdirectory : content (some .directory) = none)
    (hagain : ∀ e new, content e = some new → content (some (.file new)) ≠ none)
    (hbytes : ∀ new, content (fs.find? (target current p)) = some new → new = bytes) :
    Undisturbed content fs current p bytes (fs.write current p content) := by
  refine ⟨?_, fun hreach hfails => ?_, write_fails_iff hdirectory hagain⟩
  case refine_2 =>
    rcases hreach with hover | hsettled
    · exact read?_write_of_fails hfs hcurrent hdirectory hover hfails
    · exact hsettled.read?_eq hfs (grows_of_write_fails hfails)
  cases hdone : (fs.write current p content).2 with
  | false =>
    have hgrows := allOrNothing_of_grows (grows_of_write_fails hdone) bytes
    exact hgrows.congr hdone fun l => rfl
  | true =>
    obtain ⟨new, hnew, -, hread⟩ := read?_of_write hdirectory hdone
    obtain rfl := hbytes new hnew
    refine ⟨fun _ => hread, ?_, ?_, fun l => ?_⟩
    · rw [hdone]
      exact nofun
    · rw [hdone]
      exact nofun
    · rcases find?_write_cases fs current p hdirectory l with hsame | hmade | ⟨rfl, written, hwritten, hat⟩
      · exact .inl hsame
      · exact .inr (.inl hmade)
      · rw [hbytes written hwritten] at hat
        exact .inr (.inr ⟨hdone, rfl, hat⟩)

theorem undisturbed_replace (hfs : fs.IsTree) (hcurrent : fs.find? current = some .directory) (p : Path)
    (bytes : ByteArray) :
    Undisturbed (replacement (hasRoom current p) bytes) fs current p bytes (fs.replace current p bytes) := by
  refine undisturbed_write hfs hcurrent rfl (fun e new hnew => ?_) fun _ hnew => (eq_of_replacement hnew).2
  exact goesOver_replacement (eq_of_replacement hnew).1 bytes new

theorem eq_of_extension {l : Location} {new : ByteArray} (h : extension bytes (fs.find? l) = some new) :
    new = (fs.file? l).getD .empty ++ bytes := by
  unfold file?
  cases hentry : fs.find? l with
  | none =>
    rw [hentry] at h
    obtain rfl := Option.some.inj h
    exact ByteArray.empty_append.symm
  | some e =>
    rw [hentry] at h
    cases e with
    | file old => exact (Option.some.inj h).symm
    | directory => cases h
    | socket => cases h

theorem undisturbed_append (hfs : fs.IsTree) (hcurrent : fs.find? current = some .directory) (p : Path)
    (bytes : ByteArray) :
    Undisturbed (extension bytes) fs current p ((fs.file? (target current p)).getD .empty ++ bytes)
      (fs.append current p bytes) :=
  undisturbed_write hfs hcurrent rfl (fun _ new _ => goesOver_extension bytes new) fun _ => eq_of_extension

def filed : FileSystem := ⟨[(["h"], .directory), (["h", "f"], .file "a\n".toUTF8)]⟩

end SpawnGate.FileSystem
