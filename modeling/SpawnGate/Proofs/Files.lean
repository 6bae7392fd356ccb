import Mathlib.Data.List.Induction
import SpawnGate.FileSystem

/-!
What reading and writing a file see and change. A path leads through a row of locations; writing it
makes directories of the missing ones and then sets its own location, and that is all it does.
-/

namespace SpawnGate.FileSystem

/-- Everything lies in a directory. -/
def IsTree (fs : FileSystem) : Prop :=
  ∀ l e, fs.find? l = some e → fs.find? l.dropLast = some .directory

/-- The locations that some steps lead through. -/
def way : Location → List Path.Step → List Location
  | _, [] => []
  | here, s :: r => follow here s :: way (follow here s) r

/-- The location that some steps end at, whether or not it is there. -/
def arrive (here : Location) (steps : List Path.Step) : Location :=
  steps.foldl follow here

def target (current : Location) (p : Path) : Location :=
  arrive (origin p current) p.steps

def parentWay (current : Location) (p : Path) : List Location :=
  way (origin p current) p.parent.steps

/-- Writing the one path may change what the other leads to: both name one location, or the other
enters a directory that is still to be made for the first and leaves it again. -/
def Aliases (fs : FileSystem) (current : Location) (p q : Path) : Prop :=
  target current p = target current q ∨
    ∃ d ∈ parentWay current p, d ∈ parentWay current q ∧ fs.find? d = none ∧ ¬ d <+: target current q

instance (fs : FileSystem) (current : Location) (p q : Path) : Decidable (Aliases fs current p q) := by
  unfold Aliases; infer_instance

/-- Some missing locations have become directories. -/
def Grows (fs fs' : FileSystem) (made : List Location) : Prop :=
  ∀ l, fs'.find? l = fs.find? l ∨ (fs.find? l = none ∧ fs'.find? l = some .directory ∧ l ∈ made)

theorem find?_root (fs : FileSystem) : fs.find? [] = some .directory := by
  simp [find?]

theorem isTree_of_entries {fs : FileSystem}
    (h : ∀ e ∈ fs.entries, fs.find? e.1.dropLast = some .directory) : fs.IsTree := by
  intro l e hl
  by_cases hroot : l = []
  · subst hroot
    exact find?_root fs
  · rw [find?, if_neg hroot, Option.map_eq_some_iff] at hl
    obtain ⟨found, hfound, -⟩ := hl
    have hl := List.find?_some hfound
    rw [decide_eq_true_eq] at hl
    rw [← hl]
    exact h found (List.mem_of_find?_eq_some hfound)

theorem Grows.refl (fs : FileSystem) (made : List Location) : Grows fs fs made :=
  fun _ => .inl rfl

theorem Grows.cons {fs fs' : FileSystem} {d : Location} {made : List Location}
    (h : Grows fs fs' made) : Grows fs fs' (d :: made) := by
  intro l
  rcases h l with hl | ⟨hn, hd, hm⟩
  · exact .inl hl
  · exact .inr ⟨hn, hd, List.mem_cons_of_mem _ hm⟩

theorem Grows.of_set {fs fs' : FileSystem} {d : Location} {made : List Location}
    (hd : fs.find? d = none) (h : Grows (fs.set d .directory) fs' made) : Grows fs fs' (d :: made) := by
  have hroot : d ≠ [] := by
    rintro rfl
    rw [find?_root] at hd
    cases hd
  intro l
  have hl := h l
  rw [find?_set fs hroot] at hl
  by_cases he : l = d
  · subst he
    simp only [if_true] at hl
    rcases hl with hl | ⟨hn, -, -⟩
    · exact .inr ⟨hd, hl, List.mem_cons_self⟩
    · cases hn
  · rw [if_neg he] at hl
    rcases hl with hl | ⟨hn, hl, hm⟩
    · exact .inl hl
    · exact .inr ⟨hn, hl, List.mem_cons_of_mem _ hm⟩

theorem Grows.keeps {fs fs' : FileSystem} {made : List Location} (h : Grows fs fs' made)
    {l : Location} {e : Entry} (hl : fs.find? l = some e) : fs'.find? l = some e := by
  rcases h l with h | ⟨hn, -, -⟩
  · rw [h, hl]
  · rw [hl] at hn
    cases hn

theorem makeDirectories_grows (fs : FileSystem) (here : Location) (steps : List Path.Step) :
    Grows fs (fs.makeDirectories here steps).1 (way here steps) := by
  induction steps generalizing fs here with
  | nil => exact Grows.refl fs _
  | cons s r ih =>
    simp only [makeDirectories, way]
    split
    · exact Grows.refl fs _
    · split
      · exact (ih fs _).cons
      · exact Grows.refl fs _
      · rename_i hn
        exact Grows.of_set hn (ih _ _)

theorem makeDirectories_arrives {fs fs' : FileSystem} {here l : Location} {steps : List Path.Step}
    (h : fs.makeDirectories here steps = (fs', some l)) : l = arrive here steps := by
  induction steps generalizing fs here with
  | nil =>
    simp only [makeDirectories, Prod.mk.injEq, Option.some.injEq] at h
    exact h.2.symm
  | cons s r ih =>
    simp only [makeDirectories] at h
    split at h
    · cases h
    · split at h
      · exact ih h
      · cases h
      · exact ih h

theorem walk_eq_some_iff (fs : FileSystem) (here l : Location) (steps : List Path.Step) :
    fs.walk here steps = some l ↔
      (∀ s ∈ steps, s.fits ∧ s.isLegal) ∧ (∀ d ∈ way here steps, fs.find? d = some .directory) ∧
        l = arrive here steps := by
  induction steps generalizing here with
  | nil =>
    simp only [walk, way, arrive, List.foldl_nil, List.not_mem_nil, false_implies, implies_true,
      true_and, Option.some.injEq]
    exact eq_comm
  | cons s r ih =>
    simp only [walk, way, arrive, List.foldl_cons, List.forall_mem_cons]
    split
    · rename_i hs
      rw [ih]
      simp only [hs, true_and, and_self, arrive]
    · rename_i hs
      constructor
      · intro h
        cases h
      · rintro ⟨⟨hs', -⟩, ⟨hd, -⟩, -⟩
        exact absurd ⟨hs'.1, hs'.2, hd⟩ hs

theorem arrive_append (here : Location) (as bs : List Path.Step) :
    arrive here (as ++ bs) = arrive (arrive here as) bs := by
  simp [arrive]

theorem way_append (here : Location) (as bs : List Path.Step) :
    way here (as ++ bs) = way here as ++ way (arrive here as) bs := by
  induction as generalizing here with
  | nil => rfl
  | cons s as ih => exact congrArg (follow here s :: ·) (ih (follow here s))

theorem target_eq_follow (current : Location) (p : Path) :
    target current p = match p.steps.getLast? with
      | none => arrive (origin p current) p.parent.steps
      | some s => follow (arrive (origin p current) p.parent.steps) s := by
  rw [Path.steps_parent]
  unfold target
  cases h : p.steps.getLast? with
  | none => rw [List.getLast?_eq_none_iff.mp h]; rfl
  | some s =>
    obtain ⟨as, has⟩ := List.getLast?_eq_some_iff.mp h
    rw [has, arrive_append, List.dropLast_concat]
    rfl

/-- Whether a path's own text allows to follow it. -/
def Passable (p : Path) : Prop :=
  p.isShort ∧ (∀ s ∈ p.parent.steps, s.fits ∧ s.isLegal) ∧ ∀ s ∈ p.steps.getLast?, s.fits ∧ s.isLegal

theorem locate?_eq_some_iff (fs : FileSystem) (current l : Location) (p : Path) :
    fs.locate? current p = some l ↔
      Passable p ∧ (∀ d ∈ parentWay current p, fs.find? d = some .directory) ∧ l = target current p := by
  unfold locate? Passable parentWay
  rw [target_eq_follow]
  by_cases hshort : p.isShort = true
  · simp only [hshort, not_true_eq_false, if_false, true_and]
    cases hw : fs.walk (origin p current) p.parent.steps with
    | none =>
      have hnone := fun l => mt (walk_eq_some_iff fs (origin p current) l p.parent.steps).mpr
        (by rw [hw]; simp)
      simp only [Option.bind_eq_bind, Option.bind_none]
      constructor
      · intro h
        cases h
      · rintro ⟨⟨hs, -⟩, hd, -⟩
        exact absurd ⟨hs, hd, rfl⟩ (hnone _)
    | some here =>
      obtain ⟨hs, hd, rfl⟩ := (walk_eq_some_iff fs _ _ _).mp hw
      cases hg : p.steps.getLast? with
      | none =>
        simp only [Option.bind_eq_bind, Option.bind_some, Option.some.injEq]
        exact ⟨fun h => ⟨⟨hs, by simp⟩, hd, h.symm⟩, fun h => h.2.2.symm⟩
      | some s =>
        simp only [Option.bind_eq_bind, Option.bind_some, Option.mem_some_iff, forall_eq']
        constructor
        · intro h
          split at h
          · rename_i hl
            exact ⟨⟨hs, hl⟩, hd, (Option.some.inj h).symm⟩
          · cases h
        · rintro ⟨⟨-, hl⟩, -, rfl⟩
          rw [if_pos hl]
  · simp [hshort]

/-- What a write leaves behind, whether or not it comes to setting the file. -/
theorem write_cases (fs : FileSystem) (current : Location) (p : Path)
    (content : Option Entry → Option ByteArray) :
    ∃ fs', Grows fs fs' (parentWay current p) ∧
      (fs.write current p content = (fs', false) ∨
        ∃ bytes, target current p ≠ [] ∧ content (fs'.find? (target current p)) = some bytes ∧
          fs.write current p content = (fs'.set (target current p) (.file bytes), true)) := by
  unfold write
  split
  · exact ⟨fs, Grows.refl fs _, .inl rfl⟩
  · have hgrows := makeDirectories_grows fs (origin p current) p.parent.steps
    refine ⟨(fs.makeDirectories (origin p current) p.parent.steps).1, hgrows, ?_⟩
    split
    · rename_i fs' here s hmade hlast
      have harrive := makeDirectories_arrives hmade
      have htarget : target current p = here ++ [s] := by
        rw [target_eq_follow, hlast, harrive]
        rfl
      rw [hmade]
      split
      · exact .inl rfl
      · split
        · rename_i bytes hbytes
          exact .inr ⟨bytes, by simp [htarget], by rw [htarget]; exact hbytes, by rw [htarget]⟩
        · exact .inl rfl
    · rename_i fs' res hmade hother
      rw [hmade]
      exact .inl rfl

theorem read?_eq_some_iff (fs : FileSystem) (current : Location) (p : Path) (bytes : ByteArray) :
    fs.read? current p = some bytes ↔
      (fs.locate? current p).bind fs.find? = some (.file bytes) ∧ p.asksDirectory = false := by
  unfold read? entry?
  cases h : (fs.locate? current p).bind fs.find? with
  | none => simp
  | some e => cases e <;> cases hd : p.asksDirectory <;> simp [Option.filter]

theorem read?_eq_some_iff_find? (fs : FileSystem) (current : Location) (p : Path) (bytes : ByteArray) :
    fs.read? current p = some bytes ↔
      Passable p ∧ p.asksDirectory = false ∧ fs.find? (target current p) = some (.file bytes) ∧
        ∀ d ∈ parentWay current p, fs.find? d = some .directory := by
  rw [read?_eq_some_iff, Option.bind_eq_some_iff]
  constructor
  · rintro ⟨⟨l, hl, hf⟩, hd⟩
    obtain ⟨hp, hway, rfl⟩ := (locate?_eq_some_iff fs current l p).mp hl
    exact ⟨hp, hd, hf, hway⟩
  · rintro ⟨hp, hd, hf, hway⟩
    exact ⟨⟨_, (locate?_eq_some_iff fs current _ p).mpr ⟨hp, hway, rfl⟩, hf⟩, hd⟩

theorem IsTree.find?_prefix {fs : FileSystem} (hfs : fs.IsTree) {d l : Location}
    (hd : d <+: l) (hmissing : fs.find? d = none) : fs.find? l = none := by
  obtain ⟨r, rfl⟩ := hd
  induction r using List.reverseRecOn with
  | nil => simpa using hmissing
  | append_singleton r s ih =>
    cases hl : fs.find? (d ++ (r ++ [s])) with
    | none => rfl
    | some e =>
      have hparent := hfs _ e hl
      rw [← List.append_assoc, List.dropLast_concat, ih] at hparent
      cases hparent

/-- One location after a write: as before, a directory that was missing on the way, or the file. -/
theorem find?_write_cases (fs : FileSystem) (current : Location) (p : Path)
    {content : Option Entry → Option ByteArray} (hcontent : content (some .directory) = none)
    (l : Location) :
    (fs.write current p content).1.find? l = fs.find? l ∨
      (fs.find? l = none ∧ (fs.write current p content).1.find? l = some .directory ∧
        l ∈ parentWay current p) ∨
      (l = target current p ∧ ∃ bytes, content (fs.find? l) = some bytes ∧
        (fs.write current p content).1.find? l = some (.file bytes)) := by
  obtain ⟨fs', hgrows, hw | ⟨bytes, hroot, hbytes, hw⟩⟩ := write_cases fs current p content
  · rw [hw]
    exact (hgrows l).imp_right .inl
  · rw [hw, find?_set fs' hroot]
    by_cases hl : l = target current p
    · subst hl
      rw [if_pos rfl]
      refine .inr (.inr ⟨rfl, bytes, ?_, rfl⟩)
      rcases hgrows (target current p) with h | ⟨-, hd, -⟩
      · rwa [h] at hbytes
      · rw [hd, hcontent] at hbytes
        cases hbytes
    · rw [if_neg hl]
      exact (hgrows l).imp_right .inl

theorem find?_file_write (fs : FileSystem) {current : Location} {p : Path}
    {content : Option Entry → Option ByteArray} (hcontent : content (some .directory) = none)
    {l : Location} (hl : l ≠ target current p) (bytes : ByteArray) :
    (fs.write current p content).1.find? l = some (.file bytes) ↔ fs.find? l = some (.file bytes) := by
  rcases find?_write_cases fs current p hcontent l with h | ⟨hn, hd, -⟩ | ⟨he, -⟩
  · rw [h]
  · simp [hn, hd]
  · exact absurd he hl

theorem find?_directory_write (fs : FileSystem) (current : Location) (p : Path)
    {content : Option Entry → Option ByteArray} (hcontent : content (some .directory) = none)
    {d : Location} (hd : fs.find? d = some .directory) :
    (fs.write current p content).1.find? d = some .directory := by
  rcases find?_write_cases fs current p hcontent d with h | ⟨hn, -⟩ | ⟨-, bytes, hbytes, -⟩
  · rw [h, hd]
  · rw [hd] at hn
    cases hn
  · rw [hd, hcontent] at hbytes
    cases hbytes

theorem directory_of_write (fs : FileSystem) {current : Location} {p : Path}
    {content : Option Entry → Option ByteArray} (hcontent : content (some .directory) = none)
    {d : Location} (hd : (fs.write current p content).1.find? d = some .directory) :
    fs.find? d = some .directory ∨ (fs.find? d = none ∧ d ∈ parentWay current p) := by
  rcases find?_write_cases fs current p hcontent d with h | ⟨hn, -, hm⟩ | ⟨-, bytes, -, hfile⟩
  · exact .inl (h ▸ hd)
  · exact .inr ⟨hn, hm⟩
  · rw [hfile] at hd
    cases hd

/-- A write changes nothing that is read at a path which it does not alias. -/
theorem read?_write {fs : FileSystem} (hfs : fs.IsTree) {current : Location} {p q : Path}
    {content : Option Entry → Option ByteArray} (hcontent : content (some .directory) = none)
    (h : ¬ fs.Aliases current p q) :
    (fs.write current p content).1.read? current q = fs.read? current q := by
  have htarget : target current q ≠ target current p := fun he => h (.inl he.symm)
  apply Option.ext
  intro bytes
  rw [read?_eq_some_iff_find?, read?_eq_some_iff_find?, find?_file_write fs hcontent htarget]
  constructor
  · rintro ⟨hp, hq, hf, hway⟩
    refine ⟨hp, hq, hf, fun d hd => ?_⟩
    rcases directory_of_write fs hcontent (hway d hd) with hold | ⟨hmissing, hmade⟩
    · exact hold
    · -- the file was there before, so it cannot lie below a directory that was not
      have hinside : d <+: target current q := by
        by_contra hout
        exact h (.inr ⟨d, hmade, hd, hmissing, hout⟩)
      rw [hfs.find?_prefix hinside hmissing] at hf
      cases hf
  · rintro ⟨hp, hq, hf, hway⟩
    exact ⟨hp, hq, hf, fun d hd => find?_directory_write fs current p hcontent (hway d hd)⟩

/-- Nor does it change what such a path leads to, unless that is a directory which it makes. -/
theorem entry?_write {fs : FileSystem} (hfs : fs.IsTree) {current : Location} {p q : Path}
    {content : Option Entry → Option ByteArray} (hcontent : content (some .directory) = none)
    (h : ¬ fs.Aliases current p q) (hq : fs.find? (target current q) = none → target current q ∉ parentWay current p) :
    FileSystem.entry? (fs.write current p content).1 current q = fs.entry? current q := by
  have htarget : (fs.write current p content).1.find? (target current q) = fs.find? (target current q) := by
    rcases find?_write_cases fs current p hcontent (target current q) with hsame | ⟨hmissing, -, hmade⟩ | ⟨hsame, -⟩
    · exact hsame
    · exact absurd hmade (hq hmissing)
    · exact absurd (.inl hsame.symm) h
  unfold entry?
  congr 1
  apply Option.ext
  intro e
  simp only [Option.bind_eq_some_iff, locate?_eq_some_iff]
  constructor
  · rintro ⟨l, ⟨hp, hway, rfl⟩, he⟩
    rw [htarget] at he
    refine ⟨_, ⟨hp, fun d hd => ?_, rfl⟩, he⟩
    rcases directory_of_write fs hcontent (hway d hd) with hold | ⟨hmissing, hmade⟩
    · exact hold
    · -- What is there cannot lie below a directory that was not.
      have hinside : d <+: target current q := by
        by_contra hout
        exact h (.inr ⟨d, hmade, hd, hmissing, hout⟩)
      rw [hfs.find?_prefix hinside hmissing] at he
      cases he
  · rintro ⟨l, ⟨hp, hway, rfl⟩, he⟩
    exact ⟨_, ⟨hp, fun d hd => find?_directory_write fs current p hcontent (hway d hd), rfl⟩, htarget.trans he⟩

/-- Whether something can be added to a file does not depend on what is added. -/
theorem append_succeeds_congr (fs : FileSystem) (current : Location) (p : Path) (bytes bytes' : ByteArray) :
    (fs.append current p bytes).2 = (fs.append current p bytes').2 := by
  unfold append write
  split
  · rfl
  · split
    · rename_i made here s _ _
      split
      · rfl
      · cases made.find? (here ++ [s]) with
        | none => rfl
        | some e => cases e <;> rfl
    · rfl

end SpawnGate.FileSystem
