import SpawnGate.Proofs.Writes

/-!
Two file systems with the same directories, sockets and file names, where some files hold other bytes. What is asked of
both gets the same answer, but for those bytes: a path leads to the same place, and writing comes off in both or in
neither.
-/

namespace SpawnGate.FileSystem

/-- Two file systems that differ at most in the bytes of files, each place as `R` allows there. -/
def Differ (R : Location → ByteArray → ByteArray → Prop) (fs fs' : FileSystem) : Prop :=
  ∀ l, fs.find? l = fs'.find? l ∨
    ∃ old new, fs.find? l = some (.file old) ∧ fs'.find? l = some (.file new) ∧ R l old new

/-- Two changes of a file that come off over a file and where nothing is, not over a directory. -/
structure Willing (change change' : Option Entry → Option ByteArray) : Prop where
  missing : (change none).isSome = true ∧ (change' none).isSome = true
  file : ∀ bytes, (change (some (.file bytes))).isSome = true ∧ (change' (some (.file bytes))).isSome = true
  directory : change (some .directory) = none ∧ change' (some .directory) = none
  socket : (change (some .socket)).isSome = (change' (some .socket)).isSome

/-- Two changes of a file that come off in the same cases, which may be none. -/
inductive Uniform (change change' : Option Entry → Option ByteArray) : Prop
  | willing : Willing change change' → Uniform change change'
  | never : (∀ e, change e = none) → (∀ e, change' e = none) → Uniform change change'

theorem uniform_replacement (room : Bool) (bytes bytes' : ByteArray) :
    Uniform (replacement room bytes) (replacement room bytes') := by
  cases room with
  | false => exact .never (replacement_of_no_room bytes) (replacement_of_no_room bytes')
  | true => exact .willing ⟨⟨rfl, rfl⟩, fun _ => ⟨rfl, rfl⟩, ⟨rfl, rfl⟩, rfl⟩

theorem uniform_extension (bytes bytes' : ByteArray) : Uniform (extension bytes) (extension bytes') :=
  .willing ⟨⟨rfl, rfl⟩, fun _ => ⟨rfl, rfl⟩, ⟨rfl, rfl⟩, rfl⟩

theorem Uniform.directory {change change' : Option Entry → Option ByteArray} (hu : Uniform change change') :
    change (some .directory) = none ∧ change' (some .directory) = none := by
  cases hu with
  | willing hu => exact hu.directory
  | never hnone hnone' => exact ⟨hnone _, hnone' _⟩

variable {R : Location → ByteArray → ByteArray → Prop} {fs fs' : FileSystem} {current l : Location} {p q : Path}
  {change change' : Option Entry → Option ByteArray}

theorem ne_nil_of_find?_eq_none (h : fs.find? l = none) : l ≠ [] := by
  rintro rfl
  rw [find?_root] at h
  cases h

theorem write_of_not_nameable (current : Location) (hp : ¬ Nameable p) :
    (∀ fs content, write fs current p content = (fs, false)) ∨
      ∀ fs content, write fs current p content = ((fs.makeDirectories (origin p current) p.parent.steps).1, false) := by
  by_cases hparent : ¬ p.parent.isShort ∨ ¬ p.parent.steps.all Path.Step.isLegal
  · exact .inl fun fs content => by rw [write, if_pos hparent]
  · refine .inr fun fs content => ?_
    cases hmade : fs.makeDirectories (origin p current) p.parent.steps with
    | mk made here =>
      cases here with
      | none => simp only [write, if_neg hparent, hmade]
      | some here =>
        cases hlast : p.steps.getLast? with
        | none => simp only [write, if_neg hparent, hmade, hlast]
        | some s =>
          cases s with
          | up => simp only [write, if_neg hparent, hmade, hlast]
          | name n =>
            by_cases hname : ¬ p.isShort = true ∨ p.asksDirectory = true ∨ ¬ (Path.Step.name n).fits = true ∨
                ¬ (Path.Step.name n).isLegal = true
            · simp only [write, if_neg hparent, hmade, hlast, if_pos hname]
            · cases hcontent : content (made.find? (here ++ [n])) with
              | none => simp only [write, if_neg hparent, hmade, hlast, if_neg hname, hcontent]
              | some bytes =>
                have hdone : (fs.write current p content).2 = true := by
                  simp only [write, if_neg hparent, hmade, hlast, if_neg hname, hcontent]
                exact absurd (nameable_of_write hdone).1 hp

namespace Differ

theorem refl (R : Location → ByteArray → ByteArray → Prop) (fs : FileSystem) : Differ R fs fs :=
  fun _ => .inl rfl

theorem set_right (h : Differ R fs fs') (hl : l ≠ []) {old new : ByteArray} (hold : fs.find? l = some (.file old))
    (hR : R l old new) : Differ R fs (fs'.set l (.file new)) := by
  intro l'
  rw [find?_set fs' hl]
  split
  · rename_i heq
    rw [heq]
    exact .inr ⟨old, new, hold, rfl, hR⟩
  · exact h l'

theorem restrict (h : Differ R fs fs') : Differ (fun l old new => R l old new ∧ fs.find? l ≠ fs'.find? l) fs fs' := by
  intro l
  by_cases hsame : fs.find? l = fs'.find? l
  · exact .inl hsame
  · obtain ⟨old, new, hold, hnew, hR⟩ := (h l).resolve_left hsame
    exact .inr ⟨old, new, hold, hnew, hR, hsame⟩

theorem find?_eq_iff (h : Differ R fs fs') {e : Option Entry} (he : ∀ bytes, e ≠ some (.file bytes)) :
    fs.find? l = e ↔ fs'.find? l = e := by
  rcases h l with hsame | ⟨old, new, hold, hnew, -⟩
  · rw [hsame]
  · rw [hold, hnew]
    exact iff_of_false (Ne.symm (he old)) (Ne.symm (he new))

theorem set (h : Differ R fs fs') (hl : l ≠ []) (e : Entry) : Differ R (fs.set l e) (fs'.set l e) := by
  intro l'
  rw [find?_set fs hl, find?_set fs' hl]
  split
  · exact .inl rfl
  · exact h l'

theorem set_file (h : Differ R fs fs') (hl : l ≠ []) {bytes bytes' : ByteArray}
    (hbytes : bytes = bytes' ∨ R l bytes bytes') :
    Differ R (fs.set l (.file bytes)) (fs'.set l (.file bytes')) := by
  rcases hbytes with rfl | hR
  · exact h.set hl (.file bytes)
  · intro l'
    rw [find?_set fs hl, find?_set fs' hl]
    split
    · rename_i heq
      rw [heq]
      exact .inr ⟨bytes, bytes', rfl, rfl, hR⟩
    · exact h l'

theorem makeDirectories (h : Differ R fs fs') (here : Location) (steps : List Path.Step) :
    (fs.makeDirectories here steps).2 = (fs'.makeDirectories here steps).2 ∧
      Differ R (fs.makeDirectories here steps).1 (fs'.makeDirectories here steps).1 := by
  -- The two walks stop at the same step, since they meet a directory, a file or nothing in the same places.
  induction steps generalizing fs fs' here with
  | nil => exact ⟨rfl, h⟩
  | cons s r ih =>
    simp only [FileSystem.makeDirectories]
    by_cases hfits : s.fits = true
    · have hmore : ¬ ¬ s.fits = true := not_not.mpr hfits
      rw [if_neg hmore, if_neg hmore]
      cases hfound : fs.find? (follow here s) with
      | none =>
        have hmissing : fs'.find? (follow here s) = none :=
          (h.find?_eq_iff fun _ => (Option.some_ne_none _).symm).mp hfound
        rw [hmissing]
        exact ih (h.set (ne_nil_of_find?_eq_none hfound) .directory) _
      | some e =>
        rcases h (follow here s) with hsame | ⟨old, new, hold, hnew, -⟩
        · rw [← hsame, hfound]
          cases e with
          | directory => exact ih h _
          | file bytes => exact ⟨rfl, h⟩
          | socket => exact ⟨rfl, h⟩
        · rw [hnew]
          obtain rfl := Option.some.inj (hfound.symm.trans hold)
          exact ⟨rfl, h⟩
    · rw [if_pos hfits, if_pos hfits]
      exact ⟨rfl, h⟩

theorem isSome_eq (h : Differ R fs fs') (hu : Uniform change change') (l : Location) :
    (change (fs.find? l)).isSome = (change' (fs'.find? l)).isSome := by
  cases hu with
  | never hnone hnone' => rw [hnone, hnone']
  | willing hu =>
    rcases h l with hsame | ⟨old, new, hold, hnew, -⟩
    · rw [hsame]
      cases fs'.find? l with
      | none => rw [hu.missing.1, hu.missing.2]
      | some e =>
        cases e with
        | directory => rw [hu.directory.1, hu.directory.2]
        | file bytes => rw [(hu.file bytes).1, (hu.file bytes).2]
        | socket => exact hu.socket
    · rw [hold, hnew, (hu.file old).1, (hu.file new).2]

/-- Writing the same or allowed bytes comes off in both file systems or in neither, and they differ as before. -/
theorem write (h : Differ R fs fs') (hu : Uniform change change')
    (hbytes : ∀ e e' bytes bytes', change e = some bytes → change' e' = some bytes' →
      bytes = bytes' ∨ R (target current p) bytes bytes') :
    (fs.write current p change).2 = (fs'.write current p change').2 ∧
      Differ R (fs.write current p change).1 (fs'.write current p change').1 := by
  obtain ⟨hsame, hdiffer⟩ := h.makeDirectories (origin p current) p.parent.steps
  by_cases hname : Nameable p
  · cases hmade : fs.makeDirectories (origin p current) p.parent.steps with
    | mk made here =>
      cases hmade' : fs'.makeDirectories (origin p current) p.parent.steps with
      | mk made' here' =>
        rw [hmade, hmade'] at hsame hdiffer
        obtain rfl : here = here' := hsame
        cases here with
        | none =>
          rw [write_of_not_made hname hmade, write_of_not_made hname hmade']
          exact ⟨rfl, hdiffer⟩
        | some here =>
          have hboth := hdiffer.isSome_eq hu (target current p)
          rw [write_eq hname hmade, write_eq hname hmade']
          cases hnew : change (made.find? (target current p)) with
          | none =>
            rw [hnew, Option.isSome_none, eq_comm, Option.isSome_eq_false_iff, Option.isNone_iff_eq_none] at hboth
            rw [hboth]
            exact ⟨rfl, hdiffer⟩
          | some bytes =>
            rw [hnew, Option.isSome_some, eq_comm, Option.isSome_iff_exists] at hboth
            obtain ⟨bytes', hnew'⟩ := hboth
            rw [hnew']
            exact ⟨rfl, hdiffer.set_file (target_ne_nil hname) (hbytes _ _ _ _ hnew hnew')⟩
  · rcases write_of_not_nameable current hname with hnothing | hparents
    · rw [hnothing, hnothing]
      exact ⟨rfl, h⟩
    · rw [hparents, hparents]
      exact ⟨rfl, hdiffer⟩

theorem locate?_eq (h : Differ R fs fs') (current : Location) (q : Path) :
    fs.locate? current q = fs'.locate? current q := by
  have hdirectory (d : Location) : fs.find? d = some .directory ↔ fs'.find? d = some .directory :=
    h.find?_eq_iff nofun
  apply Option.ext
  intro l
  rw [locate?_eq_some_iff, locate?_eq_some_iff]
  simp only [hdirectory]

theorem read?_eq_of_find? (h : Differ R fs fs') (hq : fs.find? (target current q) = fs'.find? (target current q)) :
    fs.read? current q = fs'.read? current q := by
  have hdirectory (d : Location) : fs.find? d = some .directory ↔ fs'.find? d = some .directory :=
    h.find?_eq_iff nofun
  apply Option.ext
  intro bytes
  rw [read?_eq_some_iff_find?, read?_eq_some_iff_find?, hq]
  simp only [hdirectory]

/-- Reading at a path yields the same, or bytes that may differ at the place it leads to. -/
theorem read? (h : Differ R fs fs') (current : Location) (q : Path) :
    fs.read? current q = fs'.read? current q ∨
      ∃ old new, fs.read? current q = some old ∧ fs'.read? current q = some new ∧ R (target current q) old new := by
  have hdirectory (d : Location) : fs.find? d = some .directory ↔ fs'.find? d = some .directory :=
    h.find?_eq_iff nofun
  rcases h (target current q) with hsame | ⟨old, new, hold, hnew, hR⟩
  · exact .inl (h.read?_eq_of_find? hsame)
  · by_cases hfound : fs.read? current q = some old
    · obtain ⟨hp, hd, -, hway⟩ := (read?_eq_some_iff_find? fs current q old).mp hfound
      refine .inr ⟨old, new, hfound, (read?_eq_some_iff_find? fs' current q new).mpr ⟨hp, hd, hnew, ?_⟩, hR⟩
      simpa only [hdirectory] using hway
    · -- Where the path is no way to the file, it is none in the other file system either.
      have hnone : fs.read? current q = none := by
        rw [Option.eq_none_iff_forall_ne_some]
        intro bytes hbytes
        have hat := ((read?_eq_some_iff_find? fs current q bytes).mp hbytes).2.2.1
        cases hold.symm.trans hat
        exact hfound hbytes
      have hnone' : fs'.read? current q = none := by
        rw [Option.eq_none_iff_forall_ne_some]
        intro bytes hbytes
        obtain ⟨hp, hd, -, hway⟩ := (read?_eq_some_iff_find? fs' current q bytes).mp hbytes
        simp only [← hdirectory] at hway
        exact hfound ((read?_eq_some_iff_find? fs current q old).mpr ⟨hp, hd, hold, hway⟩)
      exact .inl (hnone.trans hnone'.symm)

theorem entry?_socket_iff (h : Differ R fs fs') (current : Location) (q : Path) :
    fs.entry? current q = some .socket ↔ fs'.entry? current q = some .socket := by
  have hsocket (l : Location) : fs.find? l = some .socket ↔ fs'.find? l = some .socket := h.find?_eq_iff nofun
  unfold entry?
  rw [h.locate?_eq, Option.filter_eq_some_iff, Option.filter_eq_some_iff, Option.bind_eq_some_iff,
    Option.bind_eq_some_iff]
  simp only [hsocket]

end Differ

end SpawnGate.FileSystem
