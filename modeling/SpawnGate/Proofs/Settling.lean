import SpawnGate.Proofs.Differing

/-!
Writing at one path over and over. Once a write was tried, nothing more is made on the way to the file, and trying again
changes at most the bytes in it. So it does not matter how often and in which order files are written, but for those bytes.
-/

namespace SpawnGate.FileSystem

/-- Two file systems that differ at most in the bytes of the files at some places. -/
def Alike (places : List Location) (fs fs' : FileSystem) : Prop :=
  ∀ l, fs.find? l = fs'.find? l ∨
    l ∈ places ∧ ∃ old new, fs.find? l = some (.file old) ∧ fs'.find? l = some (.file new)

/-- What is in one file system is in the other, but for the bytes of files. -/
def Extends (fs fs' : FileSystem) : Prop :=
  ∀ l e, fs.find? l = some e →
    fs'.find? l = some e ∨ ∃ old new, e = .file old ∧ fs'.find? l = some (.file new)

variable {fs fs' fs'' : FileSystem} {places : List Location} {current l : Location} {p q : Path}
  {change change' : Option Entry → Option ByteArray}

theorem alike_iff (places : List Location) (fs fs' : FileSystem) :
    Alike places fs fs' ↔ Differ (fun l _ _ => l ∈ places) fs fs' := by
  apply forall_congr'
  intro l
  apply or_congr_right
  constructor
  · rintro ⟨hl, old, new, hold, hnew⟩
    exact ⟨old, new, hold, hnew, hl⟩
  · rintro ⟨old, new, hold, hnew, hl⟩
    exact ⟨hl, old, new, hold, hnew⟩

namespace Alike

theorem differ (h : Alike places fs fs') : Differ (fun l _ _ => l ∈ places) fs fs' :=
  (alike_iff places fs fs').mp h

theorem refl (places : List Location) (fs : FileSystem) : Alike places fs fs :=
  fun _ => .inl rfl

theorem symm (h : Alike places fs fs') : Alike places fs' fs := by
  intro l
  rcases h l with hsame | ⟨hl, old, new, hold, hnew⟩
  · exact .inl hsame.symm
  · exact .inr ⟨hl, new, old, hnew, hold⟩

theorem trans (h : Alike places fs fs') (h' : Alike places fs' fs'') : Alike places fs fs'' := by
  intro l
  rcases h l with hsame | ⟨hl, old, new, hold, hnew⟩
  · rw [hsame]
    exact h' l
  · rcases h' l with hsame | ⟨-, -, newer, -, hnewer⟩
    · exact .inr ⟨hl, old, new, hold, hsame.symm.trans hnew⟩
    · exact .inr ⟨hl, old, newer, hold, hnewer⟩

theorem of_mem (hl : l ∈ places) (h : Alike [l] fs fs') : Alike places fs fs' := by
  intro l'
  rcases h l' with hsame | ⟨hmem, hfiles⟩
  · exact .inl hsame
  · rw [List.mem_singleton.mp hmem] at hfiles ⊢
    exact .inr ⟨hl, hfiles⟩

theorem find?_eq (h : Alike places fs fs') (hl : l ∉ places) : fs.find? l = fs'.find? l := by
  rcases h l with hsame | ⟨hmem, -⟩
  · exact hsame
  · exact absurd hmem hl

/-- Writing to alike file systems comes off in both or in neither, and leaves them alike. -/
theorem write (h : Alike places fs fs') (hu : Uniform change change') (hp : target current p ∈ places) :
    (fs.write current p change).2 = (fs'.write current p change').2 ∧
      Alike places (fs.write current p change).1 (fs'.write current p change').1 := by
  obtain ⟨hsame, hdiffer⟩ := h.differ.write hu fun _ _ _ _ _ _ => .inr hp
  exact ⟨hsame, (alike_iff _ _ _).mpr hdiffer⟩

theorem read?_eq (h : Alike places fs fs') (hq : target current q ∉ places) : fs.read? current q = fs'.read? current q :=
  h.differ.read?_eq_of_find? (h.find?_eq hq)

end Alike

namespace Extends

theorem refl (fs : FileSystem) : Extends fs fs :=
  fun _ _ h => .inl h

theorem directory (h : Extends fs fs') (hl : fs.find? l = some .directory) : fs'.find? l = some .directory := by
  rcases h l _ hl with hsame | ⟨old, new, hold, -⟩
  · exact hsame
  · cases hold

theorem file (h : Extends fs fs') {bytes : ByteArray} (hl : fs.find? l = some (.file bytes)) :
    ∃ new, fs'.find? l = some (.file new) := by
  rcases h l _ hl with hsame | ⟨old, new, -, hnew⟩
  · exact ⟨bytes, hsame⟩
  · exact ⟨new, hnew⟩

/-- Making directories again makes none, also if other things were made since. -/
theorem makeDirectories {here : Location} {steps : List Path.Step}
    (h : Extends (fs.makeDirectories here steps).1 fs') :
    fs'.makeDirectories here steps = (fs', (fs.makeDirectories here steps).2) := by
  induction steps generalizing fs here with
  | nil => rfl
  | cons s r ih =>
    simp only [FileSystem.makeDirectories] at h ⊢
    by_cases hfits : s.fits = true
    · have hmore : ¬ ¬ s.fits = true := not_not.mpr hfits
      rw [if_neg hmore] at h ⊢
      rw [if_neg hmore]
      cases hfound : fs.find? (follow here s) with
      | none =>
        simp only [hfound] at h ⊢
        have hset : (fs.set (follow here s) .directory).find? (follow here s) = some .directory := by
          rw [find?_set fs (ne_nil_of_find?_eq_none hfound), if_pos rfl]
        have hmade := h.directory ((makeDirectories_grows _ (follow here s) r).keeps hset)
        simp only [hmade]
        exact ih h
      | some e =>
        simp only [hfound] at h ⊢
        cases e with
        | directory =>
          have hkept := h.directory ((makeDirectories_grows _ (follow here s) r).keeps hfound)
          simp only [hkept]
          exact ih h
        | file bytes =>
          obtain ⟨new, hnew⟩ := h.file hfound
          simp only [hnew]
        | socket =>
          rcases h _ _ hfound with hsame | ⟨old, new, hold, -⟩
          · simp only [hsame]
          · cases hold
    · rw [if_pos hfits] at h ⊢
      rw [if_pos hfits]

theorem of_append (fs : FileSystem) (current : Location) (p : Path) (bytes : ByteArray) :
    Extends fs (fs.append current p bytes).1 := by
  have hcontent : extension bytes (some .directory) = none := rfl
  intro l e he
  rcases find?_write_cases fs current p hcontent l with hsame | ⟨hnone, -⟩ | ⟨-, new, hnew, hfile⟩
  · exact .inl (hsame.trans he)
  · rw [hnone] at he
    cases he
  · rw [he] at hnew
    cases e with
    | file old => exact .inr ⟨old, new, rfl, hfile⟩
    | directory => cases hnew
    | socket => cases hnew

end Extends

theorem makeDirectories_of_way {here : Location} {steps : List Path.Step} (hfits : ∀ s ∈ steps, s.fits = true)
    (hway : ∀ d ∈ way here steps, fs.find? d = some .directory) :
    fs.makeDirectories here steps = (fs, some (arrive here steps)) := by
  induction steps generalizing here with
  | nil => rfl
  | cons s r ih =>
    obtain ⟨hs, hr⟩ := List.forall_mem_cons.mp hfits
    obtain ⟨hd, hrest⟩ := List.forall_mem_cons.mp hway
    have hmore : ¬ ¬ s.fits = true := not_not.mpr hs
    simp only [makeDirectories, if_neg hmore, hd]
    exact ih hr hrest

theorem Uniform.eq_none (hu : Uniform change change') (h : Extends fs fs') (hnone : change (fs.find? l) = none) :
    change' (fs'.find? l) = none := by
  cases hu with
  | never _ hnone' => exact hnone' _
  | willing hu =>
    cases hfound : fs.find? l with
    | none =>
      have hdone := hu.missing.1
      rw [hfound] at hnone
      rw [hnone] at hdone
      cases hdone
    | some e =>
      rw [hfound] at hnone
      cases e with
      | file bytes =>
        have hdone := (hu.file bytes).1
        rw [hnone] at hdone
        cases hdone
      | directory =>
        rw [h.directory hfound]
        exact hu.directory.2
      | socket =>
        have hsocket := hu.socket
        rw [hnone, Option.isSome_none, eq_comm, Option.isSome_eq_false_iff, Option.isNone_iff_eq_none] at hsocket
        rcases h _ _ hfound with hsame | ⟨old, new, hold, -⟩
        · rw [hsame]
          exact hsocket
        · cases hold

theorem Uniform.exists_over_file (hu : Uniform change change') {e : Option Entry} {bytes : ByteArray}
    (hnew : change e = some bytes) (old : ByteArray) : ∃ new, change' (some (.file old)) = some new := by
  cases hu with
  | never hnone =>
    rw [hnone] at hnew
    cases hnew
  | willing hu => exact Option.isSome_iff_exists.mp (hu.file old).2

theorem Alike.of_set {old : ByteArray} (hl : l ≠ []) (hold : fs.find? l = some (.file old)) (new : ByteArray) :
    Alike [l] fs (fs.set l (.file new)) :=
  (alike_iff _ _ _).mpr ((Differ.refl _ fs).set_right hl hold (List.mem_singleton_self l))

theorem write_over {made : FileSystem} {here : Location} {bytes : ByteArray} (hu : Uniform change change')
    (hname : Nameable p) (hmade : fs.makeDirectories (origin p current) p.parent.steps = (made, some here))
    (hnew : change (made.find? (target current p)) = some bytes)
    (h : Extends (made.set (target current p) (.file bytes)) fs') :
    (fs'.write current p change').2 = true ∧ Alike [target current p] fs' (fs'.write current p change').1 := by
  have hroot : target current p ≠ [] := target_ne_nil hname
  obtain ⟨hfits, hway⟩ := makeDirectories_directories hmade
  have hkept : ∀ d ∈ way (origin p current) p.parent.steps, fs'.find? d = some .directory := by
    intro d hd
    apply h.directory
    rw [find?_set made hroot, if_neg, hway d hd]
    -- The file was written where no directory is, so it is none of those on the way.
    rintro rfl
    rw [hway _ hd, hu.directory.1] at hnew
    cases hnew
  have hat : (made.set (target current p) (.file bytes)).find? (target current p) = some (.file bytes) := by
    rw [find?_set made hroot, if_pos rfl]
  obtain ⟨old, hold⟩ := h.file hat
  obtain ⟨bytes', hnew'⟩ := hu.exists_over_file hnew old
  rw [write_eq hname (makeDirectories_of_way hfits hkept), hold, hnew']
  exact ⟨rfl, .of_set hroot hold bytes'⟩

/-- A second write comes off if the first did, and changes at most the bytes of its file, also if other things were made
since. -/
theorem write_again (hu : Uniform change change') (h : Extends (fs.write current p change).1 fs') :
    (fs'.write current p change').2 = (fs.write current p change).2 ∧
      Alike [target current p] fs' (fs'.write current p change').1 := by
  by_cases hname : Nameable p
  · have hback (hmore : Extends (fs.makeDirectories (origin p current) p.parent.steps).1 fs') := hmore.makeDirectories
    cases hmade : fs.makeDirectories (origin p current) p.parent.steps with
    | mk made here =>
      rw [hmade] at hback
      cases here with
      | none =>
        rw [write_of_not_made hname hmade] at h ⊢
        rw [write_of_not_made hname (hback h)]
        exact ⟨rfl, .refl _ _⟩
      | some here =>
        rw [write_eq hname hmade] at h ⊢
        cases hnew : change (made.find? (target current p)) with
        | none =>
          -- What stood in the way of the first write still does.
          rw [hnew] at h
          rw [write_eq hname (hback h), hu.eq_none h hnew]
          exact ⟨rfl, .refl _ _⟩
        | some bytes =>
          rw [hnew] at h
          exact write_over hu hname hmade hnew h
  · rcases write_of_not_nameable current hname with hnothing | hparents
    · rw [hnothing, hnothing]
      exact ⟨rfl, .refl _ _⟩
    · rw [hparents] at h ⊢
      rw [hparents, h.makeDirectories]
      exact ⟨rfl, .refl _ _⟩

theorem not_aliases_write {r : Path} (h : ¬ fs.Aliases current p q) (hchange : change (some .directory) = none) :
    ¬ (fs.write current r change).1.Aliases current p q := by
  rintro (htarget | ⟨d, hp, hq, hmissing, hout⟩)
  · exact h (.inl htarget)
  · refine h (.inr ⟨d, hp, hq, ?_, hout⟩)
    rcases find?_write_cases fs current r hchange d with hsame | ⟨hnone, -⟩ | ⟨-, bytes, -, hfile⟩
    · rwa [hsame] at hmissing
    · exact hnone
    · rw [hfile] at hmissing
      cases hmissing

end SpawnGate.FileSystem
