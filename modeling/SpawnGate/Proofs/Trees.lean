import SpawnGate.Proofs.Files

/-!
A write keeps everything in a directory, where relative paths begin at a directory.
-/

namespace SpawnGate.FileSystem

theorem eq_name_of_find?_eq_none {fs : FileSystem} (hfs : fs.IsTree) {l : Location} {e : Entry}
    (h : fs.find? l = some e) (s : Path.Step) (hs : fs.find? (follow l s) = none) :
    ∃ n, s = .name n := by
  cases s with
  | up =>
    have hparent := hfs l e h
    rw [follow] at hs
    rw [hs] at hparent
    cases hparent
  | name n => exact ⟨n, rfl⟩

theorem IsTree.set {fs : FileSystem} (hfs : fs.IsTree) {l : Location} {e : Entry} (hl : l ≠ [])
    (hparent : fs.find? l.dropLast = some .directory) (he : e = .directory ∨ fs.find? l ≠ some .directory) :
    (fs.set l e).IsTree := by
  intro l' e' hl'
  rw [find?_set fs hl] at hl' ⊢
  have hshorter : l.dropLast ≠ l := by
    intro heq
    have hlength := congrArg List.length heq
    rw [List.length_dropLast] at hlength
    have hpos := List.length_pos_iff.mpr hl
    omega
  split at hl'
  · rename_i heq
    subst heq
    rw [if_neg hshorter]
    exact hparent
  · have hold := hfs l' e' hl'
    split
    · rename_i heq
      rw [heq] at hold
      -- The new entry stands where a directory was, so it is one itself.
      rcases he with rfl | hne
      · rfl
      · exact absurd hold hne
    · exact hold

theorem makeDirectories_isTree {fs : FileSystem} (hfs : fs.IsTree) {here : Location}
    (hhere : fs.find? here = some .directory) (steps : List Path.Step) :
    (fs.makeDirectories here steps).1.IsTree := by
  induction steps generalizing fs here with
  | nil => exact hfs
  | cons s r ih =>
    simp only [makeDirectories]
    split
    · exact hfs
    · split
      · rename_i hd
        exact ih hfs hd
      · exact hfs
      · rename_i hn
        obtain ⟨n, rfl⟩ := eq_name_of_find?_eq_none hfs hhere s hn
        have hne : follow here (.name n) ≠ [] := by simp [follow]
        apply ih
        · apply hfs.set hne _ (.inl rfl)
          rw [follow, List.dropLast_concat]
          exact hhere
        · rw [find?_set fs hne, if_pos rfl]

theorem find?_origin {fs : FileSystem} {current : Location} (h : fs.find? current = some .directory) (p : Path) :
    fs.find? (origin p current) = some .directory := by
  unfold origin
  split
  · exact find?_root fs
  · exact h

theorem find?_arrive {fs : FileSystem} {here : Location} {steps : List Path.Step}
    (hhere : fs.find? here = some .directory) (hway : ∀ d ∈ way here steps, fs.find? d = some .directory) :
    fs.find? (arrive here steps) = some .directory := by
  induction steps generalizing here with
  | nil => exact hhere
  | cons s r ih =>
    obtain ⟨hd, hr⟩ := List.forall_mem_cons.mp hway
    exact ih hd hr

theorem makeDirectories_directories {fs fs' : FileSystem} {here l : Location} {steps : List Path.Step}
    (h : fs.makeDirectories here steps = (fs', some l)) :
    (∀ s ∈ steps, s.fits = true) ∧ ∀ d ∈ way here steps, fs'.find? d = some .directory := by
  induction steps generalizing fs here with
  | nil => exact ⟨by simp, by simp [way]⟩
  | cons s r ih =>
    have hgrows (fs : FileSystem) := makeDirectories_grows fs (follow here s) r
    simp only [makeDirectories] at h
    split at h
    · cases h
    · rename_i hfits
      rw [not_not] at hfits
      split at h
      · rename_i hd
        obtain ⟨hr, hway⟩ := ih h
        have hkept := (hgrows fs).keeps hd
        rw [h] at hkept
        exact ⟨List.forall_mem_cons.mpr ⟨hfits, hr⟩, List.forall_mem_cons.mpr ⟨hkept, hway⟩⟩
      · cases h
      · rename_i hn
        have hroot : follow here s ≠ [] := by
          intro he
          rw [he, find?_root] at hn
          cases hn
        obtain ⟨hr, hway⟩ := ih h
        have hset : (fs.set (follow here s) .directory).find? (follow here s) = some .directory := by
          rw [find?_set fs hroot, if_pos rfl]
        have hkept := (hgrows _).keeps hset
        rw [h] at hkept
        exact ⟨List.forall_mem_cons.mpr ⟨hfits, hr⟩, List.forall_mem_cons.mpr ⟨hkept, hway⟩⟩

theorem find?_of_makeDirectories {fs fs' : FileSystem} {here l : Location} {steps : List Path.Step}
    (hhere : fs.find? here = some .directory) (h : fs.makeDirectories here steps = (fs', some l)) :
    fs'.find? l = some .directory := by
  have hkept := (makeDirectories_grows fs here steps).keeps hhere
  rw [h] at hkept
  rw [makeDirectories_arrives h]
  exact find?_arrive hkept (makeDirectories_directories h).2

theorem write_isTree {fs : FileSystem} (hfs : fs.IsTree) {current : Location}
    (hcurrent : fs.find? current = some .directory) (p : Path) {content : Option Entry → Option ByteArray}
    (hcontent : content (some .directory) = none) : (fs.write current p content).1.IsTree := by
  have horigin := find?_origin hcurrent p
  unfold write
  split
  · exact hfs
  · have htree := makeDirectories_isTree hfs horigin p.parent.steps
    split
    · rename_i fs' here s hmade hs
      rw [hmade] at htree
      have hhere := find?_of_makeDirectories horigin hmade
      split
      · exact htree
      · split
        · rename_i bytes hbytes
          refine htree.set (by simp) ?_ (.inr ?_)
          · rw [List.dropLast_concat]
            exact hhere
          · intro hd
            rw [hd, hcontent] at hbytes
            cases hbytes
        · exact htree
    · rename_i fs' res hmade hother
      rw [hmade] at htree
      exact htree

end SpawnGate.FileSystem
