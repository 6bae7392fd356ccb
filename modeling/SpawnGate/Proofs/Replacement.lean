import SpawnGate.Proofs.Trees

/-!
A file is replaced by way of another one: a new file is written beside it and moved over it, or removed if
that cannot be done. This leaves behind what replacing the file at once does, and nothing of the new file.
-/

namespace SpawnGate.FileSystem

theorem find?_remove_set {fs : FileSystem} (hfs : fs.IsTree) {beside : Location} (hfree : fs.find? beside = none)
    (e : Entry) (l : Location) : ((fs.set beside e).remove beside).find? l = fs.find? l := by
  have hne : beside ≠ [] := by
    rintro rfl
    rw [find?_root] at hfree
    cases hfree
  by_cases hroot : l = []
  · subst hroot
    rw [find?_root, find?_root]
  · rw [find?_remove _ hroot]
    split
    · rename_i hbelow
      rw [hfs.find?_prefix (List.isPrefixOf_iff_prefix.mp hbelow) hfree]
    · rename_i hout
      rw [find?_set fs hne, if_neg]
      rintro rfl
      exact hout (List.isPrefixOf_iff_prefix.mpr (List.prefix_refl l))

/-- Moves a file over another one. -/
def move? (fs : FileSystem) (source target : Location) : Option FileSystem :=
  match fs.find? source with
  | some (.file bytes) =>
    if fs.find? target = some .directory then none
    else some ((fs.remove source).set target (.file bytes))
  | _ => none

/-- Replaces a file by way of another one with a fresh name, which is moved over it or removed. Nothing is made beside a path
that has no room for it. -/
def replaceVia (fresh : FileSystem → Location → String) (fs : FileSystem) (current : Location) (p : Path)
    (bytes : ByteArray) : FileSystem × Bool :=
  if ¬ p.parent.isShort ∨ ¬ p.parent.steps.all Path.Step.isLegal then (fs, false)
  else
    match fs.makeDirectories (origin p current) p.parent.steps with
    | (fs, none) => (fs, false)
    | (fs, some here) =>
      if ¬ hasRoom current p then (fs, false)
      else
        let beside := here ++ [fresh fs here]
        let written := fs.set beside (.file bytes)
        let moved := match p.steps.getLast? with
          | some (.name s) =>
            if ¬ p.isShort ∨ p.asksDirectory ∨ ¬ (Path.Step.name s).fits ∨ ¬ (Path.Step.name s).isLegal then none
            else written.move? beside (here ++ [s])
          | _ => none
        match moved with
        | some fs => (fs, true)
        | none => (written.remove beside, false)

variable {fs : FileSystem} {current : Location}

theorem move?_set {beside target : Location} (hne : beside ≠ []) (hfree : fs.find? beside = none)
    (bytes : ByteArray) : (fs.set beside (.file bytes)).move? beside target =
      if fs.find? target = some .directory then none
      else some (((fs.set beside (.file bytes)).remove beside).set target (.file bytes)) := by
  have hbeside : (fs.set beside (.file bytes)).find? beside = some (.file bytes) := by
    rw [find?_set fs hne, if_pos rfl]
  have htarget : (fs.set beside (.file bytes)).find? target = some .directory ↔
      fs.find? target = some .directory := by
    rw [find?_set fs hne]
    split
    · rename_i heq
      subst heq
      rw [hfree]
      simp
    · rfl
  simp only [move?, hbeside, htarget]

/-- Nothing tells afterwards how a file was replaced. -/
theorem replaceVia_agrees (hfs : fs.IsTree) (hcurrent : fs.find? current = some .directory)
    {fresh : FileSystem → Location → String}
    (hfresh : ∀ (fs : FileSystem) here, fs.find? (here ++ [fresh fs here]) = none) (p : Path) (bytes : ByteArray) :
    (fs.replaceVia fresh current p bytes).2 = (fs.replace current p bytes).2 ∧
      ∀ l, (fs.replaceVia fresh current p bytes).1.find? l = (fs.replace current p bytes).1.find? l := by
  have htree := makeDirectories_isTree hfs (find?_origin hcurrent p) p.parent.steps
  unfold replaceVia replace write
  split
  · exact ⟨rfl, fun l => rfl⟩
  · cases hmade : fs.makeDirectories (origin p current) p.parent.steps with
    | mk made here =>
      rw [hmade] at htree
      cases here with
      | none => exact ⟨rfl, fun l => rfl⟩
      | some here =>
        cases hroom : hasRoom current p with
        | false =>
          cases hlast : p.steps.getLast? with
          | none => simp
          | some s => cases s <;> simp [replacement_of_no_room]
        | true =>
          have hfree := hfresh made here
          have hrest := find?_remove_set htree hfree (.file bytes)
          have hne : here ++ [fresh made here] ≠ [] := by simp
          cases hlast : p.steps.getLast? with
          | none => exact ⟨rfl, hrest⟩
          | some s =>
            cases s with
            | up => exact ⟨rfl, hrest⟩
            | name s =>
              by_cases hname : ¬ p.isShort = true ∨ p.asksDirectory = true ∨ ¬ (Path.Step.name s).fits = true ∨
                  ¬ (Path.Step.name s).isLegal = true
              · simp only [if_pos hname]
                exact ⟨rfl, hrest⟩
              · have htarget : here ++ [s] ≠ [] := by simp
                simp only [if_neg hname, move?_set hne hfree]
                by_cases hd : made.find? (here ++ [s]) = some .directory
                · simp only [hd, if_true, replacement]
                  exact ⟨rfl, hrest⟩
                · simp only [if_neg hd, replacement_of_room bytes hd]
                  refine ⟨rfl, fun l => ?_⟩
                  change FileSystem.find? (FileSystem.set _ _ _) l = FileSystem.find? (FileSystem.set _ _ _) l
                  rw [find?_set _ htarget, find?_set _ htarget, hrest]

theorem read?_congr {fs fs' : FileSystem} (h : ∀ l, fs.find? l = fs'.find? l) (current : Location) (p : Path) :
    fs.read? current p = fs'.read? current p := by
  apply Option.ext
  intro bytes
  rw [read?_eq_some_iff_find?, read?_eq_some_iff_find?]
  simp only [h]

end SpawnGate.FileSystem
