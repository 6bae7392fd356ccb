import SpawnGate.Proofs.Paths
import SpawnGate.Proofs.Trees

/-!
When a write succeeds, and what is read at a path afterwards. A write that succeeds is read back. A file that cannot be
replaced stays unread, whatever else is written, unless it is only the room for a new file that is missing: the
directories that were made may then bring the file within reach.
-/

namespace SpawnGate.FileSystem

/-- Directories are made unless something else is in the way. -/
theorem makeDirectories_succeeds {fs : FileSystem} {here : Location} {steps : List Path.Step}
    (hfits : ∀ s ∈ steps, s.fits = true)
    (hopen : ∀ d ∈ way here steps, ∀ e, (fs.makeDirectories here steps).1.find? d = some e → e = .directory) :
    (fs.makeDirectories here steps).2 = some (arrive here steps) := by
  induction steps generalizing fs here with
  | nil => rfl
  | cons s r ih =>
    obtain ⟨hs, hr⟩ := List.forall_mem_cons.mp hfits
    obtain ⟨hd, hway⟩ := List.forall_mem_cons.mp hopen
    have hfit : ¬ ¬ s.fits = true := not_not.mpr hs
    simp only [makeDirectories, if_neg hfit] at hd hway ⊢
    split at hd
    · rename_i hfound
      simp only [hfound] at hway ⊢
      exact ih hr hway
    · rename_i e hne hfound
      exact absurd (hd e hfound) hne
    · rename_i hfound
      simp only [hfound] at hway ⊢
      exact ih hr hway

variable {fs : FileSystem} {current : Location} {p q : Path} {content : Option Entry → Option ByteArray}

/-- The path is good for a file, and there is a name for it. -/
def Nameable (p : Path) : Prop :=
  Passable p ∧ p.asksDirectory = false ∧ ∃ s, p.steps.getLast? = some (.name s)

theorem target_ne_nil (hp : Nameable p) : target current p ≠ [] := by
  obtain ⟨-, -, s, hs⟩ := hp
  rw [target_eq_follow, hs]
  simp [follow]

theorem Nameable.parent (hp : Nameable p) :
    ¬ (¬ p.parent.isShort ∨ ¬ p.parent.steps.all Path.Step.isLegal) := by
  obtain ⟨⟨hshort, hsteps, -⟩, -⟩ := hp
  rw [not_or, not_not, not_not, List.all_eq_true]
  exact ⟨Path.isShort_parent hshort, fun s hs => (hsteps s hs).2⟩

theorem write_of_not_made (hp : Nameable p) {fs' : FileSystem}
    (hmade : fs.makeDirectories (origin p current) p.parent.steps = (fs', none)) :
    fs.write current p content = (fs', false) := by
  simp only [write, if_neg hp.parent, hmade]

/-- A write to a good path whose parents can be made depends only on what stands at its place. -/
theorem write_eq (hp : Nameable p) {fs' : FileSystem} {here : Location}
    (hmade : fs.makeDirectories (origin p current) p.parent.steps = (fs', some here)) :
    fs.write current p content = match content (fs'.find? (target current p)) with
      | some bytes => (fs'.set (target current p) (.file bytes), true)
      | none => (fs', false) := by
  have hparent := hp.parent
  obtain ⟨⟨hshort, -, hlast⟩, hasks, s, hs⟩ := hp
  have hname : ¬ (¬ p.isShort = true ∨ p.asksDirectory = true ∨ ¬ (Path.Step.name s).fits = true ∨
      ¬ (Path.Step.name s).isLegal = true) := by
    obtain ⟨hfits, hlegal⟩ := hlast _ hs
    simp [hshort, hasks, hfits, hlegal]
  have htarget : target current p = here ++ [s] := by
    rw [target_eq_follow, hs, makeDirectories_arrives hmade]
    rfl
  rw [htarget]
  cases hcontent : content (fs'.find? (here ++ [s])) with
  | none => simp only [write, if_neg hparent, hmade, hs, if_neg hname, hcontent]
  | some bytes => simp only [write, if_neg hparent, hmade, hs, if_neg hname, hcontent]

theorem nameable_of_write (h : (fs.write current p content).2 = true) :
    Nameable p ∧ ∃ fs' here, fs.makeDirectories (origin p current) p.parent.steps = (fs', some here) := by
  unfold write at h
  split at h
  · cases h
  · rename_i hparent
    rw [not_or, not_not, not_not, List.all_eq_true] at hparent
    split at h
    · rename_i fs' here s hmade hs
      split at h
      · cases h
      · rename_i hname
        simp only [not_or, Decidable.not_not] at hname
        obtain ⟨hshort, hasks, hfits, hlegal⟩ := hname
        have hsteps := (makeDirectories_directories hmade).1
        refine ⟨⟨⟨hshort, fun t ht => ⟨hsteps t ht, hparent.2 t ht⟩, ?_⟩, ?_, s, hs⟩, fs', here, hmade⟩
        · intro t ht
          obtain rfl := Option.some.inj (hs.symm.trans ht)
          exact ⟨hfits, hlegal⟩
        · simpa using hasks
    · cases h

theorem of_write_eq_true (h : (fs.write current p content).2 = true) :
    Nameable p ∧ ∃ fs' bytes,
      fs.makeDirectories (origin p current) p.parent.steps =
        (fs', some (arrive (origin p current) p.parent.steps)) ∧
      content (fs'.find? (target current p)) = some bytes ∧
      (fs.write current p content).1 = fs'.set (target current p) (.file bytes) := by
  obtain ⟨hp, fs', here, hmade⟩ := nameable_of_write h
  obtain rfl := makeDirectories_arrives hmade
  have hwrite : fs.write current p content = _ := write_eq hp hmade
  cases hcontent : content (fs'.find? (target current p)) with
  | none =>
    rw [hcontent] at hwrite
    rw [hwrite] at h
    cases h
  | some bytes =>
    rw [hcontent] at hwrite
    exact ⟨hp, fs', bytes, hmade, hcontent, by rw [hwrite]⟩

theorem eq_of_replacement {room : Bool} {e : Option Entry} {bytes new : ByteArray}
    (h : replacement room bytes e = some new) : room = true ∧ new = bytes := by
  unfold replacement at h
  split at h
  · cases h
  · obtain ⟨hroom, hbytes⟩ := Option.ite_none_right_eq_some.mp h
    exact ⟨hroom, (Option.some.inj hbytes).symm⟩

/-- What was written is at the path's location, and is read there. -/
theorem read?_of_write (hcontent : content (some .directory) = none)
    (h : (fs.write current p content).2 = true) :
    ∃ bytes, content (fs.find? (target current p)) = some bytes ∧
      (fs.write current p content).1.find? (target current p) = some (.file bytes) ∧
      (fs.write current p content).1.read? current p = some bytes := by
  obtain ⟨hp, fs', bytes, hmade, hbytes, hwrite⟩ := of_write_eq_true h
  have hgrows := makeDirectories_grows fs (origin p current) p.parent.steps
  rw [hmade] at hgrows
  have hat : (fs'.set (target current p) (.file bytes)).find? (target current p) = some (.file bytes) := by
    rw [find?_set fs' (target_ne_nil hp), if_pos rfl]
  have hold : content (fs.find? (target current p)) = some bytes := by
    rcases hgrows (target current p) with hsame | ⟨-, hd, -⟩
    · rwa [hsame] at hbytes
    · rw [hd, hcontent] at hbytes
      cases hbytes
  refine ⟨bytes, hold, by rw [hwrite, hat], ?_⟩
  rw [hwrite, read?_eq_some_iff_find?]
  refine ⟨hp.1, hp.2.1, hat, fun d hd => ?_⟩
  have hdirectory := (makeDirectories_directories hmade).2 d hd
  rw [find?_set fs' (target_ne_nil hp), if_neg, hdirectory]
  rintro rfl
  rw [hdirectory, hcontent] at hbytes
  cases hbytes

/-- What keeps a write from its path: it is no path of a file, something that is no directory stands on the way, or
something in its place that the write does not go over. -/
def Hindered (content : Option Entry → Option ByteArray) (fs : FileSystem) (current : Location) (p : Path) : Prop :=
  ¬ Nameable p ∨ (∃ d ∈ parentWay current p, ∃ e, fs.find? d = some e ∧ e ≠ .directory) ∨
    content (fs.find? (target current p)) = none

/-- What keeps every write from its path, and no other write takes it away: it is no path of a file, something that is no
directory stands on the way, or a directory in its place. -/
def Blocked (fs : FileSystem) (current : Location) (p : Path) : Prop :=
  ¬ Nameable p ∨ (∃ d ∈ parentWay current p, ∃ e, fs.find? d = some e ∧ e ≠ .directory) ∨
    fs.find? (target current p) = some .directory

theorem find?_target_of_not_nameable (hfs : fs.IsTree) (hcurrent : fs.find? current = some .directory)
    (hway : ∀ d ∈ parentWay current p, fs.find? d = some .directory)
    (hup : ¬ ∃ s, p.steps.getLast? = some (.name s)) : fs.find? (target current p) = some .directory := by
  have hparent := find?_arrive (find?_origin hcurrent p) hway
  rw [target_eq_follow]
  cases hlast : p.steps.getLast? with
  | none => exact hparent
  | some s =>
    cases s with
    | up => exact hfs _ _ hparent
    | name n => exact absurd ⟨n, hlast⟩ hup

/-- Another write does not clear the way. -/
theorem Blocked.write (hcontent : content (some .directory) = none) (h : Blocked fs current p) :
    Blocked (fs.write current q content).1 current p := by
  rcases h with hname | ⟨d, hd, e, he, hne⟩ | hdirectory
  · exact .inl hname
  · refine .inr (.inl ⟨d, hd, ?_⟩)
    rcases find?_write_cases fs current q hcontent d with hsame | ⟨hn, -, -⟩ | ⟨-, bytes, -, hfile⟩
    · exact ⟨e, hsame.trans he, hne⟩
    · rw [hn] at he
      cases he
    · exact ⟨_, hfile, nofun⟩
  · exact .inr (.inr (find?_directory_write fs current q hcontent hdirectory))

theorem nameable_of_read? (hfs : fs.IsTree) (hcurrent : fs.find? current = some .directory) {bytes : ByteArray}
    (h : fs.read? current p = some bytes) : Nameable p := by
  obtain ⟨hpass, hasks, hfile, hway⟩ := (read?_eq_some_iff_find? fs current p bytes).mp h
  refine ⟨hpass, hasks, ?_⟩
  by_contra hup
  rw [find?_target_of_not_nameable hfs hcurrent hway hup] at hfile
  cases hfile

/-- Where a file is read, only the file itself can hinder a write. -/
theorem Hindered.eq_none_of_read? (h : Hindered content fs current p) (hname : Nameable p) {bytes : ByteArray}
    (hread : fs.read? current p = some bytes) : content (some (.file bytes)) = none := by
  obtain ⟨-, -, hfile, hway⟩ := (read?_eq_some_iff_find? fs current p bytes).mp hread
  rcases h with hno | ⟨d, hd, e, he, hne⟩ | hnone
  · exact absurd hname hno
  · rw [hway d hd] at he
    exact absurd (Option.some.inj he).symm hne
  · rwa [hfile] at hnone

theorem Blocked.hindered (h : Blocked fs current p) (hcontent : content (some .directory) = none) :
    Hindered content fs current p := by
  refine h.imp_right (Or.imp_right fun hdirectory => ?_)
  rwa [hdirectory]

theorem Blocked.read?_eq_none (hfs : fs.IsTree) (hcurrent : fs.find? current = some .directory)
    (h : Blocked fs current p) : fs.read? current p = none := by
  rw [Option.eq_none_iff_forall_ne_some]
  intro bytes hread
  have hhindered : Hindered (replacement true bytes) fs current p := h.hindered rfl
  cases hhindered.eq_none_of_read? (nameable_of_read? hfs hcurrent hread) hread

/-- Where nothing else is on the way once a write was tried, its directories have been made. -/
theorem exists_made (hname : Nameable p)
    (hway : ∀ d ∈ parentWay current p, ∀ e, (fs.write current p content).1.find? d = some e → e = .directory) :
    ∃ made, fs.makeDirectories (origin p current) p.parent.steps =
      (made, some (arrive (origin p current) p.parent.steps)) := by
  cases hmade : fs.makeDirectories (origin p current) p.parent.steps with
  | mk made here =>
    cases here with
    | some here => exact ⟨made, by rw [makeDirectories_arrives hmade]⟩
    | none =>
      have hfits : ∀ s ∈ p.parent.steps, s.fits = true := fun s hs => (hname.1.2.1 s hs).1
      have hfails : (fs.makeDirectories (origin p current) p.parent.steps).2 = none := by rw [hmade]
      rw [write_of_not_made hname hmade] at hway
      rw [makeDirectories_succeeds hfits (by rw [hmade]; exact hway)] at hfails
      cases hfails

theorem hindered_of_write_fails (h : (fs.write current p content).2 = false) :
    Hindered content (fs.write current p content).1 current p := by
  by_contra hopen
  simp only [Hindered, not_or, not_not, not_exists, not_and] at hopen
  obtain ⟨hname, hway, htarget⟩ := hopen
  obtain ⟨made, hmade⟩ := exists_made hname hway
  have hwrite : fs.write current p content = _ := write_eq hname hmade
  rw [hwrite] at h htarget
  split at h
  · cases h
  · rename_i hnone
    rw [hnone] at htarget
    exact htarget hnone

/-- A file that could not be replaced never can, or the way to it is open and only room for a new file is missing. -/
theorem blocked_or_open_of_replace_fails {bytes : ByteArray} (h : (fs.replace current p bytes).2 = false) :
    Blocked (fs.replace current p bytes).1 current p ∨ hasRoom current p = false ∧
      ∀ d ∈ parentWay current p, (fs.replace current p bytes).1.find? d = some .directory := by
  by_cases hblocked : Blocked (fs.replace current p bytes).1 current p
  · exact .inl hblocked
  · simp only [Blocked, not_or, not_not, not_exists, not_and] at hblocked
    obtain ⟨hname, hway, htarget⟩ := hblocked
    obtain ⟨made, hmade⟩ := exists_made hname hway
    have hwrite : fs.replace current p bytes = _ := write_eq hname hmade
    rw [hwrite] at h htarget ⊢
    split at h
    · cases h
    · rename_i hnone
      rw [hnone] at htarget
      refine .inr ⟨?_, (makeDirectories_directories hmade).2⟩
      rw [← Bool.not_eq_true]
      intro hroom
      rw [hroom, replacement_of_room bytes htarget] at hnone
      cases hnone

theorem write_fails_iff (hdirectory : content (some .directory) = none)
    (hfile : ∀ e bytes, content e = some bytes → content (some (.file bytes)) ≠ none) :
    (fs.write current p content).2 = false ↔ Hindered content (fs.write current p content).1 current p := by
  refine ⟨hindered_of_write_fails, fun h => ?_⟩
  rw [← Bool.not_eq_true]
  intro hdone
  obtain ⟨hname, -⟩ := of_write_eq_true hdone
  obtain ⟨bytes, hbytes, -, hread⟩ := read?_of_write hdirectory hdone
  exact hfile _ bytes hbytes (h.eq_none_of_read? hname hread)

theorem grows_of_write_fails (h : (fs.write current p content).2 = false) :
    Grows fs (fs.write current p content).1 (parentWay current p) := by
  obtain ⟨fs', hgrows, hwrite | ⟨bytes, -, -, hwrite⟩⟩ := write_cases fs current p content
  · rwa [hwrite]
  · rw [hwrite] at h
    cases h

/-- What could be read is still read where directories have been made. -/
theorem Grows.read?_eq_some {fs' : FileSystem} {made : List Location} (h : Grows fs fs' made) {bytes : ByteArray}
    (hread : fs.read? current p = some bytes) : fs'.read? current p = some bytes := by
  rw [read?_eq_some_iff_find?] at hread ⊢
  obtain ⟨hpass, hasks, hfile, hway⟩ := hread
  exact ⟨hpass, hasks, h.keeps hfile, fun d hd => h.keeps (hway d hd)⟩

/-- The path does not leave a directory again that is missing on its way. -/
def Settled (fs : FileSystem) (current : Location) (p : Path) : Prop :=
  ∀ d ∈ parentWay current p, fs.find? d = none → d <+: target current p

instance (fs : FileSystem) (current : Location) (p : Path) : Decidable (Settled fs current p) := by
  unfold Settled; infer_instance

/-- Directories that have been made on a settled path bring no file within reach. -/
theorem Settled.read?_eq (h : Settled fs current p) (hfs : fs.IsTree) {fs' : FileSystem}
    (hgrows : Grows fs fs' (parentWay current p)) : fs'.read? current p = fs.read? current p := by
  apply Option.ext
  intro bytes
  refine ⟨fun hread => ?_, hgrows.read?_eq_some⟩
  rw [read?_eq_some_iff_find?] at hread ⊢
  obtain ⟨hpass, hasks, hfile, hway⟩ := hread
  have hold : fs.find? (target current p) = some (.file bytes) := by
    rcases hgrows (target current p) with hsame | ⟨-, hdirectory, -⟩
    · rwa [← hsame]
    · rw [hfile] at hdirectory
      cases hdirectory
  refine ⟨hpass, hasks, hold, fun d hd => ?_⟩
  rcases hgrows d with hsame | ⟨hmissing, -, -⟩
  · rw [← hsame]
    exact hway d hd
  · -- A file does not lie below a directory that is missing.
    rw [hfs.find?_prefix (h d hd hmissing) hmissing] at hold
    cases hold

/-- A write that would go over any file and still fails changes nothing that is read at its path, though it may have
made directories. -/
theorem read?_write_of_fails (hfs : fs.IsTree) (hcurrent : fs.find? current = some .directory)
    (hdirectory : content (some .directory) = none) (hfile : ∀ bytes, content (some (.file bytes)) ≠ none)
    (h : (fs.write current p content).2 = false) :
    (fs.write current p content).1.read? current p = fs.read? current p := by
  have hnone : (fs.write current p content).1.read? current p = none := by
    rw [Option.eq_none_iff_forall_ne_some]
    intro bytes hread
    have hname := nameable_of_read? (write_isTree hfs hcurrent p hdirectory)
      (find?_directory_write fs current p hdirectory hcurrent) hread
    exact hfile bytes ((hindered_of_write_fails h).eq_none_of_read? hname hread)
  -- So there was nothing to read before either, since what can be read stays.
  cases hread : fs.read? current p with
  | none => exact hnone
  | some old =>
    rw [(grows_of_write_fails h).read?_eq_some hread] at hnone
    cases hnone

theorem read?_of_replace {bytes : ByteArray} (h : (fs.replace current p bytes).2 = true) :
    (fs.replace current p bytes).1.read? current p = some bytes := by
  obtain ⟨written, hwritten, -, hread⟩ := read?_of_write rfl h
  obtain ⟨-, rfl⟩ := eq_of_replacement hwritten
  exact hread

theorem hasRoom_of_replace {bytes : ByteArray} (h : (fs.replace current p bytes).2 = true) :
    hasRoom current p = true := by
  obtain ⟨-, made, written, -, hwritten, -⟩ := of_write_eq_true h
  exact (eq_of_replacement hwritten).1

theorem settled_of_open (h : ∀ d ∈ parentWay current p, fs.find? d = some .directory) : Settled fs current p := by
  intro d hd hmissing
  rw [h d hd] at hmissing
  cases hmissing

theorem Blocked.read?_replace (h : Blocked fs current p) (hfs : fs.IsTree)
    (hcurrent : fs.find? current = some .directory) (bytes : ByteArray) :
    (fs.replace current p bytes).1.read? current p = fs.read? current p := by
  rw [h.read?_eq_none hfs hcurrent]
  exact (h.write rfl).read?_eq_none (write_isTree hfs hcurrent p rfl) (find?_directory_write fs current p rfl hcurrent)

/-- A file that cannot be replaced is read as before, unless there is no room for a new one and the directories that
were made bring the file within reach. -/
theorem read?_of_replace_fails (hfs : fs.IsTree) (hcurrent : fs.find? current = some .directory)
    (hreach : hasRoom current p = true ∨ Settled fs current p) {bytes : ByteArray}
    (h : (fs.replace current p bytes).2 = false) :
    (fs.replace current p bytes).1.read? current p = fs.read? current p := by
  rcases hreach with hroom | hsettled
  · refine read?_write_of_fails hfs hcurrent rfl (fun old => ?_) h
    simp [replacement, hroom]
  · exact hsettled.read?_eq hfs (grows_of_write_fails h)

/-- Where there is no room for a new file, directories are made and no more. -/
theorem replace_of_no_room (hp : Nameable p) (hroom : hasRoom current p = false) (bytes : ByteArray) :
    fs.replace current p bytes = ((fs.makeDirectories (origin p current) p.parent.steps).1, false) := by
  rw [replace, hroom]
  cases hmade : fs.makeDirectories (origin p current) p.parent.steps with
  | mk made here =>
    cases here with
    | none => exact write_of_not_made hp hmade
    | some here => rw [write_eq hp hmade, replacement_of_no_room]

/-- A file in a directory, and nothing else. -/
def shelved : FileSystem := ⟨[(["d"], .directory), (["d", "f"], .file "old".toUTF8)]⟩

theorem shelved_isTree : shelved.IsTree := isTree_of_entries (by simp [shelved, find?])

/-- The longest way to the file: another name beside it would be too long. -/
def farPath : Path := Path.ofText (Path.detour 2042)

theorem nameable_farPath : Nameable farPath := by
  have hsteps : farPath.steps = [.name "n", .up, .name "d", .name "f"] := by
    rw [farPath, Path.ofText_detour]
    decide +kernel
  have hshort : farPath.isShort = true ∧ farPath.asksDirectory = false := by
    rw [farPath, Path.ofText_detour]
    decide +kernel
  refine ⟨⟨hshort.1, ?_, ?_⟩, hshort.2, "f", ?_⟩
  · rw [Path.steps_parent, hsteps]
    decide
  · rw [hsteps]
    rintro s ⟨⟩
    decide
  · rw [hsteps]
    rfl

/-- The file is out of reach until a write at its path has failed. -/
theorem replace_farPath (bytes : ByteArray) :
    shelved.read? [] farPath = none ∧ (shelved.replace [] farPath bytes).2 = false ∧
      (shelved.replace [] farPath bytes).1.read? [] farPath = some "old".toUTF8 := by
  have hroom : hasRoom [] farPath = false := by
    rw [farPath, Path.ofText_detour]
    decide +kernel
  rw [replace_of_no_room nameable_farPath hroom, farPath, Path.ofText_detour]
  exact ⟨by decide +kernel, rfl, by decide +kernel⟩

theorem read?_write_of_read? (hcontent : content (some .directory) = none) (hne : target current p ≠ target current q)
    {bytes : ByteArray} (h : fs.read? current p = some bytes) :
    (fs.write current q content).1.read? current p = some bytes := by
  rw [read?_eq_some_iff_find?] at h ⊢
  obtain ⟨hpass, hasks, hfile, hway⟩ := h
  refine ⟨hpass, hasks, ?_, fun d hd => find?_directory_write _ current q hcontent (hway d hd)⟩
  exact (find?_file_write _ hcontent hne bytes).mpr hfile

/-- A write to another place changes nothing that is read at a path whose way is open. -/
theorem read?_write_of_open (hway : ∀ d ∈ parentWay current p, fs.find? d = some .directory)
    (hcontent : content (some .directory) = none) (hne : target current p ≠ target current q) :
    (fs.write current q content).1.read? current p = fs.read? current p := by
  apply Option.ext
  intro bytes
  rw [read?_eq_some_iff_find?, read?_eq_some_iff_find?, find?_file_write fs hcontent hne]
  have hstill : ∀ d ∈ parentWay current p, (fs.write current q content).1.find? d = some .directory := fun d hd =>
    find?_directory_write fs current q hcontent (hway d hd)
  exact and_congr_right fun _ => and_congr_right fun _ => and_congr_right fun _ => iff_of_true hstill hway

/-- A write to another place changes nothing that is read at a path after its file was to be replaced. -/
theorem read?_write_replace (hfs : fs.IsTree) (hcurrent : fs.find? current = some .directory) (bytes : ByteArray)
    (hcontent : content (some .directory) = none) (hne : target current p ≠ target current q) :
    ((fs.replace current p bytes).1.write current q content).1.read? current p =
      (fs.replace current p bytes).1.read? current p := by
  have htree : (fs.replace current p bytes).1.IsTree := write_isTree hfs hcurrent p rfl
  have hstands : (fs.replace current p bytes).1.find? current = some .directory :=
    find?_directory_write fs current p rfl hcurrent
  cases hdone : (fs.replace current p bytes).2 with
  | true =>
    have hread := read?_of_replace hdone
    rw [hread, read?_write_of_read? hcontent hne hread]
  | false =>
    rcases blocked_or_open_of_replace_fails hdone with hblocked | ⟨-, hway⟩
    · rw [hblocked.read?_eq_none htree hstands]
      exact (hblocked.write hcontent).read?_eq_none (write_isTree htree hstands q hcontent)
        (find?_directory_write _ current q hcontent hstands)
    · exact read?_write_of_open hway hcontent hne

end SpawnGate.FileSystem
