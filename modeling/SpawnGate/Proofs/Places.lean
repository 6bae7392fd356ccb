import SpawnGate.Proofs.Files
import SpawnGate.Proofs.Paths

/-!
Where the files of a home and of a project lie: under the place that the home's or the project's own path leads to,
at names that do not depend on it.
-/

namespace SpawnGate

namespace FileSystem

theorem arrive_names (here : Location) (names : List String) : arrive here (names.map .name) = here ++ names := by
  induction names generalizing here with
  | nil => exact (List.append_nil here).symm
  | cons n names ih => exact (ih (here ++ [n])).trans (List.append_assoc here [n] names)

theorem target_join (current : Location) (base : String) {rest : String} (h : rest.startsWith "/" = false) :
    target current (Path.ofText (Path.join base rest)) =
      arrive (target current (Path.ofText base)) (Path.ofText rest).steps := by
  have horigin : origin (Path.ofText (Path.join base rest)) current = origin (Path.ofText base) current := by
    unfold origin
    rw [Path.isAbsolute_join base h]
  rw [target, horigin, Path.steps_join base h, arrive_append]
  rfl

theorem target_join_names (current : Location) (base : String) {rest : String} {names : List String}
    (hrest : rest.startsWith "/" = false) (hsteps : (Path.ofText rest).steps = names.map .name) :
    target current (Path.ofText (Path.join base rest)) = target current (Path.ofText base) ++ names := by
  rw [target_join current base hrest, hsteps, arrive_names]

variable (current : Location) (home root : String)

theorem target_claude :
    target current (Path.ofText (Path.join home ".claude")) = target current (Path.ofText home) ++ [".claude"] :=
  target_join_names current home (by decide +kernel) (by decide)

theorem target_marker :
    target current (Path.ofText (Locations.marker root)) = target current (Path.ofText root) ++ [".atm.toml"] :=
  target_join_names current root (by decide +kernel) (by decide)

theorem target_eventLog :
    target current (Path.ofText (Locations.eventLog home)) =
      target current (Path.ofText home) ++ [".claude", "daemon", "hooks", "events.jsonl"] :=
  target_join_names current home (by decide +kernel) (by decide)

theorem target_daemonSocket :
    target current (Path.ofText (Locations.daemonSocket home)) =
      target current (Path.ofText home) ++ [".claude", "daemon", "atm-daemon.sock"] :=
  target_join_names current home (by decide +kernel) (by decide)

theorem target_teams :
    target current (Path.ofText (Path.join home Locations.teamsDirectory)) =
      target current (Path.ofText home) ++ [".claude", "teams"] :=
  target_join_names current home (by decide +kernel) (by decide)

theorem target_teamConfig {team : String} (h : Locations.isTeamName team = true) :
    target current (Path.ofText (Locations.teamConfig home team)) =
      target current (Path.ofText home) ++ [".claude", "teams", team, "config.json"] := by
  have horigin : origin (Path.ofText (Locations.teamConfig home team)) current = origin (Path.ofText home) current := by
    unfold origin
    rw [Locations.isAbsolute_teamConfig home h]
  rw [target, horigin, Locations.steps_teamConfig home h, arrive_append]
  exact arrive_names _ [".claude", "teams", team, "config.json"]

theorem claude_prefix_target_teamConfig {team : String} (h : Locations.isTeamName team = true) :
    target current (Path.ofText (Path.join home ".claude")) <+:
      target current (Path.ofText (Locations.teamConfig home team)) := by
  rw [target_claude, target_teamConfig current home h]
  exact ⟨["teams", team, "config.json"], by rw [List.append_assoc]; rfl⟩

theorem claude_prefix_target_eventLog :
    target current (Path.ofText (Path.join home ".claude")) <+:
      target current (Path.ofText (Locations.eventLog home)) := by
  rw [target_claude, target_eventLog]
  exact ⟨["daemon", "hooks", "events.jsonl"], by rw [List.append_assoc]; rfl⟩

theorem parentWay_join_names (names : List String) (last : String) {rest : String} (hrest : rest.startsWith "/" = false)
    (hsteps : (Path.ofText rest).steps = (names ++ [last]).map .name) :
    parentWay current (Path.ofText (Path.join home rest)) =
      way (origin (Path.ofText home) current) (Path.ofText home).steps ++
        way (target current (Path.ofText home)) (names.map .name) := by
  have horigin : origin (Path.ofText (Path.join home rest)) current = origin (Path.ofText home) current := by
    unfold origin
    rw [Path.isAbsolute_join home hrest]
  rw [parentWay, horigin, Path.steps_parent, Path.steps_join home hrest, hsteps, List.map_append, List.map_singleton,
    ← List.append_assoc, List.dropLast_concat, way_append]
  rfl

theorem parentWay_eventLog :
    parentWay current (Path.ofText (Locations.eventLog home)) =
      way (origin (Path.ofText home) current) (Path.ofText home).steps ++
        way (target current (Path.ofText home)) ([".claude", "daemon", "hooks"].map .name) :=
  parentWay_join_names current home [".claude", "daemon", "hooks"] "events.jsonl" (by decide +kernel) (by decide)

theorem parentWay_daemonSocket :
    parentWay current (Path.ofText (Locations.daemonSocket home)) =
      way (origin (Path.ofText home) current) (Path.ofText home).steps ++
        way (target current (Path.ofText home)) ([".claude", "daemon"].map .name) :=
  parentWay_join_names current home [".claude", "daemon"] "atm-daemon.sock" (by decide +kernel) (by decide)

theorem way_of_entry? {fs : FileSystem} {p : Path} (h : fs.entry? current p = some .directory) :
    ∀ d ∈ way (origin p current) p.steps, fs.find? d = some .directory := by
  obtain ⟨hfound, -⟩ := Option.filter_eq_some_iff.mp h
  obtain ⟨l, hl, hdirectory⟩ := Option.bind_eq_some_iff.mp hfound
  obtain ⟨-, hway, rfl⟩ := (locate?_eq_some_iff fs current l p).mp hl
  rw [parentWay, Path.steps_parent] at hway
  intro d hd
  rcases List.eq_nil_or_concat p.steps with hnil | ⟨steps, last, hlast⟩
  · rw [hnil] at hd
    cases hd
  · rw [target, hlast, List.concat_eq_append, arrive_append] at hdirectory
    rw [hlast, List.concat_eq_append, List.dropLast_concat] at hway
    rw [hlast, List.concat_eq_append, way_append, List.mem_append] at hd
    rcases hd with hd | hd
    · exact hway d hd
    · rw [List.mem_singleton.mp hd]
      exact hdirectory

/-- Logging under a home that is there changes nothing of what the path of the daemon's socket leads to. -/
theorem entry?_daemonSocket_append {fs : FileSystem} (hfs : fs.IsTree)
    (hhome : fs.entry? current (Path.ofText home) = some .directory) (bytes : ByteArray) :
    FileSystem.entry? (fs.append current (Path.ofText (Locations.eventLog home)) bytes).1 current
        (Path.ofText (Locations.daemonSocket home)) =
      fs.entry? current (Path.ofText (Locations.daemonSocket home)) := by
  have hway := way_of_entry? current hhome
  have hthere {d : Location} (hmissing : fs.find? d = none)
      (hd : d ∈ way (origin (Path.ofText home) current) (Path.ofText home).steps) : False := by
    rw [hway d hd] at hmissing
    cases hmissing
  apply entry?_write hfs rfl
  · rintro (hsame | ⟨d, -, hd, hmissing, hout⟩)
    · rw [target_eventLog, target_daemonSocket] at hsame
      simp at hsame
    · -- What may still be missing on the way to the socket lies above it.
      rw [parentWay_daemonSocket, List.mem_append] at hd
      rcases hd with hd | hd
      · exact hthere hmissing hd
      · rw [target_daemonSocket] at hout
        simp only [List.map_cons, List.map_nil, way, follow, List.append_assoc, List.mem_cons, List.not_mem_nil,
          or_false] at hd
        rcases hd with rfl | rfl
        · exact hout ⟨["daemon", "atm-daemon.sock"], by rw [List.append_assoc]; rfl⟩
        · exact hout ⟨["atm-daemon.sock"], by rw [List.append_assoc]; rfl⟩
  · intro hmissing hmade
    rw [parentWay_eventLog, List.mem_append] at hmade
    rcases hmade with hmade | hmade
    · exact hthere hmissing hmade
    · rw [target_daemonSocket] at hmade
      simp [way, follow] at hmade

end FileSystem

end SpawnGate
