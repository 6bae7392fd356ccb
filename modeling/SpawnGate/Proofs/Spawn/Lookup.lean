import SpawnGate.Proofs.Places
import SpawnGate.Proofs.Runs
import SpawnGate.Proofs.Trimming

/-!
What the lookup of a lead asks of the machine: nothing at all, or to read the one file of a team whose trimmed name
stands for a directory. That file lies in the teams directory under the home.
-/

namespace SpawnGate

namespace Locations

/-- A team's name as one directory name, and as nothing else. -/
structure Plain (team : String) : Prop where
  ne_empty : team ≠ ""
  ne_here : team ≠ "."
  ne_up : team ≠ ".."
  no_slash : '/' ∉ team.toList
  no_backslash : '\\' ∉ team.toList

theorem isTeamName_iff (team : String) : isTeamName team = true ↔ Plain team := by
  simp only [isTeamName, Bool.and_eq_true, bne_iff_ne, ne_eq, Bool.not_eq_true', List.any_eq_false, Bool.or_eq_true,
    beq_iff_eq, not_or]
  constructor
  · rintro ⟨⟨⟨hempty, hhere⟩, hup⟩, hchars⟩
    exact ⟨hempty, hhere, hup, fun h => (hchars _ h).1 rfl, fun h => (hchars _ h).2 rfl⟩
  · rintro ⟨hempty, hhere, hup, hslash, hbackslash⟩
    refine ⟨⟨⟨hempty, hhere⟩, hup⟩, fun c hc => ⟨?_, ?_⟩⟩
    · rintro rfl
      exact hslash hc
    · rintro rfl
      exact hbackslash hc

instance (team : String) : Decidable (Plain team) :=
  decidable_of_iff _ (isTeamName_iff team)

theorem filter_usable_eq (team : String) : (Text.usable team).filter isTeamName =
    if Plain (Text.trim team) then some (Text.trim team) else none := by
  by_cases hplain : Plain (Text.trim team)
  · have husable : Text.usable team = some (Text.trim team) :=
      (Text.usable_eq_some_iff _ _).mpr ⟨rfl, hplain.ne_empty⟩
    rw [husable, Option.filter_some, (isTeamName_iff _).mpr hplain, if_pos rfl, if_pos hplain]
  · rw [if_neg hplain, Option.filter_eq_none_iff]
    intro name hname
    obtain ⟨rfl, -⟩ := (Text.usable_eq_some_iff _ _).mp hname
    rwa [isTeamName_iff]

theorem steps_teamConfig_teams (home : String) {team : String} (h : isTeamName team = true) :
    (Path.ofText (teamConfig home team)).steps =
      (Path.ofText (Path.join home teamsDirectory)).steps ++ [.name team, .name "config.json"] := by
  have hteams : (Path.ofText teamsDirectory).steps = [.name ".claude", .name "teams"] := by decide
  rw [steps_teamConfig home h, Path.steps_join _ (by decide +kernel), hteams, List.append_assoc]
  rfl

theorem eq_of_steps_teamConfig {home team other : String} (h : isTeamName team = true)
    (hother : isTeamName other = true)
    (heq : (Path.ofText (teamConfig home team)).steps = (Path.ofText (teamConfig home other)).steps) :
    team = other := by
  rw [steps_teamConfig home h, steps_teamConfig home hother] at heq
  simpa using List.append_cancel_left heq

end Locations

inductive Access where
  | read (path : String)
  | replace (path : String)
  | append (path : String)
  | request (path : String)
deriving DecidableEq, Repr

namespace World

/-- A run on a machine that notes in order what it is asked for. -/
abbrev Watched := StateT (List Access) Run

def noting {α : Type} (a : Access) (x : Run α) : Watched α := do
  modify (· ++ [a])
  x

instance : Host Watched where
  readFile path := noting (.read path) (Host.readFile path)
  replaceFile path bytes := noting (.replace path) (Host.replaceFile path bytes)
  appendFile path bytes := noting (.append path) (Host.appendFile path bytes)
  request path line := noting (.request path) (Host.request path line)

end World

namespace Registry

open Locations

def leadOfFile (team : String) (bytes : Option ByteArray) : Option String :=
  (bytes.bind String.fromUTF8?).bind fun text => (leadOfEntry team text).toOption

/-- On every machine a lookup is no access at all, or one reading and a function of what was read. -/
theorem lead?_eq {m : Type → Type} [Monad m] [LawfulMonad m] [Host m] (home team : String) :
    (lead? home team : m (Option String)) =
      if Plain (Text.trim team) then
        leadOfFile (Text.trim team) <$> Host.readFile (teamConfig home (Text.trim team))
      else pure none := by
  unfold lead? readLead Host.readText
  rw [filter_usable_eq]
  by_cases hplain : Plain (Text.trim team)
  · simp only [if_pos hplain, map_eq_pure_bind, bind_assoc, pure_bind]
    apply bind_congr
    intro bytes
    unfold leadOfFile
    cases bytes.bind String.fromUTF8? <;> simp [Except.toOption]
  · simp only [if_neg hplain]

theorem neat_leadOfFile {team lead : String} {bytes : Option ByteArray} (h : leadOfFile team bytes = some lead) :
    Text.Neat lead := by
  obtain ⟨text, -, hlead⟩ := Option.bind_eq_some_iff.mp h
  unfold leadOfEntry at hlead
  split at hlead
  · split at hlead
    · cases hlead
    · split at hlead
      · rename_i id hid
        obtain rfl := Option.some.inj hlead
        obtain ⟨raw, -, hraw⟩ := Option.bind_eq_some_iff.mp hid
        exact Text.neat_of_usable hraw
      · cases hlead
  · cases hlead

/-- A lookup on a machine that is watched: what it finds, what it asked for, and the machine after it. -/
def watched (home team : String) (w : World) : Option String × List Access × World :=
  let r := ((lead? home team : World.Watched (Option String)).run []).run w
  (r.1.1, r.1.2, r.2)

def fileOf (home team : String) (w : World) : Option ByteArray :=
  w.files.read? w.directory (Path.ofText (teamConfig home team))

theorem watched_eq (home team : String) (w : World) :
    watched home team w =
      if Plain (Text.trim team) then
        (leadOfFile (Text.trim team) (fileOf home (Text.trim team) w), [.read (teamConfig home (Text.trim team))], w)
      else (none, [], w) := by
  unfold watched
  rw [lead?_eq]
  split
  · rfl
  · rfl

theorem run_lead?_eq_watched (home team : String) (w : World) :
    (lead? home team : World.Run (Option String)).run w = ((watched home team w).1, w) := by
  rw [watched_eq, lead?_eq]
  split
  · rfl
  · rfl

/-- A lookup asks for nothing unless the trimmed team is a plain name, and then only for that team's own file in the
teams directory. What it finds depends on that file alone, and is an id without white space around it. -/
theorem lookup_stays_inside (home team : String) :
    (∀ w, (lead? home team : World.Run (Option String)).run w = ((watched home team w).1, w)) ∧
    (¬ Plain (Text.trim team) → ∀ w, watched home team w = (none, [], w)) ∧
    (Plain (Text.trim team) → ∀ w, ∃ lead,
      watched home team w = (lead, [.read (teamConfig home (Text.trim team))], w)) ∧
    (∀ t, Plain t →
      (Path.ofText (teamConfig home t)).isAbsolute = (Path.ofText home).isAbsolute ∧
      (Path.ofText (teamConfig home t)).steps =
        (Path.ofText (Path.join home teamsDirectory)).steps ++ [.name t, .name "config.json"] ∧
      (∀ current, FileSystem.target current (Path.ofText (teamConfig home t)) =
        FileSystem.target current (Path.ofText (Path.join home teamsDirectory)) ++ [t, "config.json"]) ∧
      ∀ t', Plain t' → (Path.ofText (teamConfig home t)).steps = (Path.ofText (teamConfig home t')).steps → t = t') ∧
    (∀ w w', (Plain (Text.trim team) → fileOf home (Text.trim team) w = fileOf home (Text.trim team) w') →
      (watched home team w).1 = (watched home team w').1) ∧
    ∀ w lead, (watched home team w).1 = some lead → Text.Neat lead := by
  refine ⟨run_lead?_eq_watched home team, ?_, ?_, ?_, ?_, ?_⟩
  · intro hplain w
    rw [watched_eq, if_neg hplain]
  · intro hplain w
    exact ⟨_, by rw [watched_eq, if_pos hplain]⟩
  · intro t ht
    have hname := (isTeamName_iff t).mpr ht
    refine ⟨isAbsolute_teamConfig home hname, steps_teamConfig_teams home hname, fun current => ?_, fun t' ht' => ?_⟩
    · rw [FileSystem.target_teamConfig current home hname, FileSystem.target_teams, List.append_assoc]
      rfl
    · exact eq_of_steps_teamConfig hname ((isTeamName_iff t').mpr ht')
  · intro w w' hfile
    rw [watched_eq, watched_eq]
    by_cases hplain : Plain (Text.trim team)
    · rw [if_pos hplain, if_pos hplain, hfile hplain]
    · rw [if_neg hplain, if_neg hplain]
  · intro w lead hlead
    rw [watched_eq] at hlead
    split at hlead
    · exact neat_leadOfFile hlead
    · cases hlead

def ledBy (lead : String) : World where
  files := ⟨[(["h"], .directory), (["h", ".claude"], .directory), (["h", ".claude", "teams"], .directory),
    (["h", ".claude", "teams", "t"], .directory), (["h", ".claude", "teams", "t", "config.json"],
      .file ("\x7b\"leadSessionId\":\"" ++ lead ++ "\"\x7d").toUTF8)]⟩
  directory := []
  sent := []

theorem lookup_stays_inside_padded :
    Plain (Text.trim " t ") ∧ ¬ Plain (Text.trim " ../t") ∧
      watched "/h" " t " (ledBy " lead ") =
        (some "lead", [.read "/h/.claude/teams/t/config.json"], ledBy " lead ") ∧
      ∀ w, watched "/h" " ../t" w = (none, [], w) := by
  have hplain : Plain (Text.trim " t ") := by decide +kernel
  have hup : ¬ Plain (Text.trim " ../t") := by decide +kernel
  have hpath : teamConfig "/h" (Text.trim " t ") = "/h/.claude/teams/t/config.json" := by decide +kernel
  have hlead : (watched "/h" " t " (ledBy " lead ")).1 = some "lead" := by decide +kernel
  obtain ⟨-, -, hinside, -⟩ := lookup_stays_inside "/h" " t "
  obtain ⟨-, hnothing, -⟩ := lookup_stays_inside "/h" " ../t"
  obtain ⟨lead, hwatched⟩ := hinside hplain (ledBy " lead ")
  rw [hwatched] at hlead
  simp only at hlead
  rw [hpath, hlead] at hwatched
  exact ⟨hplain, hup, hwatched, hnothing hup⟩

end Registry

end SpawnGate
