import SpawnGate.Proofs.Paths
import SpawnGate.Proofs.Runs
import SpawnGate.Proofs.Spawn.Decision
import SpawnGate.Proofs.Spawn.Lead
import SpawnGate.Proofs.Spawn.Reading

/-!
When a run of the gate blocks: the input, the marker and the registry meet in three rules.
-/

namespace SpawnGate

open Hook

namespace World

/-- The lead that a team's registry file names. -/
def HasLead (w : World) (home team id : String) : Prop :=
  ∃ text, w.text? (Locations.teamConfig home team) = some text ∧ Registry.TextNames text id

end World

/-- The three ways in which a spawn that an input asks for is forbidden. -/
inductive Forbidden (v : Json.Value) (config : Option ProjectConfig) (HasLead : String → String → Prop) :
    Prop
  | unnamed {kind : String} :
      FirstText v [["tool_input", "subagent_type"], ["tool_input", "agent_kind"]] kind →
      (kind = "scrum-master" ∨ ∃ c, config = some c ∧ kind ∈ c.roles) →
      (∀ name, ¬ TextAt v ["tool_input", "name"] name) → Forbidden v config HasLead
  | otherTeam {team required : String} {c : ProjectConfig} : TextAt v ["tool_input", "team_name"] team →
      config = some c → c.requiredTeam = some required → team ≠ required → Forbidden v config HasLead
  | notLead {team lead caller : String} : TextAt v ["tool_input", "team_name"] team →
      Locations.isTeamName team = true → HasLead team lead → FirstText v [["session_id"]] caller →
      caller ≠ lead → Forbidden v config HasLead

namespace Invocation

def leadIn (i : Invocation) (w : World) (team : String) : Option String :=
  match i.home with
  | .ok home => ((Text.usable team).filter Locations.isTeamName).bind fun team =>
      (w.text? (Locations.teamConfig home team)).bind fun text =>
        (Registry.leadOfEntry team text).toOption
  | .error _ => none

theorem run_leads (i : Invocation) (team : String) (w : World) :
    (i.leads team : World.Run (Option String)).run w = (i.leadIn w team, w) := by
  unfold leads leadIn
  cases i.home with
  | ok home => exact World.run_lead? home team w
  | error => rfl

def outcomeOf : Decision → Outcome
  | .allow => .silent
  | .block v => .blocked v

theorem status_outcomeOf (d : Decision) : (outcomeOf d).status = 2 ↔ d ≠ .allow := by
  cases d <;> simp [outcomeOf, Outcome.silent, Outcome.blocked, Outcome.blockStatus]

theorem run_gate_of_none {i : Invocation} (root : String) (w : World)
    (h : (String.fromUTF8? i.stdin).bind SpawnRequest.ofText? = none) :
    (i.gate root : World.Run Outcome).run w = (.silent, w) := by
  simp only [gate, h]
  rfl

/-- The gate records the caller, and reads the marker and the registry after that. -/
theorem run_gate_of_some {i : Invocation} (root : String) (w : World) {r : SpawnRequest}
    (h : (String.fromUTF8? i.stdin).bind SpawnRequest.ofText? = some r) :
    (i.gate root : World.Run Outcome).run w =
      (outcomeOf (Policy.decide (i.leadIn (w.recorded i.cache r.callerId))
        ((w.recorded i.cache r.callerId).config? root) r), w.recorded i.cache r.callerId) := by
  simp only [gate, h, World.run_bind, World.run_record, World.run_probe]
  rw [Policy.run_evaluate _ _ _ fun team => run_leads i team _]
  change StateT.run (match Policy.decide _ _ r with
    | .allow => pure Outcome.silent
    | .block v => pure (Outcome.blocked v) : World.Run Outcome) _ = _
  cases Policy.decide (i.leadIn (w.recorded i.cache r.callerId)) _ r <;> rfl

theorem read_gate (inherited : Option String) (h : inherited ≠ some "") :
    CommandLine.read inherited ["gate"] = .run ⟨inherited, false, .gate⟩ := by
  have hread : CommandLine.read inherited ["gate"] =
      CommandLine.conclude inherited ⟨.gate, {}, [{}]⟩ := rfl
  rw [hread]
  simp [CommandLine.conclude, CommandLine.settle, CommandLine.Seen.settle, CommandLine.command?, h,
    Option.filter]

theorem leadIn_eq_some_iff (i : Invocation) (w : World) {team : String}
    (hteam : Text.usable team = some team) (lead : String) :
    i.leadIn w team = some lead ↔ Locations.isTeamName team = true ∧
      ∃ home, i.home = .ok home ∧ w.HasLead home team lead := by
  unfold leadIn World.HasLead
  cases i.home with
  | error => simp
  | ok home =>
    simp only [hteam, Option.filter_some, Except.ok.injEq, exists_eq_left']
    cases Locations.isTeamName team <;>
      simp [Option.bind_eq_some_iff, Registry.toOption_leadOfEntry_iff_textNames]

theorem violates_iff_forbidden (i : Invocation) (w : World) (v : Json.Value)
    (config : Option ProjectConfig) :
    (∃ rule, Policy.Violates (i.leadIn w) config (SpawnRequest.ofValue v) rule) ↔
      Forbidden v config fun team lead =>
        ∃ home, i.home = .ok home ∧ w.HasLead home team lead := by
  constructor
  · rintro ⟨rule, h⟩
    cases rule with
    | namedTeammate =>
      obtain ⟨hname, hrole⟩ := h
      exact .unnamed ((SpawnRequest.agentKind_ofValue_iff v _).mp rfl)
        ((Policy.isOrchestrator_iff _ _).mp hrole) ((SpawnRequest.teammate_ofValue_eq_none_iff v).mp hname)
    | teamBinding =>
      obtain ⟨team, required, hteam, hrequired, hne⟩ := h
      obtain ⟨c, hc, hrequired⟩ := Option.bind_eq_some_iff.mp hrequired
      exact .otherTeam ((SpawnRequest.team_ofValue_eq_some_iff v team).mp hteam) hc hrequired hne
    | leadOnly =>
      obtain ⟨team, lead, hteam, hlead, hne⟩ := h
      have hat := (SpawnRequest.team_ofValue_eq_some_iff v team).mp hteam
      obtain ⟨hname, hhas⟩ := (leadIn_eq_some_iff i w hat.usable lead).mp hlead
      exact .notLead hat hname hhas ((SpawnRequest.callerId_ofValue_iff v _).mp rfl) hne
  · rintro (⟨hkind, hrole, hname⟩ | ⟨hteam, hc, hrequired, hne⟩ | ⟨hteam, hname, hhas, hcaller, hne⟩)
    · refine ⟨.namedTeammate, (SpawnRequest.teammate_ofValue_eq_none_iff v).mpr hname, ?_⟩
      rw [(SpawnRequest.agentKind_ofValue_iff v _).mpr hkind]
      exact (Policy.isOrchestrator_iff _ _).mpr hrole
    · exact ⟨.teamBinding, _, _, (SpawnRequest.team_ofValue_eq_some_iff v _).mpr hteam,
        Option.bind_eq_some_iff.mpr ⟨_, hc, hrequired⟩, hne⟩
    · refine ⟨.leadOnly, _, _, (SpawnRequest.team_ofValue_eq_some_iff v _).mpr hteam,
        (leadIn_eq_some_iff i w hteam.usable _).mpr ⟨hname, hhas⟩, ?_⟩
      rwa [(SpawnRequest.callerId_ofValue_iff v _).mpr hcaller]

theorem leadIn_recorded (i : Invocation) {w : World} (hw : w.files.IsTree)
    (hteams : ∀ home team, i.home = .ok home → Locations.isTeamName team = true →
      ¬ w.Aliases i.cache (Locations.teamConfig home team)) (id : String) :
    i.leadIn (w.recorded i.cache id) = i.leadIn w := by
  funext team
  unfold leadIn
  cases hhome : i.home with
  | error => rfl
  | ok home =>
    cases hteam : (Text.usable team).filter Locations.isTeamName with
    | none => simp only [Option.bind_none]
    | some name =>
      have hname := (Option.filter_eq_some_iff.mp hteam).2
      simp only [Option.bind_some]
      rw [World.text?_recorded hw id (hteams home name hhome hname)]

/-- The gate blocks exactly if its input is an object that asks for a forbidden spawn. -/
theorem gate_blocks_iff (i : Invocation) (w : World) (harguments : i.arguments = ["gate"])
    (hroot : i.environment rootVariable ≠ some "") (hw : w.files.IsTree)
    (hmarker : ¬ w.Aliases i.cache (Locations.marker ((i.environment rootVariable).getD "")))
    (hteams : ∀ home team, i.home = .ok home → Locations.isTeamName team = true →
      ¬ w.Aliases i.cache (Locations.teamConfig home team)) :
    ((i.run : World.Run Outcome).run w).1.status = 2 ↔
      ∃ text members, String.fromUTF8? i.stdin = some text ∧
        Json.Value.ofText? text = some (.object members) ∧
        Forbidden (.object members) (w.config? ((i.environment rootVariable).getD "")) fun team lead =>
          ∃ home, i.home = .ok home ∧ w.HasLead home team lead := by
  have hrun : (i.run : World.Run Outcome) = i.gate ((i.environment rootVariable).getD "") := by
    simp only [run, harguments, read_gate _ hroot, perform]
  rw [hrun]
  cases hinput : (String.fromUTF8? i.stdin).bind SpawnRequest.ofText? with
  | none =>
    rw [run_gate_of_none _ w hinput]
    constructor
    · intro h
      cases h
    · rintro ⟨text, members, htext, hvalue, -⟩
      rw [htext, Option.bind_some, (SpawnRequest.ofText?_eq_some_iff text _).mpr ⟨members, hvalue, rfl⟩]
        at hinput
      cases hinput
  | some r =>
    obtain ⟨text, htext, hr⟩ := Option.bind_eq_some_iff.mp hinput
    obtain ⟨members, hvalue, rfl⟩ := (SpawnRequest.ofText?_eq_some_iff text r).mp hr
    rw [run_gate_of_some _ w hinput, status_outcomeOf, Policy.decide_ne_allow_iff,
      leadIn_recorded i hw hteams, World.config?, World.text?_recorded hw _ hmarker, violates_iff_forbidden]
    constructor
    · intro h
      exact ⟨text, members, htext, hvalue, h⟩
    · rintro ⟨text', members', htext', hvalue', h⟩
      obtain rfl : text = text' := Option.some.inj (htext.symm.trans htext')
      cases hvalue.symm.trans hvalue'
      exact h

def ledEntry : String := "\x7b\"leadSessionId\":\" lead \"\x7d"

def ledMembers : List (List Json.Symbol × Json.Tree) :=
  [("leadSessionId".toList.map .plain, .string (" lead ".toList.map .plain))]

theorem textNames_ledEntry : Registry.TextNames ledEntry "lead" := by
  have hwritten : (Json.Tree.object ledMembers).Written ledEntry.toList := Json.Token.spells_of_scan (by decide +kernel)
  exact .object ⟨hwritten, by decide⟩ ⟨_, " lead ", rfl, rfl, by decide, by decide⟩

/-- A machine with one team, whose lead is another session than the one that asks. -/
def ledTeam : World where
  files := ⟨[(["h"], .directory), (["h", ".claude"], .directory), (["h", ".claude", "teams"], .directory),
    (["h", ".claude", "teams", "t"], .directory),
    (["h", ".claude", "teams", "t", "config.json"], .file ledEntry.toUTF8)]⟩
  directory := []
  sent := []

def joiningInput : String :=
  "\x7b\"session_id\":\"s\",\"tool_input\":\x7b\"name\":\"n\",\"team_name\":\" t \"\x7d\x7d"

def joiningTeam : Invocation where
  arguments := ["gate"]
  environment name := if name = "ATM_HOME" then some "/h" else if name = "ATM_SESSION_FILE" then some "/c" else none
  stdin := joiningInput.toUTF8
  now := ⟨⟨2024, 1, 2⟩, 0, 0⟩
  processId := 1
  requestId := "r"

theorem isTree_ledTeam : ledTeam.files.IsTree :=
  FileSystem.isTree_of_entries (by decide)

theorem ledTeam_not_aliases (home team : String) (hhome : joiningTeam.home = .ok home)
    (hteam : Locations.isTeamName team = true) :
    ¬ ledTeam.Aliases joiningTeam.cache (Locations.teamConfig home team) := by
  have hroot : home = "/h" := by
    have hset : joiningTeam.home = .ok "/h" := by decide
    rw [hset] at hhome
    exact (Except.ok.inj hhome).symm
  have hcache : FileSystem.target [] (Path.ofText joiningTeam.cache) = ["c"] := by decide +kernel
  have hway : FileSystem.parentWay [] (Path.ofText joiningTeam.cache) = [] := by decide +kernel
  have hconfig : FileSystem.target [] (Path.ofText (Locations.teamConfig home team)) =
      ["h", ".claude", "teams", team, "config.json"] := by
    have hsteps : (Path.ofText "/h").steps = [.name "h"] := by decide
    unfold FileSystem.target FileSystem.origin
    rw [Locations.steps_teamConfig home hteam, hroot, hsteps]
    split <;> rfl
  rintro (htarget | ⟨d, hd, -⟩)
  · change FileSystem.target [] _ = FileSystem.target [] _ at htarget
    rw [hcache, hconfig] at htarget
    simp at htarget
  · change d ∈ FileSystem.parentWay [] _ at hd
    rw [hway] at hd
    cases hd

theorem gate_blocks_joiningTeam :
    joiningTeam.arguments = ["gate"] ∧ joiningTeam.environment rootVariable ≠ some "" ∧
      ledTeam.files.IsTree ∧ ¬ ledTeam.Aliases joiningTeam.cache (Locations.marker "") ∧
      (∀ home team, joiningTeam.home = .ok home → Locations.isTeamName team = true →
        ¬ ledTeam.Aliases joiningTeam.cache (Locations.teamConfig home team)) ∧
      ((joiningTeam.run : World.Run Outcome).run ledTeam).1.status = 2 := by
  have hmarker : ¬ ledTeam.Aliases joiningTeam.cache (Locations.marker "") := by decide +kernel
  refine ⟨rfl, by decide, isTree_ledTeam, hmarker, ledTeam_not_aliases, ?_⟩
  refine (gate_blocks_iff joiningTeam ledTeam rfl (by decide) isTree_ledTeam hmarker
    ledTeam_not_aliases).mpr ?_
  obtain ⟨members, hvalue, hr⟩ := (SpawnRequest.ofText?_eq_some_iff joiningInput
    ⟨"", some "n", some "t", "s"⟩).mp (by decide +kernel)
  have hteam := (SpawnRequest.team_ofValue_eq_some_iff (.object members) "t").mp (by rw [← hr])
  have hcaller := (SpawnRequest.callerId_ofValue_iff (.object members) "s").mp (by rw [← hr])
  have hread : ledTeam.files.read? [] (Path.ofText (Locations.teamConfig "/h" "t")) =
      some ledEntry.toUTF8 := by decide +kernel
  have hlead : ledTeam.HasLead "/h" "t" "lead" := by
    refine ⟨ledEntry, ?_, textNames_ledEntry⟩
    change (ledTeam.files.read? [] _).bind _ = _
    rw [hread]
    exact World.fromUTF8?_toUTF8 _
  exact ⟨joiningInput, members, World.fromUTF8?_toUTF8 _, hvalue,
    .notLead hteam (by decide) ⟨"/h", by decide, hlead⟩ hcaller (by decide)⟩

end Invocation

end SpawnGate
