import SpawnGate.Proofs.Json.Readable
import SpawnGate.Proofs.Spawn.Gate

/-!
Which configured roles are enforced: a kind is matched in its trimmed form against the roles as they
are written, so a role that is written with white space around it is never matched.
-/

namespace SpawnGate

open Json Toml Hook

namespace ProjectConfig

theorem ofText?_eq (marker : String) :
    ofText? marker = ((Document.ofText? marker).bind CoreSection.ofDocument?).map ofCore := by
  rw [ofText?]
  cases Document.ofText? marker with
  | none => rfl
  | some root =>
    simp only [Option.bind_eq_bind, Option.bind_some, Option.pure_def]
    cases CoreSection.ofDocument? root <;> rfl

theorem mem_roles_ofCore (core : CoreSection) {k : String} (hk : Text.usable k = some k) :
    k ∈ (ofCore core).roles ↔ k ∈ core.roles := by
  simp [ofCore, hk]

end ProjectConfig

namespace Policy

theorem evaluate_of_namedTeammate {m : Type → Type} [Monad m] [LawfulMonad m]
    (leads : String → m (Option String)) {config : Option ProjectConfig} {r : SpawnRequest}
    (hname : r.teammate = none) (hkind : isOrchestrator r.agentKind config = true) :
    evaluate leads config r = pure (.block (.namedTeammate r.agentKind)) := by
  have hcheck : check leads config r .namedTeammate = pure (some (.namedTeammate r.agentKind)) := by
    simp only [check, hname, hkind, Option.isNone_none, Bool.and_self, if_true]
  simp only [evaluate, Rule.order, firstViolation, hcheck, pure_bind]

/-- A spawn without a name is blocked for its kind exactly if the kind, in its trimmed form, is built in
or stands literally among the roles that the marker lists. -/
theorem evaluate_configuredRole {w : World} {root marker : String} {core : CoreSection}
    (hmarker : w.text? (Locations.marker root) = some marker)
    (hcore : (Document.ofText? marker).bind CoreSection.ofDocument? = some core)
    {s : String} {members : List (String × Value)} (hs : Value.ofText? s = some (.object members))
    {kind : String} (hkind : TextAt (.object members) ["tool_input", "subagent_type"] kind)
    (hname : ∀ name, ¬ TextAt (.object members) ["tool_input", "name"] name) :
    ∃ config request, ((ProjectConfig.probe root : World.Run (Option ProjectConfig)).run w).1 = some config ∧
      SpawnRequest.ofText? s = some request ∧
      ((kind = "scrum-master" ∨ kind ∈ core.roles) →
        ∀ {m : Type → Type} [Monad m] [LawfulMonad m] (leads : String → m (Option String)),
          evaluate leads (some config) request = pure (.block (.namedTeammate kind))) ∧
      (¬ (kind = "scrum-master" ∨ kind ∈ core.roles) →
        ∀ (leads : String → Option String) (v : Violation),
          decide leads (some config) request = .block v → v.rule ≠ .namedTeammate) := by
  have hprobe : ((ProjectConfig.probe root : World.Run (Option ProjectConfig)).run w).1 =
      some (.ofCore core) := by
    rw [World.run_probe, World.config?, hmarker, Option.bind_some, ProjectConfig.ofText?_eq, hcore, Option.map_some]
  have hagent : (SpawnRequest.ofValue (.object members)).agentKind = kind :=
    (SpawnRequest.agentKind_ofValue_iff _ _).mpr (.here hkind)
  have hteammate := (SpawnRequest.teammate_ofValue_eq_none_iff (.object members)).mpr hname
  have horchestrator : isOrchestrator kind (some (.ofCore core)) = true ↔
      kind = "scrum-master" ∨ kind ∈ core.roles := by
    rw [isOrchestrator_iff]
    simp only [Option.some.injEq, exists_eq_left', ProjectConfig.mem_roles_ofCore core hkind.usable]
  refine ⟨.ofCore core, .ofValue (.object members), hprobe,
    (SpawnRequest.ofText?_eq_some_iff s _).mpr ⟨members, hs, rfl⟩, ?_, ?_⟩
  · intro hlisted m _ _ leads
    rw [evaluate_of_namedTeammate leads hteammate (by rw [hagent]; exact horchestrator.mpr hlisted), hagent]
  · intro hunlisted leads v hblock hrule
    have hviolates := violates_of_decide leads _ _ hblock
    rw [hrule] at hviolates
    apply hunlisted
    apply horchestrator.mp
    rw [← hagent]
    exact hviolates.2

def crewMarker : String := "[core]\norchestrator-roles = [\" captain \", \"pilot\"]\n"

def crew : CoreSection := ⟨none, none, none, [" captain ", "pilot"]⟩

def crewProject : World where
  files := ⟨[([".atm.toml"], .file crewMarker.toUTF8)]⟩
  directory := []
  sent := []

def spawning (kind : String) : List (String × Value) :=
  [("tool_input", .object [("subagent_type", .string kind)])]

def spawningTree (kind : String) : Tree :=
  .object [("tool_input".toList.map .plain,
    .object [("subagent_type".toList.map .plain, .string (kind.toList.map .plain))])]

def spawningText (kind : String) : String :=
  "\x7b\"tool_input\":\x7b\"subagent_type\":\"" ++ kind ++ "\"\x7d\x7d"

theorem crewMarker_eq : (Document.ofText? crewMarker).bind CoreSection.ofDocument? = some crew := by
  decide +kernel

theorem text?_crewMarker : crewProject.text? (Locations.marker "") = some crewMarker :=
  World.text?_of_read? (by decide +kernel)

theorem ofText?_captain : Value.ofText? (spawningText " captain") = some (.object (spawning " captain")) :=
  (Value.ofText?_of_written (t := spawningTree " captain") (Token.spells_of_scan (by decide +kernel))).trans rfl

theorem ofText?_pilot : Value.ofText? (spawningText "pilot ") = some (.object (spawning "pilot ")) :=
  (Value.ofText?_of_written (t := spawningTree "pilot ") (Token.spells_of_scan (by decide +kernel))).trans rfl

theorem textAt_spawning {kind k : String} (h : Text.usable kind = some k) :
    TextAt (.object (spawning kind)) ["tool_input", "subagent_type"] k :=
  (nested?_eq_some_iff _ _ _ _).mp h

theorem not_textAt_spawning (kind : String) :
    ∀ name, ¬ TextAt (.object (spawning kind)) ["tool_input", "name"] name := by
  intro name h
  cases (nested?_eq_some_iff _ _ _ _).mpr h

/-- In a project that lists ` captain ` and `pilot`, an unnamed pilot is blocked and an unnamed captain
is not. -/
theorem evaluate_crew :
    crewProject.text? (Locations.marker "") = some crewMarker ∧
      (Document.ofText? crewMarker).bind CoreSection.ofDocument? = some crew ∧
      (∃ config request,
        ((ProjectConfig.probe "" : World.Run (Option ProjectConfig)).run crewProject).1 = some config ∧
        SpawnRequest.ofText? (spawningText "pilot ") = some request ∧
        ∀ leads : String → World.Run (Option String),
          evaluate leads (some config) request = pure (.block (.namedTeammate "pilot"))) ∧
      ∃ config request,
        ((ProjectConfig.probe "" : World.Run (Option ProjectConfig)).run crewProject).1 = some config ∧
        SpawnRequest.ofText? (spawningText " captain") = some request ∧
        ∀ (leads : String → Option String) (v : Violation),
          decide leads (some config) request = .block v → v.rule ≠ .namedTeammate := by
  obtain ⟨config, pilot, hconfig, hpilot, hblock, -⟩ :=
    evaluate_configuredRole text?_crewMarker crewMarker_eq ofText?_pilot
      (textAt_spawning (k := "pilot") (by decide)) (not_textAt_spawning _)
  obtain ⟨config', captain, hconfig', hcaptain, -, hallow⟩ :=
    evaluate_configuredRole text?_crewMarker crewMarker_eq ofText?_captain
      (textAt_spawning (k := "captain") (by decide)) (not_textAt_spawning _)
  refine ⟨text?_crewMarker, crewMarker_eq, ⟨config, pilot, hconfig, hpilot, fun leads => ?_⟩,
    config', captain, hconfig', hcaptain, hallow (by decide)⟩
  exact hblock (by decide) leads

/-- A role that is listed with white space around it need not be enforced. -/
theorem exists_listed_role_not_enforced :
    ¬ ∀ (marker : String) (core : CoreSection) (role kind s : String) (members : List (String × Value)),
      (Document.ofText? marker).bind CoreSection.ofDocument? = some core → role ∈ core.roles →
      Text.Padded kind role → Value.ofText? s = some (.object members) →
      TextAt (.object members) ["tool_input", "subagent_type"] kind →
      (∀ name, ¬ TextAt (.object members) ["tool_input", "name"] name) →
      decide (fun _ => none) (some (.ofCore core)) (.ofValue (.object members)) =
        .block (.namedTeammate kind) := by
  intro h
  have hblock := h crewMarker crew " captain " "captain" (spawningText " captain") (spawning " captain")
    crewMarker_eq (by decide) (Text.padded_trim " captain ") ofText?_captain
    (textAt_spawning (by decide)) (not_textAt_spawning _)
  revert hblock
  decide +kernel

end Policy

end SpawnGate
