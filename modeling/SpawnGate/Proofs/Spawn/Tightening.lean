import SpawnGate.Proofs.Spawn.Precedence

/-!
Tightening the policy: more roles that need a name, a team required where none was, leads that were not known. Whatever
was blocked stays so, by the same rule or by one before it.
-/

namespace SpawnGate.Policy

def addedRoles (config : Option ProjectConfig) : List String :=
  (config.map (·.roles)).getD []

def boundTeam (config : Option ProjectConfig) : Option String :=
  config.bind (·.requiredTeam)

structure Tightens (config config' : Option ProjectConfig) : Prop where
  roles : ∀ role ∈ addedRoles config, role ∈ addedRoles config'
  team : boundTeam config' = boundTeam config ∨ boundTeam config = none

/-- The second leads know the lead of each team that has one among the first. -/
def Extends (leads leads' : String → Option String) : Prop :=
  ∀ team lead, leads team = some lead → leads' team = some lead

theorem isOrchestrator_iff_addedRoles (kind : String) (config : Option ProjectConfig) :
    isOrchestrator kind config = true ↔ kind = "scrum-master" ∨ kind ∈ addedRoles config := by
  rw [isOrchestrator_iff]
  cases config <;> simp [addedRoles]

variable {leads leads' : String → Option String} {config config' : Option ProjectConfig}

theorem Tightens.isOrchestrator (h : Tightens config config') {kind : String}
    (hkind : isOrchestrator kind config = true) : isOrchestrator kind config' = true := by
  rw [isOrchestrator_iff_addedRoles] at hkind ⊢
  exact hkind.imp_right (h.roles kind)

theorem Tightens.boundTeam_eq (h : Tightens config config') {required : String}
    (hrequired : boundTeam config = some required) : boundTeam config' = some required := by
  rcases h.team with hsame | hnone
  · exact hsame.trans hrequired
  · rw [hnone] at hrequired
    cases hrequired

theorem Violates.tighten (hconfig : Tightens config config') (hleads : Extends leads leads') {r : SpawnRequest}
    {rule : Rule} (h : Violates leads config r rule) : Violates leads' config' r rule := by
  cases rule with
  | namedTeammate =>
    obtain ⟨hname, hkind⟩ := h
    exact ⟨hname, hconfig.isOrchestrator hkind⟩
  | teamBinding =>
    obtain ⟨team, required, hteam, hrequired, hne⟩ := h
    exact ⟨team, required, hteam, hconfig.boundTeam_eq hrequired, hne⟩
  | leadOnly =>
    obtain ⟨team, lead, hteam, hlead, hne⟩ := h
    exact ⟨team, lead, hteam, hleads team lead hlead, hne⟩

/-- What is blocked stays blocked under a tighter policy, and by no later rule. -/
theorem decide_tightened (hconfig : Tightens config config') (hleads : Extends leads leads') {r : SpawnRequest}
    {v : Violation} (h : decide leads config r = .block v) :
    ∃ v', decide leads' config' r = .block v' ∧ v'.rule.rank ≤ v.rule.rank :=
  exists_block_of_violates leads' config' r ((violates_of_decide leads config r h).tighten hconfig hleads)

def openProject : ProjectConfig := ⟨none, "", none, []⟩

def crewedProject : ProjectConfig := ⟨some "t", "", none, ["pilot"]⟩

theorem tightens_crewedProject : Tightens (some openProject) (some crewedProject) where
  roles := by simp [addedRoles, openProject]
  team := .inr rfl

/-- Of one team alone it is known who leads it. -/
def ledOnlyThere (team : String) : Option String :=
  if team = "u" then some "lead" else none

theorem extends_ledElsewhere : Extends ledOnlyThere ledElsewhere := by
  intro team lead h
  unfold ledOnlyThere at h
  split at h
  · exact h
  · cases h

/-- A pilot who is turned away from a team that another session leads is turned away as unnamed, once pilots need a
name. -/
theorem decide_tightened_pilot :
    Tightens (some openProject) (some crewedProject) ∧ Extends ledOnlyThere ledElsewhere ∧
      decide ledOnlyThere (some openProject) ⟨"pilot", none, some "u", "s"⟩ = .block (.leadOnly "u") ∧
      ∃ v', decide ledElsewhere (some crewedProject) ⟨"pilot", none, some "u", "s"⟩ = .block v' ∧
        v'.rule.rank ≤ Rule.leadOnly.rank ∧ v'.rule = .namedTeammate := by
  have hblock : decide ledOnlyThere (some openProject) ⟨"pilot", none, some "u", "s"⟩ = .block (.leadOnly "u") := by
    decide
  obtain ⟨v', hv', hrank⟩ := decide_tightened tightens_crewedProject extends_ledElsewhere hblock
  have hnamed : decide ledElsewhere (some crewedProject) ⟨"pilot", none, some "u", "s"⟩ =
      .block (.namedTeammate "pilot") := by
    decide
  refine ⟨tightens_crewedProject, extends_ledElsewhere, hblock, v', hv', hrank, ?_⟩
  rw [hnamed] at hv'
  cases hv'
  rfl

end SpawnGate.Policy
