import Mathlib.Data.List.Basic
import SpawnGate.Spawn.Policy

/-!
What it takes to violate a rule, and that a request is blocked exactly if it violates one.
-/

namespace SpawnGate.Policy

variable (leads : String → Option String) (config : Option ProjectConfig) (r : SpawnRequest)

def Violates : Rule → Prop
  | .namedTeammate => r.teammate = none ∧ isOrchestrator r.agentKind config = true
  | .teamBinding => ∃ team required, r.team = some team ∧
      config.bind (·.requiredTeam) = some required ∧ team ≠ required
  | .leadOnly => ∃ team lead, r.team = some team ∧ leads team = some lead ∧ r.callerId ≠ lead

/-- The decision where leads are known without looking anything up. -/
def decide : Decision := Id.run (evaluate leads config r)

theorem isOrchestrator_iff (kind : String) (config : Option ProjectConfig) :
    isOrchestrator kind config = true ↔
      kind = "scrum-master" ∨ ∃ c, config = some c ∧ kind ∈ c.roles := by
  cases config <;> simp [isOrchestrator, builtinRoles]

theorem check_leadOnly : Id.run (check leads config r .leadOnly) =
    r.team.bind fun team => (leads team).bind fun lead =>
      if r.callerId = lead then none else some (.leadOnly team) := by
  simp only [check]
  cases r.team with
  | none => rfl
  | some team =>
    simp only [Option.bind_some, Id.run_bind]
    cases leads team <;> rfl

theorem check_isSome_iff (rule : Rule) :
    (Id.run (check leads config r rule)).isSome = true ↔ Violates leads config r rule := by
  cases rule with
  | namedTeammate =>
    simp only [check, Violates, Id.run_pure]
    cases r.teammate <;> cases isOrchestrator r.agentKind config <;> simp
  | teamBinding =>
    simp only [check, Violates, Id.run_pure]
    cases r.team with
    | none => simp
    | some team =>
      cases config.bind (·.requiredTeam) with
      | none => simp
      | some required => by_cases h : team = required <;> simp [h]
  | leadOnly =>
    rw [check_leadOnly]
    simp only [Violates]
    cases r.team with
    | none => simp
    | some team =>
      cases hl : leads team with
      | none => simp [hl]
      | some lead => by_cases h : r.callerId = lead <;> simp [h, hl]

theorem firstViolation_isSome_iff (rules : List Rule) :
    (Id.run (firstViolation leads config r rules)).isSome = true ↔
      ∃ rule ∈ rules, Violates leads config r rule := by
  induction rules with
  | nil => simp [firstViolation]
  | cons rule rules ih =>
    rw [List.exists_mem_cons_iff, ← check_isSome_iff, ← ih]
    simp only [firstViolation, Id.run_bind]
    cases Id.run (check leads config r rule) <;> simp

/-- A request is blocked exactly if it violates a rule. -/
theorem decide_ne_allow_iff : decide leads config r ≠ .allow ↔ ∃ rule, Violates leads config r rule := by
  have horder : (∃ rule, Violates leads config r rule) ↔
      ∃ rule ∈ Rule.order, Violates leads config r rule := by
    constructor
    · rintro ⟨rule, h⟩
      exact ⟨rule, by cases rule <;> simp [Rule.order], h⟩
    · rintro ⟨rule, -, h⟩
      exact ⟨rule, h⟩
  rw [horder, ← firstViolation_isSome_iff]
  simp only [decide, evaluate, Id.run_bind]
  cases Id.run (firstViolation leads config r Rule.order) <;> simp

theorem rule_of_check_eq_some {rule : Rule} {v : Violation}
    (h : Id.run (check leads config r rule) = some v) : v.rule = rule := by
  cases rule with
  | namedTeammate =>
    simp only [check, Id.run_pure] at h
    split at h
    · obtain rfl := Option.some.inj h
      rfl
    · cases h
  | teamBinding =>
    simp only [check, Id.run_pure] at h
    split at h
    · split at h
      · cases h
      · obtain rfl := Option.some.inj h
        rfl
    · cases h
  | leadOnly =>
    rw [check_leadOnly] at h
    obtain ⟨team, -, h⟩ := Option.bind_eq_some_iff.mp h
    obtain ⟨lead, -, h⟩ := Option.bind_eq_some_iff.mp h
    split at h
    · cases h
    · obtain rfl := Option.some.inj h
      rfl

theorem violates_of_firstViolation {rules : List Rule} {v : Violation}
    (h : Id.run (firstViolation leads config r rules) = some v) : Violates leads config r v.rule := by
  induction rules with
  | nil => cases h
  | cons rule rules ih =>
    simp only [firstViolation, Id.run_bind] at h
    cases hcheck : Id.run (check leads config r rule) with
    | none =>
      rw [hcheck] at h
      exact ih h
    | some v' =>
      rw [hcheck] at h
      obtain rfl : v' = v := Option.some.inj h
      rw [rule_of_check_eq_some leads config r hcheck, ← check_isSome_iff, hcheck]
      rfl

/-- The rule that a blocked request is told of is one that it violates. -/
theorem violates_of_decide {v : Violation} (h : decide leads config r = .block v) :
    Violates leads config r v.rule := by
  simp only [decide, evaluate, Id.run_bind] at h
  cases hfirst : Id.run (firstViolation leads config r Rule.order) with
  | none =>
    rw [hfirst] at h
    cases h
  | some v' =>
    rw [hfirst] at h
    cases h
    exact violates_of_firstViolation leads config r hfirst

section Lookups

variable {σ : Type} {lookup : String → StateM σ (Option String)} {s : σ}

theorem run_check (h : ∀ team, (lookup team).run s = (leads team, s)) (rule : Rule) :
    (check lookup config r rule).run s = (Id.run (check leads config r rule), s) := by
  cases rule with
  | namedTeammate => rfl
  | teamBinding => rfl
  | leadOnly =>
    rw [check_leadOnly]
    simp only [check]
    cases r.team with
    | none => rfl
    | some team =>
      simp only [StateT.run_bind, h, Option.bind_some]
      cases leads team <;> rfl

/-- Lookups that leave the state as it is give the same decision as known leads. -/
theorem run_evaluate (h : ∀ team, (lookup team).run s = (leads team, s)) :
    (evaluate lookup config r).run s = (decide leads config r, s) := by
  have hfirst : ∀ rules, (firstViolation lookup config r rules).run s =
      (Id.run (firstViolation leads config r rules), s) := by
    intro rules
    induction rules with
    | nil => rfl
    | cons rule rules ih =>
      simp only [firstViolation, StateT.run_bind, run_check leads config r h, Id.run_bind]
      cases Id.run (check leads config r rule) with
      | none => exact ih
      | some v => rfl
  simp only [evaluate, StateT.run_bind, hfirst, decide, Id.run_bind]
  cases Id.run (firstViolation leads config r Rule.order) <;> rfl

end Lookups

end SpawnGate.Policy
