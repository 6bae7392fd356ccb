import Mathlib.Logic.Basic
import SpawnGate.Proofs.Spawn.Decision

/-!
Which rule decides, and what that takes: of the violated rules the first by precedence, and of all leads only that of the
team that the request names, where no rule before the lead's is violated.
-/

namespace SpawnGate

namespace Rule

def rank : Rule → Nat
  | namedTeammate => 0
  | teamBinding => 1
  | leadOnly => 2

theorem mem_order (rule : Rule) : rule ∈ order := by
  cases rule <;> simp [order]

theorem order_ascending : order.Pairwise fun rule other => rule.rank < other.rank := by
  decide

theorem mem_before_iff {before after : List Rule} {rule : Rule} (h : order = before ++ rule :: after) (other : Rule) :
    other ∈ before ↔ other.rank < rule.rank := by
  have hascending := order_ascending
  rw [h] at hascending
  obtain ⟨-, hafter, hbefore⟩ := List.pairwise_append.mp hascending
  constructor
  · intro hmem
    exact hbefore other hmem rule List.mem_cons_self
  · intro hlt
    have hmem := other.mem_order
    rw [h, List.mem_append, List.mem_cons] at hmem
    rcases hmem with hmem | rfl | hmem
    · exact hmem
    · exact absurd hlt (Nat.lt_irrefl _)
    · exact absurd hlt (Nat.lt_asymm ((List.pairwise_cons.mp hafter).1 other hmem))

end Rule

namespace Policy

section Known

variable (leads : String → Option String) (config : Option ProjectConfig) (r : SpawnRequest)

/-- A violation that the request commits, with all that it tells the caller. -/
inductive Breaks : Violation → Prop
  | namedTeammate : r.teammate = none → isOrchestrator r.agentKind config = true → Breaks (.namedTeammate r.agentKind)
  | teamBinding {team required : String} : r.team = some team → config.bind (·.requiredTeam) = some required →
      team ≠ required → Breaks (.teamBinding r.agentKind r.teammate team required)
  | leadOnly {team lead : String} : r.team = some team → leads team = some lead → r.callerId ≠ lead →
      Breaks (.leadOnly team)

theorem check_eq_some_iff (rule : Rule) (v : Violation) :
    Id.run (check leads config r rule) = some v ↔ v.rule = rule ∧ Breaks leads config r v := by
  constructor
  · intro h
    refine ⟨rule_of_check_eq_some leads config r h, ?_⟩
    have hviolates := (check_isSome_iff leads config r rule).mp (by rw [h]; rfl)
    cases rule with
    | namedTeammate =>
      obtain ⟨hname, hkind⟩ := hviolates
      simp only [check, hname, hkind, Option.isNone_none, Bool.and_self, if_true, Id.run_pure] at h
      obtain rfl := Option.some.inj h
      exact .namedTeammate hname hkind
    | teamBinding =>
      obtain ⟨team, required, hteam, hrequired, hne⟩ := hviolates
      simp only [check, hteam, hrequired, if_neg hne, Id.run_pure] at h
      obtain rfl := Option.some.inj h
      exact .teamBinding hteam hrequired hne
    | leadOnly =>
      obtain ⟨team, lead, hteam, hlead, hne⟩ := hviolates
      rw [check_leadOnly, hteam, Option.bind_some, hlead, Option.bind_some, if_neg hne] at h
      obtain rfl := Option.some.inj h
      exact .leadOnly hteam hlead hne
  · rintro ⟨rfl, hbreaks⟩
    cases hbreaks with
    | namedTeammate hname hkind =>
      simp only [Violation.rule, check, hname, hkind, Option.isNone_none, Bool.and_self, if_true, Id.run_pure]
    | teamBinding hteam hrequired hne =>
      simp only [Violation.rule, check, hteam, hrequired, if_neg hne, Id.run_pure]
    | leadOnly hteam hlead hne =>
      rw [Violation.rule, check_leadOnly, hteam, Option.bind_some, hlead, Option.bind_some, if_neg hne]

theorem check_eq_none_iff (rule : Rule) :
    Id.run (check leads config r rule) = none ↔ ¬ Violates leads config r rule := by
  rw [← check_isSome_iff, Option.not_isSome_iff_eq_none]

theorem firstViolation_eq (rules : List Rule) :
    Id.run (firstViolation leads config r rules) = rules.findSome? fun rule => Id.run (check leads config r rule) := by
  induction rules with
  | nil => rfl
  | cons rule rules ih =>
    simp only [firstViolation, Id.run_bind, List.findSome?_cons]
    cases Id.run (check leads config r rule) with
    | none => exact ih
    | some v => rfl

theorem firstViolation_eq_some_iff (rules : List Rule) (v : Violation) :
    Id.run (firstViolation leads config r rules) = some v ↔ ∃ before after, rules = before ++ v.rule :: after ∧
      Breaks leads config r v ∧ ∀ rule ∈ before, ¬ Violates leads config r rule := by
  rw [firstViolation_eq, List.findSome?_eq_some_iff]
  simp only [check_eq_some_iff, check_eq_none_iff]
  constructor
  · rintro ⟨before, rule, after, hrules, ⟨rfl, hbreaks⟩, hbefore⟩
    exact ⟨before, after, hrules, hbreaks, hbefore⟩
  · rintro ⟨before, after, hrules, hbreaks, hbefore⟩
    exact ⟨before, v.rule, after, hrules, ⟨rfl, hbreaks⟩, hbefore⟩

theorem decide_eq_block_iff_firstViolation (v : Violation) :
    decide leads config r = .block v ↔ Id.run (firstViolation leads config r Rule.order) = some v := by
  simp only [decide, evaluate, Id.run_bind]
  cases Id.run (firstViolation leads config r Rule.order) <;> simp

theorem decide_eq_block_iff (v : Violation) : decide leads config r = .block v ↔
    Breaks leads config r v ∧ ∀ rule, rule.rank < v.rule.rank → ¬ Violates leads config r rule := by
  rw [decide_eq_block_iff_firstViolation, firstViolation_eq_some_iff]
  constructor
  · rintro ⟨before, after, horder, hbreaks, hbefore⟩
    exact ⟨hbreaks, fun rule hrule => hbefore rule ((Rule.mem_before_iff horder rule).mpr hrule)⟩
  · rintro ⟨hbreaks, hearlier⟩
    obtain ⟨before, after, horder⟩ := List.append_of_mem v.rule.mem_order
    exact ⟨before, after, horder, hbreaks, fun rule hrule => hearlier rule ((Rule.mem_before_iff horder rule).mp hrule)⟩

theorem decide_eq_allow_iff : decide leads config r = .allow ↔ ∀ rule, ¬ Violates leads config r rule := by
  rw [← not_iff_not, ← ne_eq, decide_ne_allow_iff, not_forall_not]

theorem exists_block_of_violates {rule : Rule} (h : Violates leads config r rule) :
    ∃ v, decide leads config r = .block v ∧ v.rule.rank ≤ rule.rank := by
  cases hdecide : decide leads config r with
  | allow => exact absurd h ((decide_eq_allow_iff leads config r).mp hdecide rule)
  | block v =>
    refine ⟨v, rfl, Nat.le_of_not_lt fun hlt => ?_⟩
    exact ((decide_eq_block_iff leads config r v).mp hdecide).2 rule hlt h

end Known

section Lookup

variable (config : Option ProjectConfig) (r : SpawnRequest)

/-- The rules that need no lead. -/
def leadless : List Rule := [.namedTeammate, .teamBinding]

theorem mem_leadless_iff (rule : Rule) : rule ∈ leadless ↔ rule.rank < Rule.leadOnly.rank := by
  cases rule <;> decide

/-- The team whose lead is looked up: the request's own, unless a rule that needs no lead is violated. -/
def asked : Option String :=
  match Id.run (firstViolation (fun _ => none) config r leadless) with
  | some _ => none
  | none => r.team

def conclude : Option Violation → Decision
  | none => .allow
  | some v => .block v

section Machine

variable {m : Type → Type} [Monad m] (lookup : String → m (Option String))

theorem check_of_mem_leadless {rule : Rule} (h : rule ∈ leadless) :
    check lookup config r rule = pure (Id.run (check (fun _ => none) config r rule)) := by
  cases rule with
  | namedTeammate => rfl
  | teamBinding => rfl
  | leadOnly => exact absurd h (by decide)

variable [LawfulMonad m]

theorem firstViolation_of_leadless {rules : List Rule} (h : ∀ rule ∈ rules, rule ∈ leadless) :
    firstViolation lookup config r rules = pure (Id.run (firstViolation (fun _ => none) config r rules)) := by
  induction rules with
  | nil => rfl
  | cons rule rules ih =>
    obtain ⟨hrule, hrules⟩ := List.forall_mem_cons.mp h
    simp only [firstViolation, check_of_mem_leadless config r lookup hrule, pure_bind, Id.run_bind]
    cases Id.run (check (fun _ => none) config r rule) with
    | some v => rfl
    | none => exact ih hrules

theorem firstViolation_append (rules rules' : List Rule) : firstViolation lookup config r (rules ++ rules') =
    firstViolation lookup config r rules >>= fun
      | some v => pure (some v)
      | none => firstViolation lookup config r rules' := by
  induction rules with
  | nil => simp only [List.nil_append, firstViolation, pure_bind]
  | cons rule rules ih =>
    simp only [List.cons_append, firstViolation, ih, bind_assoc]
    apply bind_congr
    intro found
    cases found with
    | none => rfl
    | some v => simp only [pure_bind]

theorem firstViolation_singleton (rule : Rule) : firstViolation lookup config r [rule] = check lookup config r rule := by
  simp only [firstViolation]
  conv_rhs => rw [← bind_pure (check lookup config r rule)]
  apply bind_congr
  intro found
  cases found <;> rfl

theorem evaluate_eq_conclude : evaluate lookup config r =
    match Id.run (firstViolation (fun _ => none) config r leadless) with
    | some v => pure (.block v)
    | none => conclude <$> check lookup config r .leadOnly := by
  -- The machine is needed for the last rule alone; those before it are decided as if no lead was known.
  have horder : Rule.order = leadless ++ [.leadOnly] := rfl
  rw [evaluate, horder, firstViolation_append, firstViolation_of_leadless config r lookup fun _ h => h, pure_bind]
  cases Id.run (firstViolation (fun _ => none) config r leadless) with
  | some v => simp only [pure_bind]
  | none =>
    simp only [firstViolation_singleton, map_eq_pure_bind]
    apply bind_congr
    intro found
    cases found <;> rfl

theorem check_leadOnly_eq : check lookup config r .leadOnly =
    match r.team with
    | none => pure none
    | some team => (fun lead => Id.run (check (fun _ => lead) config r .leadOnly)) <$> lookup team := by
  simp only [check]
  cases r.team with
  | none => rfl
  | some team =>
    simp only [map_eq_pure_bind]
    apply bind_congr
    intro lead
    cases lead <;> rfl

end Machine

theorem decide_eq_conclude (leads : String → Option String) : decide leads config r =
    match Id.run (firstViolation (fun _ => none) config r leadless) with
    | some v => .block v
    | none => conclude (Id.run (check leads config r .leadOnly)) := by
  have hevaluate := evaluate_eq_conclude config r (m := Id) leads
  rw [decide, hevaluate]
  cases Id.run (firstViolation (fun _ => none) config r leadless) <;> rfl

theorem asked_eq_some_iff (leads : String → Option String) (team : String) : asked config r = some team ↔
    r.team = some team ∧ ∀ rule, rule.rank < Rule.leadOnly.rank → ¬ Violates leads config r rule := by
  have hnone : Id.run (firstViolation (fun _ => none) config r leadless) = none ↔
      ∀ rule, rule.rank < Rule.leadOnly.rank → ¬ Violates leads config r rule := by
    rw [firstViolation_eq, List.findSome?_eq_none_iff]
    apply forall_congr'
    intro rule
    rw [mem_leadless_iff]
    apply imp_congr_right
    intro hrule
    have hcheck := check_of_mem_leadless config r (m := Id) leads ((mem_leadless_iff rule).mpr hrule)
    rw [← check_eq_none_iff, hcheck, Id.run_pure]
  rw [← hnone, asked]
  cases Id.run (firstViolation (fun _ => none) config r leadless) <;> simp

/-- On every machine a request is decided without a lookup, or by one lookup and what it finds. -/
theorem evaluate_eq {m : Type → Type} [Monad m] [LawfulMonad m] (lookup : String → m (Option String)) :
    evaluate lookup config r =
      match asked config r with
      | none => pure (decide (fun _ => none) config r)
      | some team => (fun lead => decide (fun _ => lead) config r) <$> lookup team := by
  rw [evaluate_eq_conclude, asked]
  cases hfirst : Id.run (firstViolation (fun _ => none) config r leadless) with
  | some v => simp only [decide_eq_conclude, hfirst]
  | none =>
    simp only [decide_eq_conclude, hfirst]
    rw [check_leadOnly_eq]
    cases hteam : r.team with
    | none => simp only [map_pure, check_leadOnly, hteam, Option.bind_none]
    | some team =>
      rw [Functor.map_map]
      rfl

theorem decide_eq (leads : String → Option String) : decide leads config r =
    match asked config r with
    | none => decide (fun _ => none) config r
    | some team => decide (fun _ => leads team) config r := by
  have hevaluate := evaluate_eq config r (m := Id) leads
  rw [decide, hevaluate]
  cases asked config r <;> rfl

theorem decide_congr {leads leads' : String → Option String} (h : ∀ team, r.team = some team → leads' team = leads team) :
    decide leads' config r = decide leads config r := by
  rw [decide_eq config r leads', decide_eq config r leads]
  cases hasked : asked config r with
  | none => rfl
  | some team =>
    simp only
    rw [h team ((asked_eq_some_iff config r leads team).mp hasked).1]

end Lookup

/-- Known leads, where each team that is looked up is noted in order. -/
def noting (leads : String → Option String) (team : String) : StateM (List String) (Option String) := do
  modify (· ++ [team])
  return leads team

theorem run_evaluate_noting (leads : String → Option String) (config : Option ProjectConfig) (r : SpawnRequest)
    (noted : List String) : (evaluate (noting leads) config r).run noted =
      (decide leads config r, noted ++ (asked config r).toList) := by
  rw [decide_eq, evaluate_eq]
  cases asked config r with
  | none =>
    rw [Option.toList_none, List.append_nil]
    rfl
  | some team => rfl

/-- A request is blocked with the first of its violations by precedence, and allowed where it has none. One lead at most
is looked up, that of the request's own team, and only where no rule before the lead's is violated; nothing else is known
of the leads. -/
theorem evaluate_by_precedence (leads : String → Option String) (config : Option ProjectConfig) (r : SpawnRequest) :
    (∀ v, decide leads config r = .block v ↔
      Breaks leads config r v ∧ ∀ rule, rule.rank < v.rule.rank → ¬ Violates leads config r rule) ∧
    (decide leads config r = .allow ↔ ∀ rule, ¬ Violates leads config r rule) ∧
    (∃ asked : Option String,
      (∀ team, asked = some team ↔
        r.team = some team ∧ ∀ rule, rule.rank < Rule.leadOnly.rank → ¬ Violates leads config r rule) ∧
      (∀ noted, (evaluate (noting leads) config r).run noted = (decide leads config r, noted ++ asked.toList)) ∧
      ∀ {m : Type → Type} [Monad m] [LawfulMonad m] (lookup : String → m (Option String)),
        evaluate lookup config r =
          match asked with
          | none => pure (decide (fun _ => none) config r)
          | some team => (fun lead => decide (fun _ => lead) config r) <$> lookup team) ∧
    ∀ leads' : String → Option String, (∀ team, r.team = some team → leads' team = leads team) →
      decide leads' config r = decide leads config r := by
  refine ⟨decide_eq_block_iff leads config r, decide_eq_allow_iff leads config r, ?_, fun _ => decide_congr config r⟩
  exact ⟨asked config r, asked_eq_some_iff config r leads, run_evaluate_noting leads config r, evaluate_eq config r⟩

def boundProject : ProjectConfig := ⟨some "t", "", none, []⟩

/-- A spawn that violates each of the rules where `t` is required and another session leads. -/
def strayRequest : SpawnRequest := ⟨"scrum-master", none, some "u", "s"⟩

def ledElsewhere (_ : String) : Option String := some "lead"

/-- The stray request is blocked without a lookup; named and in the right team, it takes one. -/
theorem evaluate_by_precedence_stray :
    (∀ rule, Violates ledElsewhere (some boundProject) strayRequest rule) ∧
      (evaluate (noting ledElsewhere) (some boundProject) strayRequest).run [] =
        (.block (.namedTeammate "scrum-master"), []) ∧
      (evaluate (noting ledElsewhere) (some boundProject)
        { strayRequest with teammate := some "n", team := some "t" }).run [] = (.block (.leadOnly "t"), ["t"]) := by
  have hnamed : Violates ledElsewhere (some boundProject) strayRequest .namedTeammate := ⟨rfl, by decide⟩
  refine ⟨?_, ?_, ?_⟩
  · intro rule
    cases rule with
    | namedTeammate => exact hnamed
    | teamBinding => exact ⟨"u", "t", rfl, rfl, by decide⟩
    | leadOnly => exact ⟨"u", "lead", rfl, rfl, by decide⟩
  · obtain ⟨hblock, -, ⟨asked, hasked, hrun, -⟩, -⟩ :=
      evaluate_by_precedence ledElsewhere (some boundProject) strayRequest
    have hnone : asked = none := Option.eq_none_iff_forall_ne_some.mpr fun team hteam =>
      ((hasked team).mp hteam).2 .namedTeammate (by decide) hnamed
    have hfirst := (hblock (.namedTeammate "scrum-master")).mpr
      ⟨.namedTeammate rfl (by decide), fun rule hrule => absurd hrule (Nat.not_lt_zero _)⟩
    rw [hrun, hnone, hfirst]
    rfl
  · obtain ⟨hblock, -, ⟨asked, hasked, hrun, -⟩, -⟩ :=
      evaluate_by_precedence ledElsewhere (some boundProject)
        { strayRequest with teammate := some "n", team := some "t" }
    have hearlier : ∀ rule : Rule, rule.rank < Rule.leadOnly.rank → ¬ Violates ledElsewhere (some boundProject)
        { strayRequest with teammate := some "n", team := some "t" } rule := by
      intro rule hrule
      cases rule with
      | namedTeammate => simp [Violates]
      | teamBinding => simp [Violates, boundProject]
      | leadOnly => exact absurd hrule (Nat.lt_irrefl _)
    have hfirst := (hblock (.leadOnly "t")).mpr ⟨.leadOnly rfl rfl (by decide), hearlier⟩
    rw [hrun, (hasked "t").mpr ⟨rfl, hearlier⟩, hfirst]
    rfl

end Policy

end SpawnGate
