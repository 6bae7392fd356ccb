import Mathlib.Data.List.Perm.Subperm
import SpawnGate.Proofs.Spawn.Precedence

/-!
A caller who is blocked and does what the message asks for, again and again: no rule blocks a second time, since putting
one right leaves those before it as they are, so that three corrections at most lead to a request that is allowed.
-/

namespace SpawnGate.Policy

/-- The request as the message of a violation asks for it, and in all else as it was. -/
inductive Corrected (r : SpawnRequest) : Violation → SpawnRequest → Prop
  | named (kind name : String) : Corrected r (.namedTeammate kind) { r with teammate := some name }
  | bound (kind : String) (teammate : Option String) (team required : String) :
      Corrected r (.teamBinding kind teammate team required) { r with team := some required }
  | apart (team : String) : Corrected r (.leadOnly team) { r with team := none }

theorem exists_corrected (r : SpawnRequest) (v : Violation) : ∃ r', Corrected r v r' := by
  cases v with
  | namedTeammate kind => exact ⟨_, .named kind ""⟩
  | teamBinding kind teammate team required => exact ⟨_, .bound kind teammate team required⟩
  | leadOnly team => exact ⟨_, .apart team⟩

variable {leads : String → Option String} {config : Option ProjectConfig}

/-- A request is corrected for one block after another; the rules that blocked it are kept in order. -/
inductive Rounds (leads : String → Option String) (config : Option ProjectConfig) :
    SpawnRequest → List Rule → SpawnRequest → Prop
  | nil (r : SpawnRequest) : Rounds leads config r [] r
  | cons {r r' r'' : SpawnRequest} {v : Violation} {rules : List Rule} : decide leads config r = .block v →
      Corrected r v r' → Rounds leads config r' rules r'' → Rounds leads config r (v.rule :: rules) r''

theorem Rounds.append {r r' r'' : SpawnRequest} {rules rules' : List Rule} (h : Rounds leads config r rules r')
    (h' : Rounds leads config r' rules' r'') : Rounds leads config r (rules ++ rules') r'' := by
  induction h with
  | nil r => exact h'
  | cons hblock hcorrected _ ih => exact .cons hblock hcorrected (ih h')

def ClearBelow (leads : String → Option String) (config : Option ProjectConfig) (r : SpawnRequest) (n : Nat) : Prop :=
  ∀ rule : Rule, rule.rank < n → ¬ Violates leads config r rule

theorem Corrected.clearBelow {r r' : SpawnRequest} {v : Violation} (h : Corrected r v r')
    (hblock : decide leads config r = .block v) : ClearBelow leads config r' (v.rule.rank + 1) := by
  obtain ⟨hbreaks, hearlier⟩ := (decide_eq_block_iff leads config r v).mp hblock
  intro rule hrule hviolates
  -- A correction touches only what rules from its own on read, so those before it are as clear as the block found them.
  cases h with
  | named kind name =>
    cases rule with
    | namedTeammate => cases hviolates.1
    | teamBinding => simp [Rule.rank, Violation.rule] at hrule
    | leadOnly => simp [Rule.rank, Violation.rule] at hrule
  | bound kind teammate team required =>
    cases hbreaks with
    | teamBinding _ hrequired _ =>
      cases rule with
      | namedTeammate => exact hearlier .namedTeammate Nat.zero_lt_one hviolates
      | teamBinding =>
        obtain ⟨team, required, hteam, hrequired', hne⟩ := hviolates
        exact hne (Option.some.inj (hteam.symm.trans (hrequired.symm.trans hrequired')))
      | leadOnly => simp [Rule.rank, Violation.rule] at hrule
  | apart team =>
    cases rule with
    | namedTeammate => exact hearlier .namedTeammate Nat.zero_lt_two hviolates
    | teamBinding =>
      obtain ⟨_, _, hteam, -⟩ := hviolates
      cases hteam
    | leadOnly =>
      obtain ⟨_, _, hteam, -⟩ := hviolates
      cases hteam

theorem Rounds.ascending {r r' : SpawnRequest} {rules : List Rule} (h : Rounds leads config r rules r') {n : Nat}
    (hclear : ClearBelow leads config r n) :
    rules.Pairwise (fun rule other => rule.rank < other.rank) ∧ ∀ rule ∈ rules, n ≤ rule.rank := by
  induction h generalizing n with
  | nil r => exact ⟨.nil, by simp⟩
  | @cons r r' r'' v rules hblock hcorrected _ ih =>
    obtain ⟨hrules, hlater⟩ := ih (hcorrected.clearBelow hblock)
    have hrank : n ≤ v.rule.rank :=
      Nat.le_of_not_lt fun hlt => hclear v.rule hlt (violates_of_decide leads config r hblock)
    refine ⟨.cons (fun rule hrule => hlater rule hrule) hrules, ?_⟩
    intro rule hrule
    rcases List.mem_cons.mp hrule with rfl | hrule
    · exact hrank
    · exact Nat.le_trans hrank (Nat.le_of_succ_le (hlater rule hrule))

theorem Rounds.pairwise {r r' : SpawnRequest} {rules : List Rule} (h : Rounds leads config r rules r') :
    rules.Pairwise fun rule other => rule.rank < other.rank :=
  (h.ascending fun _ hlt => absurd hlt (Nat.not_lt_zero _)).1

theorem nodup_of_ascending {rules : List Rule} (h : rules.Pairwise fun rule other => rule.rank < other.rank) :
    rules.Nodup := by
  refine h.imp ?_
  rintro rule _ hlt rfl
  exact Nat.lt_irrefl _ hlt

theorem Rounds.length_le {r r' : SpawnRequest} {rules : List Rule} (h : Rounds leads config r rules r') :
    rules.length ≤ 3 :=
  (List.subperm_of_subset (nodup_of_ascending h.pairwise) fun rule _ => rule.mem_order).length_le

theorem exists_round {r : SpawnRequest} (hblocked : decide leads config r ≠ .allow) :
    ∃ rule r', Rounds leads config r [rule] r' := by
  cases hdecide : decide leads config r with
  | allow => exact absurd hdecide hblocked
  | block v =>
    obtain ⟨r', hcorrected⟩ := exists_corrected r v
    exact ⟨v.rule, r', .cons hdecide hcorrected (.nil r')⟩

theorem Rounds.allow_of_length {r r' : SpawnRequest} {rules : List Rule} (h : Rounds leads config r rules r')
    (hlength : rules.length = 3) : decide leads config r' = .allow := by
  by_contra hblocked
  obtain ⟨rule, r'', hround⟩ := exists_round hblocked
  have hle := (h.append hround).length_le
  rw [List.length_append, List.length_singleton, hlength] at hle
  exact absurd hle (by decide)

theorem Rounds.exists_allow {r r' : SpawnRequest} {rules : List Rule} (h : Rounds leads config r rules r') :
    ∃ more r'', Rounds leads config r' more r'' ∧ decide leads config r'' = .allow := by
  -- Each further round leaves less room below the bound on their number.
  induction hroom : 3 - rules.length generalizing rules r' with
  | zero =>
    have hle := h.length_le
    exact ⟨[], r', .nil r', h.allow_of_length (by omega)⟩
  | succ room ih =>
    by_cases hallow : decide leads config r' = .allow
    · exact ⟨[], r', .nil r', hallow⟩
    · obtain ⟨rule, next, hround⟩ := exists_round hallow
      have hless : 3 - (rules ++ [rule]).length = room := by
        rw [List.length_append, List.length_singleton]
        omega
      obtain ⟨more, r'', hmore, hend⟩ := ih (h.append hround) hless
      exact ⟨rule :: more, r'', hround.append hmore, hend⟩

/-- Whoever follows the messages is blocked by rules of ever later precedence, by none of them twice and by three at
most, and can go on until the request is allowed, which it is after three corrections at the latest. -/
theorem rounds_end_in_allow {r r' : SpawnRequest} {rules : List Rule} (h : Rounds leads config r rules r') :
    rules.Pairwise (fun rule other => rule.rank < other.rank) ∧ rules.Nodup ∧ rules.length ≤ 3 ∧
      (rules.length = 3 → decide leads config r' = .allow) ∧
      (decide leads config r' ≠ .allow → ∃ rule r'', Rounds leads config r' [rule] r'') ∧
      ∃ more r'', Rounds leads config r' more r'' ∧ (rules ++ more).length ≤ 3 ∧ decide leads config r'' = .allow := by
  obtain ⟨more, r'', hmore, hallow⟩ := h.exists_allow
  exact ⟨h.pairwise, nodup_of_ascending h.pairwise, h.length_le, h.allow_of_length, exists_round, more, r'', hmore,
    (h.append hmore).length_le, hallow⟩

theorem rounds_stray : Rounds ledElsewhere (some boundProject) strayRequest [.namedTeammate, .teamBinding, .leadOnly]
    { strayRequest with teammate := some "n", team := none } :=
  .cons (v := .namedTeammate "scrum-master") (by decide) (.named _ "n")
    (.cons (v := .teamBinding "scrum-master" (some "n") "u" "t") (by decide) (.bound _ _ _ _)
      (.cons (v := .leadOnly "t") (by decide) (.apart _) (.nil _)))

/-- The stray request takes all three corrections. -/
theorem rounds_end_in_allow_stray :
    Rounds ledElsewhere (some boundProject) strayRequest [.namedTeammate, .teamBinding, .leadOnly]
        { strayRequest with teammate := some "n", team := none } ∧
      decide ledElsewhere (some boundProject) { strayRequest with teammate := some "n", team := none } = .allow := by
  obtain ⟨-, -, -, hallow, -⟩ := rounds_end_in_allow rounds_stray
  exact ⟨rounds_stray, hallow rfl⟩

end SpawnGate.Policy
