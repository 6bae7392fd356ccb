import Mathlib.Logic.Function.Basic
import SpawnGate.Proofs.Arguments
import SpawnGate.Proofs.SessionId

/-!
What a run takes from the environment. Every variable that is set to the empty text counts as unset, but for the
project's root: an empty one is refused on each level that has no root of its own, and the run then ends with the
status of a blocked spawn.
-/

namespace SpawnGate.Invocation

open Json

/-- The variables that a run looks at, besides those of the system. -/
def hookVariables : List String :=
  ["ATM_HOME", "ATM_SESSION_FILE", rootVariable, teamVariable, identityVariable, sessionVariable]

def within (i : Invocation) (environment : Environment) : Invocation := { i with environment }

def withVariable (i : Invocation) (name : String) (value : Option String) : Invocation :=
  i.within (Function.update i.environment name value)

/-- Two environments are the same to all that a run does after its arguments were read. -/
structure ReadAlike (env env' : Environment) : Prop where
  home : ∀ listed, Locations.home env listed = Locations.home env' listed
  cache : Locations.sessionCache env = Locations.sessionCache env'
  session : (env sessionVariable).bind Text.usable = (env' sessionVariable).bind Text.usable
  team : (env teamVariable).bind Text.usable = (env' teamVariable).bind Text.usable
  identity : (env identityVariable).bind Text.usable = (env' identityVariable).bind Text.usable

section Congruence

variable {m : Type → Type} [Monad m] [Host m] {env env' : Environment} (h : ReadAlike env env') (i : Invocation)
include h

theorem idleTeam_congr (config : ProjectConfig) (payload : Value) :
    idleTeam env config payload = idleTeam env' config payload := by
  simp only [idleTeam, firstUsable, List.findSome?_cons, h.team]

theorem idleAgent_congr (config : ProjectConfig) (payload : Value) :
    idleAgent env config payload = idleAgent env' config payload := by
  simp only [idleAgent, firstUsable, List.findSome?_cons, h.identity]

theorem cache_congr : (i.within env).cache = (i.within env').cache := h.cache

theorem home_congr : (i.within env).home = (i.within env').home := h.home i.listedHome

theorem leads_congr : ((i.within env).leads : String → m (Option String)) = (i.within env').leads := by
  funext team
  simp only [leads, home_congr h]

theorem relay_congr (config : ProjectConfig) (e : Event) :
    ((i.within env).relay config e : m Unit) = (i.within env').relay config e := by
  simp only [relay, home_congr h]
  rfl

theorem gate_congr (root : String) : ((i.within env).gate root : m Outcome) = (i.within env').gate root := by
  unfold gate
  rw [cache_congr h, leads_congr h]
  rfl

theorem sessionStart_congr (root : String) :
    ((i.within env).sessionStart root : m Outcome) = (i.within env').sessionStart root := by
  unfold sessionStart
  simp only [cache_congr h, relay_congr h]
  rfl

theorem lifecycle_congr (root : String) {event event' : ProjectConfig → Value → String → Event}
    (hevent : event = event') :
    ((i.within env).lifecycle root event : m Outcome) = (i.within env').lifecycle root event' := by
  unfold lifecycle
  simp only [cache_congr h, relay_congr h, hevent]
  rfl

theorem showSession_congr (json : Bool) (explicit : Option String) :
    ((i.within env).showSession json explicit : m Outcome) = (i.within env').showSession json explicit := by
  have hsession : ((i.within env).environment sessionVariable).bind Text.usable =
      ((i.within env').environment sessionVariable).bind Text.usable := h.session
  unfold showSession Session.resolve
  simp only [cache_congr h, hsession]

theorem perform_congr (a : Arguments) : ((i.within env).perform a : m Outcome) = (i.within env').perform a := by
  unfold perform
  cases a.command with
  | gate => exact gate_congr h i _
  | sessionStart => exact sessionStart_congr h i _
  | sessionEnd => exact lifecycle_congr h i _ rfl
  | teammateIdle =>
    apply lifecycle_congr h
    funext config payload id
    simp only [within, idleTeam_congr h, idleAgent_congr h]
  | showSession explicit => exact showSession_congr h i _ explicit

/-- A run takes no more from the environment than what is the same there. -/
theorem run_congr (harguments : CommandLine.read (env rootVariable) i.arguments =
    CommandLine.read (env' rootVariable) i.arguments) :
    ((i.within env).run : m Outcome) = (i.within env').run := by
  have hread : CommandLine.read ((i.within env).environment rootVariable) (i.within env).arguments =
      CommandLine.read ((i.within env').environment rootVariable) (i.within env').arguments := harguments
  unfold run
  rw [hread]
  cases CommandLine.read ((i.within env').environment rootVariable) (i.within env').arguments with
  | run a => exact perform_congr h i a
  | _ => rfl

end Congruence

section Empty

variable (env : Environment) (name : String)

theorem nonEmpty_update (other : String) :
    Locations.nonEmpty (Function.update env name (some "")) other =
      Locations.nonEmpty (Function.update env name none) other := by
  unfold Locations.nonEmpty
  by_cases hother : other = name
  · subst hother
    rw [Function.update_self, Function.update_self]
    rfl
  · rw [Function.update_of_ne hother, Function.update_of_ne hother]

theorem usable_update (other : String) :
    (Function.update env name (some "") other).bind Text.usable =
      (Function.update env name none other).bind Text.usable := by
  by_cases hother : other = name
  · subst hother
    rw [Function.update_self, Function.update_self]
    rfl
  · rw [Function.update_of_ne hother, Function.update_of_ne hother]

variable {name}

theorem ne_system_of_mem_hookVariables (h : name ∈ hookVariables) : "HOME" ≠ name ∧ "TMPDIR" ≠ name := by
  constructor
  · rintro rfl
    exact absurd h (by decide)
  · rintro rfl
    exact absurd h (by decide)

theorem readAlike_update (h : name ∈ hookVariables) :
    ReadAlike (Function.update env name (some "")) (Function.update env name none) := by
  obtain ⟨hhome, htemporary⟩ := ne_system_of_mem_hookVariables h
  refine ⟨?_, ?_, usable_update env name _, usable_update env name _, usable_update env name _⟩
  · intro listed
    unfold Locations.home
    rw [nonEmpty_update, Function.update_of_ne hhome, Function.update_of_ne hhome]
  · unfold Locations.sessionCache Locations.temporary
    rw [nonEmpty_update, Function.update_of_ne htemporary, Function.update_of_ne htemporary]

theorem run_empty (i : Invocation) (h : name ∈ hookVariables)
    (hroot : name ≠ rootVariable ∨ CommandLine.isRooted i.arguments = true) {m : Type → Type} [Monad m] [Host m] :
    ((i.withVariable name (some "")).run : m Outcome) = (i.withVariable name none).run := by
  apply run_congr (readAlike_update i.environment h)
  by_cases hname : name = rootVariable
  · subst hname
    rw [Function.update_self, Function.update_self]
    exact CommandLine.read_empty_of_rooted (hroot.resolve_left (not_not.mpr rfl))
  · rw [Function.update_of_ne (Ne.symm hname), Function.update_of_ne (Ne.symm hname)]

end Empty

theorem run_refused {i : Invocation} (hempty : i.environment rootVariable = some "")
    (hrooted : CommandLine.isRooted i.arguments = false) {m : Type → Type} [Monad m] [Host m] :
    (i.run : m Outcome) = pure ⟨Outcome.misuseStatus, "", i.usage⟩ := by
  unfold run
  rw [hempty, CommandLine.read_empty_of_not_rooted hrooted]

def BlockedBy (i : Invocation) (w : World) (v : Violation) : Prop :=
  ∃ a r, CommandLine.read (i.environment rootVariable) i.arguments = .run a ∧ a.command = .gate ∧
    (String.fromUTF8? i.stdin).bind SpawnRequest.ofText? = some r ∧
    Policy.decide (i.leadIn (w.recorded i.cache r.callerId)) ((w.recorded i.cache r.callerId).config? (a.root.getD "")) r =
      .block v

theorem status_lifecycle {i : Invocation} {a : Arguments} (h : a.command.isLifecycle = true) (w : World) :
    ((i.perform a : World.Run Outcome).run w).1.status = 0 := by
  unfold perform
  cases hcommand : a.command with
  | gate =>
    rw [hcommand] at h
    cases h
  | showSession explicit =>
    rw [hcommand] at h
    cases h
  | sessionStart => simp only [run_sessionStart, Outcome.silent]
  | sessionEnd => simp only [run_sessionEnd, Outcome.silent]
  | teammateIdle => simp only [run_teammateIdle, Outcome.silent]

/-- A hook whose arguments are accepted ends with the status of a blocked spawn only if the policy blocks one. -/
theorem status_hook_iff {i : Invocation} {a : Arguments}
    (harguments : CommandLine.read (i.environment rootVariable) i.arguments = .run a)
    (hhook : a.command.isHook = true) (w : World) :
    ((i.run : World.Run Outcome).run w).1.status = 2 ↔ ∃ v, i.BlockedBy w v := by
  have hrun : (i.run : World.Run Outcome) = i.perform a := by
    simp only [run, harguments]
  rw [hrun]
  by_cases hgate : a.command = .gate
  · have hperform : (i.perform a : World.Run Outcome) = i.gate (a.root.getD "") := by
      simp only [perform, hgate]
    rw [hperform]
    cases hinput : (String.fromUTF8? i.stdin).bind SpawnRequest.ofText? with
    | none =>
      rw [run_gate_of_none _ w hinput]
      constructor
      · intro h
        cases h
      · rintro ⟨v, a', r, -, -, hr, -⟩
        rw [hinput] at hr
        cases hr
    | some r =>
      rw [run_gate_of_some _ w hinput, status_outcomeOf]
      constructor
      · intro hblock
        cases hdecide : Policy.decide (i.leadIn (w.recorded i.cache r.callerId))
          ((w.recorded i.cache r.callerId).config? (a.root.getD "")) r with
        | allow => exact absurd hdecide hblock
        | block v => exact ⟨v, a, r, harguments, hgate, hinput, hdecide⟩
      · rintro ⟨v, a', r', ha, -, hr, hdecide⟩
        cases harguments.symm.trans ha
        obtain rfl := Option.some.inj (hinput.symm.trans hr)
        rw [hdecide]
        intro h
        cases h
  · have hlifecycle : a.command.isLifecycle = true := by
      cases hcommand : a.command with
      | gate => exact absurd hcommand hgate
      | _ =>
        rw [hcommand] at hhook
        exact hhook
    rw [status_lifecycle hlifecycle w]
    constructor
    · intro h
      cases h
    · rintro ⟨v, a', r, ha, hgate', -⟩
      cases harguments.symm.trans ha
      exact absurd hgate' hgate

/-- An empty variable is one that is not set, unless it is the project's root and some level of the arguments has no
root of its own: then the run is refused. So a hook ends with the status of a blocked spawn exactly if the policy
blocks one or an empty root is refused. -/
theorem empty_variable_reads_unset (i : Invocation) {name : String} (hname : name ∈ hookVariables) :
    (name ≠ rootVariable ∨ CommandLine.isRooted i.arguments = true →
      ∀ {m : Type → Type} [Monad m] [Host m],
        ((i.withVariable name (some "")).run : m Outcome) = (i.withVariable name none).run) ∧
    (name = rootVariable → CommandLine.isRooted i.arguments = false →
      ∀ {m : Type → Type} [Monad m] [Host m],
        ((i.withVariable name (some "")).run : m Outcome) = pure ⟨Outcome.misuseStatus, "", i.usage⟩) ∧
    ∀ a, CommandLine.read none i.arguments = .run a → a.command.isHook = true → ∀ w,
      (((i.run : World.Run Outcome).run w).1.status = 2 ↔
        (i.environment rootVariable = some "" ∧ CommandLine.isRooted i.arguments = false) ∨
          ∃ v, i.BlockedBy w v) := by
  refine ⟨fun hroot => run_empty i hname hroot, ?_, ?_⟩
  · rintro rfl hrooted
    apply run_refused
    · exact Function.update_self rootVariable (some "") i.environment
    · exact hrooted
  · intro a harguments hhook w
    by_cases hrefused : i.environment rootVariable = some "" ∧ CommandLine.isRooted i.arguments = false
    · rw [run_refused hrefused.1 hrefused.2]
      exact iff_of_true rfl (.inl hrefused)
    · have hroot : i.environment rootVariable ≠ some "" ∨ CommandLine.isRooted i.arguments = true := by
        rw [not_and_or, Bool.not_eq_false] at hrefused
        exact hrefused
      obtain ⟨a', ha', hcommand⟩ := CommandLine.exists_run_read hroot harguments
      rw [status_hook_iff ha' (hcommand ▸ hhook) w, or_iff_right hrefused]

def unasked : Invocation where
  arguments := ["gate"]
  environment name := if name = "HOME" then some "/h" else none
  stdin := "\x7b\x7d".toUTF8
  now := ⟨⟨2024, 1, 2⟩, 0, 0⟩
  processId := 1
  requestId := "r"

theorem empty_variable_reads_unset_unasked :
    "ATM_HOME" ∈ hookVariables ∧ rootVariable ∈ hookVariables ∧
      ((unasked.withVariable "ATM_HOME" (some "")).run : World.Run Outcome) =
        (unasked.withVariable "ATM_HOME" none).run ∧
      ((unasked.withVariable rootVariable (some "")).run : World.Run Outcome) = pure ⟨2, "", unasked.usage⟩ := by
  have hhome : "ATM_HOME" ∈ hookVariables := by decide
  have hroot : rootVariable ∈ hookVariables := by decide
  have hrooted : CommandLine.isRooted unasked.arguments = false := by decide +kernel
  obtain ⟨hsame, -, -⟩ := empty_variable_reads_unset unasked hhome
  obtain ⟨-, hrefused, -⟩ := empty_variable_reads_unset unasked hroot
  exact ⟨hhome, hroot, hsame (.inl (by decide)), hrefused rfl hrooted⟩

/-- An empty root ends a gate with the status of a blocked spawn, though nothing is blocked. -/
theorem exists_status_of_empty_root :
    ∃ (i : Invocation) (w : World),
      (((i.withVariable rootVariable none).run : World.Run Outcome).run w).1 = ⟨0, "", ""⟩ ∧
      (((i.withVariable rootVariable (some "")).run : World.Run Outcome).run w).1 = ⟨2, "", i.usage⟩ ∧
      ∀ v, ¬ (i.withVariable rootVariable (some "")).BlockedBy w v := by
  refine ⟨unasked, ⟨.empty, [], []⟩, by decide +kernel, by decide +kernel, ?_⟩
  rintro v ⟨a, r, harguments, -⟩
  have hmisuse : CommandLine.read ((unasked.withVariable rootVariable (some "")).environment rootVariable)
      (unasked.withVariable rootVariable (some "")).arguments = .misuse := by decide +kernel
  rw [hmisuse] at harguments
  cases harguments

end SpawnGate.Invocation
