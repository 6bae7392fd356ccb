import SpawnGate.Proofs.Lifecycle.Hooks
import SpawnGate.Proofs.Spawn.Gate

/-!
The gate and the lifecycle hooks find the same session id in their input, and each of them records it first.
-/

namespace SpawnGate

open Json Hook

def Command.isHook : Command → Bool
  | .gate => true
  | command => command.isLifecycle

namespace Invocation

/-- The session id in a hook's input, which must be an accepted object. -/
def givenId? (i : Invocation) : Option String :=
  ((String.fromUTF8? i.stdin).bind Value.ofText?).bind fun v => field? v "session_id"

theorem field?_of_not_isObject {v : Value} (h : v.isObject = false) (key : String) : field? v key = none := by
  cases v with
  | object members => cases h
  | _ => rfl

theorem field?_payloadOfText (text key : String) :
    field? (payloadOfText text) key = (Value.ofText? text).bind fun v => field? v key := by
  unfold payloadOfText
  split
  · rename_i members hvalue
    rw [hvalue, Option.bind_some]
  · rename_i hno
    have hempty : field? (.object []) key = none := rfl
    rw [hempty]
    cases hvalue : Value.ofText? text with
    | none => rfl
    | some v =>
      have hobject : v.isObject = false := by
        cases v with
        | object members => exact absurd hvalue (hno members)
        | _ => rfl
      rw [Option.bind_some, field?_of_not_isObject hobject]

theorem sessionId?_eq_givenId? (i : Invocation) : i.sessionId? = i.givenId? := by
  unfold sessionId? payload? givenId?
  cases String.fromUTF8? i.stdin with
  | none => rfl
  | some text => exact field?_payloadOfText text "session_id"

theorem usable_of_givenId? {i : Invocation} {id : String} (h : i.givenId? = some id) : Text.usable id = some id := by
  obtain ⟨v, -, hfield⟩ := Option.bind_eq_some_iff.mp h
  exact ((field?_eq_some_iff v _ id).mp hfield).usable

/-- The gate's caller is the session of the input. -/
theorem usable_callerId {i : Invocation} {r : SpawnRequest}
    (h : (String.fromUTF8? i.stdin).bind SpawnRequest.ofText? = some r) : Text.usable r.callerId = i.givenId? := by
  obtain ⟨text, htext, hr⟩ := Option.bind_eq_some_iff.mp h
  obtain ⟨members, hvalue, rfl⟩ := (SpawnRequest.ofText?_eq_some_iff text r).mp hr
  have hgiven : i.givenId? = field? (.object members) "session_id" := by
    rw [givenId?, htext, Option.bind_some, hvalue, Option.bind_some]
  rw [hgiven]
  simp only [SpawnRequest.ofValue]
  cases hfield : field? (.object members) "session_id" with
  | none => rfl
  | some id => exact ((field?_eq_some_iff _ _ id).mp hfield).usable

theorem givenId?_of_no_request {i : Invocation}
    (h : (String.fromUTF8? i.stdin).bind SpawnRequest.ofText? = none) : i.givenId? = none := by
  unfold givenId?
  cases htext : String.fromUTF8? i.stdin with
  | none => rfl
  | some text =>
    rw [htext, Option.bind_some, SpawnRequest.ofText?] at h
    rw [Option.bind_some]
    cases hvalue : Value.ofText? text with
    | none => rfl
    | some v =>
      rw [hvalue, Option.bind_some] at h
      have hobject : v.isObject = false := by
        cases hv : v.isObject with
        | false => rfl
        | true =>
          rw [if_pos hv] at h
          cases h
      rw [Option.bind_some, field?_of_not_isObject hobject]

theorem recordedIn_eq_match (i : Invocation) (w : World) :
    i.recordedIn w = match i.givenId? with
      | some id => w.replaced i.cache id.toUTF8
      | none => w := by
  unfold recordedIn
  rw [sessionId?_eq_givenId?]
  cases hid : i.givenId? with
  | none => rfl
  | some id =>
    simp only [World.recorded, usable_of_givenId? hid]

theorem directory_recordedIn (i : Invocation) (w : World) : (i.recordedIn w).directory = w.directory := by
  rw [recordedIn_eq_match]
  cases i.givenId? with
  | none => rfl
  | some id => exact World.directory_replaced w i.cache _

theorem directory_leftBehind (i : Invocation) (command : Command) (root : String) (w : World) :
    (i.leftBehind command root w).directory = w.directory := by
  unfold leftBehind relayedIn
  split
  · split
    · rw [World.relayed, World.directory_delivered, World.directory_appended, directory_recordedIn]
    · exact directory_recordedIn i w
  · exact directory_recordedIn i w

theorem leftBehind_gate (i : Invocation) (root : String) (w : World) : i.leftBehind .gate root w = i.recordedIn w := by
  have hnone : i.event? .gate = fun _ => none := by
    funext config
    simp only [event?, eventFor, Option.bind_eq_bind, Option.bind_fun_none]
  unfold leftBehind
  rw [hnone, Option.bind_fun_none]

theorem recorded_callerId {i : Invocation} {r : SpawnRequest}
    (h : (String.fromUTF8? i.stdin).bind SpawnRequest.ofText? = some r) (w : World) :
    w.recorded i.cache r.callerId = i.recordedIn w := by
  rw [recordedIn_eq_match, ← usable_callerId h]
  rfl

theorem recordedIn_of_no_request {i : Invocation} (h : (String.fromUTF8? i.stdin).bind SpawnRequest.ofText? = none)
    (w : World) : i.recordedIn w = w := by
  rw [recordedIn_eq_match, givenId?_of_no_request h]

theorem run_gate (i : Invocation) (root : String) (w : World) :
    ((i.gate root : World.Run Outcome).run w).2 = i.recordedIn w := by
  cases hinput : (String.fromUTF8? i.stdin).bind SpawnRequest.ofText? with
  | none => rw [run_gate_of_none root w hinput, recordedIn_of_no_request hinput]
  | some r => rw [run_gate_of_some root w hinput, recorded_callerId hinput]

/-- A line is added to no other log than the one under the home directory. -/
theorem eventLog_of_logged? {i : Invocation} {a : Arguments} {w : World} {log : String} {e : Event}
    (h : i.logged? a w = some (log, e)) :
    ∃ home, i.home = .ok home ∧ log = Locations.eventLog home := by
  unfold logged? at h
  cases hhome : i.home with
  | error =>
    rw [hhome] at h
    cases h
  | ok home =>
    simp only [hhome, Except.toOption, Option.bind_eq_bind, Option.bind_some, Option.bind_eq_some_iff,
      Option.pure_def, Option.some.injEq, Prod.mk.injEq] at h
    obtain ⟨-, -, -, -, rfl, -⟩ := h
    exact ⟨home, rfl, rfl⟩

/-- What a hook leaves behind, whichever of the four it is. -/
theorem run_hook {i : Invocation} {a : Arguments}
    (harguments : CommandLine.read (i.environment rootVariable) i.arguments = .run a)
    (hhook : a.command.isHook = true) (w : World) :
    ((i.run : World.Run Outcome).run w).2 = i.leftBehind a.command (a.root.getD "") w := by
  have hrun : (i.run : World.Run Outcome) = i.perform a := by
    simp only [run, harguments]
  rw [hrun]
  by_cases hgate : a.command = .gate
  · have hperform : (i.perform a : World.Run Outcome) = i.gate (a.root.getD "") := by
      simp only [perform, hgate]
    rw [hperform, run_gate, hgate, leftBehind_gate]
  · apply run_perform
    cases hcommand : a.command with
    | gate => exact absurd hcommand hgate
    | _ =>
      rw [hcommand] at hhook
      exact hhook

end Invocation

end SpawnGate
