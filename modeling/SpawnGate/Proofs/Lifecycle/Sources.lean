import SpawnGate.Proofs.Lifecycle.Line
import SpawnGate.Proofs.SessionId

/-!
Where the fields of a hook's event come from. Each of the three lifecycle hooks fills them from its own places, the
input, the environment, the marker or a constant, and what a line says of them is the same for all three.
-/

namespace SpawnGate

open Json

def Command.kind? : Command → Option EventKind
  | .sessionStart => some .sessionStart
  | .sessionEnd => some .sessionEnd
  | .teammateIdle => some .teammateIdle
  | .gate => none
  | .showSession _ => none

theorem Command.eq_gate {command : Command} (hhook : command.isHook = true) (hkind : command.kind? = none) :
    command = .gate := by
  cases command with
  | gate => rfl
  | showSession explicit => cases hhook
  | _ => cases hkind

theorem ProjectConfig.neat_requiredTeam {text : String} {config : ProjectConfig} (h : ofText? text = some config) :
    ∀ team ∈ config.requiredTeam, Text.Neat team := by
  simp only [ofText?, Option.bind_eq_bind, Option.bind_eq_some_iff, Option.pure_def, Option.some.injEq] at h
  obtain ⟨root, -, core, -, rfl⟩ := h
  intro team hteam
  obtain ⟨raw, -, hraw⟩ := Option.bind_eq_some_iff.mp hteam
  exact Text.neat_of_usable hraw

theorem World.neat_requiredTeam {w : World} {root : String} {config : ProjectConfig} (h : w.config? root = some config) :
    ∀ team ∈ config.requiredTeam, Text.Neat team := by
  obtain ⟨text, -, htext⟩ := Option.bind_eq_some_iff.mp h
  exact ProjectConfig.neat_requiredTeam htext

theorem ProjectConfig.neat_agentName (config : ProjectConfig) : ∀ name ∈ config.agentName, Text.Neat name :=
  fun _ hname => Text.neat_of_usable hname

namespace Event

structure MadeFrom (payload : Value) (e : Event) : Prop where
  payload_eq : e.payload = payload
  sessionId : Hook.field? payload "session_id" = some e.sessionId
  agent : ∀ s ∈ e.agent, Text.Neat s
  team : ∀ s ∈ e.team, Text.Neat s
  source : e.source.isSome = true ↔ e.kind = .sessionStart
  processId : e.processId.isSome = true ↔ e.kind = .sessionStart
  reason : e.reason = if e.kind = .sessionEnd then some endReason else none

theorem madeFrom_withIdentity {e : Event} {payload : Value} {agent team : Option String}
    (hid : Hook.field? payload "session_id" = some e.sessionId) (hagent : ∀ s ∈ agent, Text.Neat s)
    (hteam : ∀ s ∈ team, Text.Neat s) (hsource : e.source.isSome = true ↔ e.kind = .sessionStart)
    (hprocess : e.processId.isSome = true ↔ e.kind = .sessionStart)
    (hreason : e.reason = if e.kind = .sessionEnd then some endReason else none) :
    ((e.withIdentity agent team).withPayload payload).MadeFrom payload :=
  ⟨rfl, hid, hagent, hteam, hsource, hprocess, hreason⟩

theorem get?_fields {e : Event} {name : String} {v : Option Value} (h : (name, v) ∈ e.layout) :
    Members.get? name e.fields = v := by
  rw [fields_eq]
  exact Layout.get?_fields e.nodup_layout h

end Event

def NullOrNeat (v : Option Value) : Prop :=
  v = some .null ∨ ∃ s, v = some (.string s) ∧ Text.Neat s

theorem nullOrNeat_stringOrNull {s : Option String} (h : ∀ t ∈ s, Text.Neat t) :
    NullOrNeat (some (Event.stringOrNull s)) := by
  cases s with
  | none => exact .inl rfl
  | some t => exact .inr ⟨t, rfl, h t rfl⟩

namespace Invocation

theorem neat_firstUsable {candidates : List (Option String)} : ∀ s ∈ firstUsable candidates, Text.Neat s := by
  intro s hs
  obtain ⟨candidate, -, hcandidate⟩ := List.exists_of_findSome?_eq_some hs
  obtain ⟨raw, -, hraw⟩ := Option.bind_eq_some_iff.mp hcandidate
  exact Text.neat_of_usable hraw

variable {i : Invocation}

theorem madeFrom_of_event? {command : Command} {config : ProjectConfig} {e : Event}
    (hteam : ∀ team ∈ config.requiredTeam, Text.Neat team) (h : i.event? command config = some e) :
    ∃ payload, i.payload? = some payload ∧ command.kind? = some e.kind ∧ e.MadeFrom payload := by
  simp only [event?, Option.bind_eq_bind, Option.bind_eq_some_iff] at h
  obtain ⟨payload, hpayload, id, hid, hevent⟩ := h
  refine ⟨payload, hpayload, ?_⟩
  cases command with
  | gate => cases hevent
  | showSession explicit => cases hevent
  | sessionStart =>
    obtain rfl := Option.some.inj hevent
    refine ⟨rfl, Event.madeFrom_withIdentity hid config.neat_agentName hteam ?_ ?_ rfl⟩
    · exact iff_of_true rfl rfl
    · exact iff_of_true rfl rfl
  | sessionEnd =>
    obtain rfl := Option.some.inj hevent
    refine ⟨rfl, Event.madeFrom_withIdentity hid config.neat_agentName hteam ?_ ?_ rfl⟩
    · exact iff_of_false (fun h => by cases h) (fun h => by cases h)
    · exact iff_of_false (fun h => by cases h) (fun h => by cases h)
  | teammateIdle =>
    obtain rfl := Option.some.inj hevent
    refine ⟨rfl, Event.madeFrom_withIdentity hid neat_firstUsable neat_firstUsable ?_ ?_ rfl⟩
    · exact iff_of_false (fun h => by cases h) (fun h => by cases h)
    · exact iff_of_false (fun h => by cases h) (fun h => by cases h)

/-- An input with a text in it is an object, and the payload is that object. -/
theorem input_of_payload? {payload : Value} {key s : String} (hpayload : i.payload? = some payload)
    (hfield : Hook.field? payload key = some s) :
    ∃ given, (String.fromUTF8? i.stdin).bind Value.ofText? = some (.object given) ∧ payload = .object given := by
  obtain ⟨text, htext, rfl⟩ := Option.map_eq_some_iff.mp hpayload
  unfold payloadOfText at hfield ⊢
  split at hfield
  · rename_i members hvalue
    rw [htext, Option.bind_some, hvalue]
    exact ⟨members, rfl, rfl⟩
  · cases hfield

/-- What the members of a line say of the event that an invocation logs. -/
structure Tells (i : Invocation) (kind : EventKind) (members : List (String × Value)) : Prop where
  nodup : (members.map (·.1)).Nodup
  event : Members.get? "event" members = some (.string kind.name)
  input : ∃ given raw, (String.fromUTF8? i.stdin).bind Value.ofText? = some (.object given) ∧
    Members.get? "payload" members = some (.object given) ∧
    Members.get? "session_id" given = some (.string raw) ∧
    Members.get? "session_id" members = some (.string (Text.trim raw)) ∧ Text.Neat (Text.trim raw)
  agent : NullOrNeat (Members.get? "agent" members)
  team : NullOrNeat (Members.get? "team" members)
  source : (Members.get? "source" members).isSome = true ↔ kind = .sessionStart
  processId : (Members.get? "process_id" members).isSome = true ↔ kind = .sessionStart
  reason : Members.get? "reason" members = if kind = .sessionEnd then some (.string "session_exit") else none

theorem tells_fields {payload : Value} {e : Event} (hpayload : i.payload? = some payload) (h : e.MadeFrom payload) :
    i.Tells e.kind e.fields := by
  obtain ⟨given, hgiven, rfl⟩ := input_of_payload? hpayload h.sessionId
  have hid := (Hook.field?_eq_some_iff _ _ _).mp h.sessionId
  have hneat := (Text.neat_iff _).mpr hid.usable
  obtain ⟨inner, hinner, raw, rfl, htrim, -⟩ := hid
  have hget : ∀ name v, (name, v) ∈ e.layout → Members.get? name e.fields = v := fun name v => Event.get?_fields
  have hevent := hget "event" (some (.string e.kind.name)) (by simp [Event.layout])
  have hsession := hget "session_id" (some (.string e.sessionId)) (by simp [Event.layout])
  have hagent := hget "agent" (some (Event.stringOrNull e.agent)) (by simp [Event.layout])
  have hteam := hget "team" (some (Event.stringOrNull e.team)) (by simp [Event.layout])
  have hsource := hget "source" (e.source.map fun s => .string s.name) (by simp [Event.layout])
  have hreason := hget "reason" (e.reason.map .string) (by simp [Event.layout])
  have hprocess := hget "process_id" (e.processId.map fun p => .number (.integer p.toNat)) (by simp [Event.layout])
  have hshown : e.loggedPayload = some (.object given) := by
    rw [Event.loggedPayload, h.payload_eq]
    rfl
  have hlogged := hget "payload" e.loggedPayload (by simp [Event.layout])
  rw [hshown] at hlogged
  rw [← htrim] at hsession hneat
  refine ⟨e.nodup_keys_fields, hevent, ⟨given, raw, hgiven, hlogged, hinner, hsession, hneat⟩, ?_, ?_, ?_, ?_, ?_⟩
  · rw [hagent]
    exact nullOrNeat_stringOrNull h.agent
  · rw [hteam]
    exact nullOrNeat_stringOrNull h.team
  · rw [hsource, Option.isSome_map]
    exact h.source
  · rw [hprocess, Option.isSome_map]
    exact h.processId
  · rw [hreason, h.reason]
    split
    · rfl
    · rfl

end Invocation

end SpawnGate
