import SpawnGate.Json.Record
import SpawnGate.Json.Writer
import SpawnGate.Calendar.Instant

/-!
Lifecycle events of a session, as one line of the audit log and as the payload that the daemon gets.
-/

namespace SpawnGate

open Json Calendar

inductive EventKind where
  | sessionStart
  | sessionEnd
  | teammateIdle
deriving DecidableEq, Repr

namespace EventKind

def name : EventKind → String
  | sessionStart => "session_start"
  | sessionEnd => "session_end"
  | teammateIdle => "teammate_idle"

def ofName? (s : String) : Option EventKind :=
  if s = sessionStart.name then some sessionStart
  else if s = sessionEnd.name then some sessionEnd
  else if s = teammateIdle.name then some teammateIdle
  else none

theorem ofName?_name (k : EventKind) : ofName? k.name = some k := by
  cases k <;> decide

end EventKind

/-- Whether a session is new or goes on after its context was compacted. -/
inductive StartSource where
  | init
  | compact
deriving DecidableEq, Repr

namespace StartSource

def name : StartSource → String
  | init => "init"
  | compact => "compact"

def ofName? (s : String) : Option StartSource :=
  if s = init.name then some init
  else if s = compact.name then some compact
  else none

/-- Anything other than `compact` is a fresh start. -/
def ofHook (value : Option String) : StartSource :=
  if value.map Text.trim = some compact.name then compact else init

theorem ofName?_name (s : StartSource) : ofName? s.name = some s := by
  cases s <;> decide

end StartSource

structure Event where
  kind : EventKind
  sessionId : String
  agent : Option String
  team : Option String
  receivedAt : Instant
  source : Option StartSource
  reason : Option String
  processId : Option UInt32
  /-- The hook's own input; null when there is none. -/
  payload : Value
deriving BEq, Repr

namespace Event

def bare (kind : EventKind) (sessionId : String) (receivedAt : Instant) : Event :=
  ⟨kind, sessionId, none, none, receivedAt, none, none, none, .null⟩

def sessionStart (sessionId : String) (source : StartSource) (receivedAt : Instant)
    (processId : UInt32) : Event :=
  { bare .sessionStart sessionId receivedAt with source := some source, processId := some processId }

def endReason : String := "session_exit"

def sessionEnd (sessionId : String) (receivedAt : Instant) : Event :=
  { bare .sessionEnd sessionId receivedAt with reason := some endReason }

def teammateIdle (sessionId : String) (receivedAt : Instant) : Event :=
  bare .teammateIdle sessionId receivedAt

def withIdentity (e : Event) (agent team : Option String) : Event :=
  { e with agent, team }

def withPayload (e : Event) (payload : Value) : Event :=
  { e with payload }

def fieldNames : List String :=
  ["event", "session_id", "agent", "team", "received_at", "source", "reason", "process_id", "payload"]

def stringOrNull (s : Option String) : Value :=
  match s with
  | some s => .string s
  | none => .null

/-- A field that is left out when it has no value. -/
def present (name : String) (v : Option Value) : List (String × Value) :=
  (v.map fun v => (name, v)).toList

/-- All fields but the payload, in order. -/
def summary (e : Event) : List (String × Value) :=
  [("event", .string e.kind.name), ("session_id", .string e.sessionId),
    ("agent", stringOrNull e.agent), ("team", stringOrNull e.team),
    ("received_at", .string e.receivedAt.write)] ++
  present "source" (e.source.map fun s => .string s.name) ++
  present "reason" (e.reason.map .string) ++
  present "process_id" (e.processId.map fun p => .number (.integer p.toNat))

/-- All fields, in order; a null payload is left out. -/
def fields (e : Event) : List (String × Value) :=
  e.summary ++ if e.payload.isNull then [] else [("payload", e.payload)]

/-- The event as one line of the audit log, without its newline. -/
def line (e : Event) : String :=
  recordText e.fields

/-- The event as a value, less its payload. -/
def daemonPayload (e : Event) : Value :=
  .object (Members.erase "payload" (Members.ofList e.fields))

/-- Nesting that is left for a payload inside an event. -/
def payloadDepth : Nat := Value.greatestDepth - 1

def ofSlots? : List Slot → Option Event
  | [kind, sessionId, agent, team, receivedAt, source, reason, processId, payload] => do
    let kind ← kind.required fun t => t.alternative?.bind EventKind.ofName?
    let sessionId ← sessionId.required Tree.string?
    let agent ← agent.optional Tree.string?
    let team ← team.optional Tree.string?
    let receivedAt ← receivedAt.required fun t => t.string?.bind Instant.ofText?
    let source ← source.defaulted
      (Slot.nullable fun t => t.alternative?.bind StartSource.ofName?) none
    let reason ← reason.defaulted (Slot.nullable Tree.string?) none
    let processId ← processId.defaulted (Slot.nullable (Tree.natBelow? UInt32.size)) none
    let payload ← payload.defaulted (Value.ofTree? payloadDepth) .null
    return { kind, sessionId, agent, team, receivedAt, source, reason
             processId := processId.map UInt32.ofNat, payload }
  | _ => none

def ofTree? (t : Tree) : Option Event :=
  (slots? fieldNames t).bind ofSlots?

/-- Reads an event as it stands in the audit log. -/
def ofText? (s : String) : Option Event :=
  (Tree.ofText? s).bind ofTree?

end Event

end SpawnGate
