import SpawnGate.Event

/-!
Requests to the team daemon: one line each.
-/

namespace SpawnGate

open Json

structure DaemonRequest where
  version : UInt32
  requestId : String
  command : String
  payload : Value
deriving BEq, Repr

namespace DaemonRequest

def hookEventCommand : String := "hook-event"

def hookEvent (e : Event) (requestId : String) : DaemonRequest :=
  ⟨1, requestId, hookEventCommand, e.daemonPayload⟩

def fieldNames : List String := ["version", "request_id", "command", "payload"]

def fields (r : DaemonRequest) : List (String × Value) :=
  [("version", .number (.integer r.version.toNat)), ("request_id", .string r.requestId),
    ("command", .string r.command), ("payload", r.payload)]

/-- The request's line, with its newline. -/
def line (r : DaemonRequest) : String :=
  recordText r.fields ++ "\n"

def ofSlots? : List Slot → Option DaemonRequest
  | [version, requestId, command, payload] => do
    let version ← version.required (Tree.natBelow? UInt32.size)
    let requestId ← requestId.required Tree.string?
    let command ← command.required Tree.string?
    let payload ← payload.required (Value.ofTree? Event.payloadDepth)
    return { version := UInt32.ofNat version, requestId, command, payload }
  | _ => none

def ofText? (s : String) : Option DaemonRequest :=
  ((Tree.ofText? s).bind (slots? fieldNames)).bind ofSlots?

end DaemonRequest

/-- What became of a request. -/
inductive Delivery where
  /-- Nothing is at the socket's path. -/
  | notRunning
  | sent
  /-- The connection failed. -/
  | dropped
deriving DecidableEq, Repr

def Delivery.name : Delivery → String
  | notRunning => "not_running"
  | sent => "sent"
  | dropped => "dropped"

end SpawnGate
