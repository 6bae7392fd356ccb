import SpawnGate.Daemon
import SpawnGate.Failure

/-!
One request to the daemon, step by step. Each step has the same time limit. A failure up to the end of the line drops
the request; the reply is waited for, so that the daemon need not write to a closed socket, and then thrown away.
-/

namespace SpawnGate

/-- What came of a step that has a time limit. -/
inductive Attempt (α : Type) where
  | done (a : α)
  | failed
  | late

def Attempt.result {α : Type} (step : SocketStep) : Attempt α → Except Failure α
  | done a => .ok a
  | failed => .error .disconnected
  | late => .error (.timeout step)

/-- What a client asks of the sockets of a machine. Limits are in milliseconds. -/
class Sockets (m : Type → Type) where
  Stream : Type
  /-- Whether anything is at a path. -/
  isPresent : String → m Bool
  /-- Gets ready for steps with limits, and says whether that worked. -/
  prepare : m Bool
  connect : (path : String) → (limit : Nat) → m (Attempt Stream)
  /-- Writes a whole text. -/
  write : Stream → (line : String) → (limit : Nat) → m (Attempt Unit)
  /-- Reads what comes first, up to so many bytes. -/
  read : Stream → (size : Nat) → (limit : Nat) → m (Attempt ByteArray)

namespace Client

def timeout : Nat := 1000

def replySize : Nat := 4096

variable {m : Type → Type} [Monad m] [Sockets m]

def exchange (path line : String) : m (Except Failure Unit) := do
  match (← Sockets.connect path timeout).result .connect with
  | .error e => return .error e
  | .ok stream =>
    match (← Sockets.write stream line timeout).result .write with
    | .error e => return .error e
    | .ok () =>
      discard (Sockets.read stream replySize timeout)
      return .ok ()

/-- Sends a line if there is anything at the path. -/
def deliver (path line : String) : m Delivery := do
  if ← Sockets.isPresent path then
    match ← exchange path line with
    | .ok () => return .sent
    | .error _ => return .dropped
  else return .notRunning

/-- Gets ready and sends a line, if there is anything at the path. -/
def request (path line : String) : m Delivery := do
  if ← Sockets.isPresent path then
    if ← Sockets.prepare then deliver path line else return .dropped
  else return .notRunning

end Client

end SpawnGate
