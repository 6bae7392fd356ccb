import SpawnGate.Project

/-!
Relaying an event: first to the audit log under the home directory, then to the daemon.
-/

namespace SpawnGate

structure RelayReport where
  logged : Bool
  delivery : Delivery
deriving DecidableEq, Repr

namespace Relay

variable {m : Type → Type} [Monad m] [Host m]

/-- Adds an event to a log; says whether that worked. -/
def log (path : String) (e : Event) : m Bool :=
  Host.appendLine path e.line

def send (socket : String) (e : Event) (requestId : String) : m Delivery :=
  Host.request socket (DaemonRequest.hookEvent e requestId).line

/-- Without a config nothing happens. A failure to log does not keep the daemon from the event. -/
def emit (home : String) (config : Option ProjectConfig) (e : Event) (requestId : String) :
    m (Option RelayReport) := do
  match config with
  | none => return none
  | some _ =>
    let logged ← log (Locations.eventLog home) e
    let delivery ← send (Locations.daemonSocket home) e requestId
    return some { logged, delivery }

end Relay

end SpawnGate
