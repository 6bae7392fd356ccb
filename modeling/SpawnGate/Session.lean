import SpawnGate.Host
import SpawnGate.Locations
import SpawnGate.Text.Blank

/-!
The session cache: the id of the latest session, for a later process to recover.
-/

namespace SpawnGate.Session

inductive Source where
  | flag
  | env
  | cache
deriving DecidableEq, Repr

def Source.name : Source → String
  | flag => "flag"
  | env => "env"
  | cache => "cache"

variable {m : Type → Type} [Monad m] [Host m]

/-- Overwrites the cache, unless the id is blank; a failure is dropped. -/
def record (cache id : String) : m Unit := do
  match Text.usable id with
  | some id => discard (Host.replaceFile cache id.toUTF8)
  | none => pure ()

def current (cache : String) : m (Option String) := do
  return (← Host.readText cache).bind Text.usable

/-- A flag goes before the environment, and that before the cache. -/
def resolve (cache : String) (explicit inherited : Option String) : m (Option (String × Source)) := do
  match explicit.bind Text.usable, inherited.bind Text.usable with
  | some id, _ => return some (id, .flag)
  | none, some id => return some (id, .env)
  | none, none => return (← current cache).map (·, .cache)

end SpawnGate.Session
