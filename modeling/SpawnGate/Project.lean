import SpawnGate.Host
import SpawnGate.Locations
import SpawnGate.Toml.Document

/-!
The project marker: a directory with a readable marker file is under team orchestration. Of the file
only the `core` section is used.
-/

namespace SpawnGate

open Toml

structure ProjectConfig where
  /-- The one team that the project is bound to. -/
  requiredTeam : Option String
  /-- The project's own agent name, empty when unset. -/
  identity : String
  welcome : Option String
  /-- Agent kinds that must be spawned as named workers, besides the built-in ones. -/
  roles : List String
deriving DecidableEq, Repr

/-- The `core` section as it is written. -/
structure CoreSection where
  defaultTeam : Option String
  identity : Option String
  welcome : Option String
  roles : List String
deriving DecidableEq, Repr

namespace CoreSection

def empty : CoreSection := ⟨none, none, none, []⟩

def string? : Node → Option String
  | .scalar (.string s) => some s
  | _ => none

def strings? : Node → Option (List String)
  | .array items => items.mapM string?
  | _ => none

/-- A field that may be left out but must not be mistyped. -/
def field? {α : Type} (read : Node → Option α) : Option Node → Option (Option α)
  | none => some none
  | some n => some <$> read n

def ofFields? (team identity welcome roles : Option Node) : Option CoreSection := do
  let team ← field? string? team
  let identity ← field? string? identity
  let welcome ← field? string? welcome
  let roles ← field? strings? roles
  return ⟨team, identity, welcome, roles.getD []⟩

def keys : List String := ["default_team", "identity", "welcome-message", "orchestrator-roles"]

/-- Numbers out of range are not passed over. -/
def othersReadable (known : List String) (es : Entries) : Bool :=
  Node.haveReadable (es.filter fun e => !known.contains e.1)

/-- A table by its keys, an array by position, and a date as nothing. -/
def ofNode? : Node → Option CoreSection
  | .table _ es =>
    if othersReadable keys es then
      ofFields? (Entries.get? "default_team" es) (Entries.get? "identity" es)
        (Entries.get? "welcome-message" es) (Entries.get? "orchestrator-roles" es)
    else none
  | .array items => ofFields? items[0]? items[1]? items[2]? items[3]?
  | .tables elements =>
    let items := elements.reverse
    ofFields? items[0]? items[1]? items[2]? items[3]?
  | .scalar .moment => some empty
  | .scalar _ => none

def ofDocument? (root : Entries) : Option CoreSection :=
  if othersReadable ["core"] root then
    match Entries.get? "core" root with
    | none => some empty
    | some n => ofNode? n
  else none

end CoreSection

namespace ProjectConfig

def ofCore (c : CoreSection) : ProjectConfig where
  requiredTeam := c.defaultTeam.bind Text.usable
  identity := Text.trim (c.identity.getD "")
  welcome := c.welcome.bind Text.usable
  roles := c.roles.filter fun r => (Text.usable r).isSome

def ofText? (s : String) : Option ProjectConfig := do
  let root ← Document.ofText? s
  return ofCore (← CoreSection.ofDocument? root)

/-- The identity, unless it is blank. -/
def agentName (c : ProjectConfig) : Option String := Text.usable c.identity

variable {m : Type → Type} [Monad m] [Host m]

/-- A marker that is missing, unreadable or malformed means no orchestration. -/
def probe (root : String) : m (Option ProjectConfig) := do
  return (← Host.readText (Locations.marker root)).bind ofText?

end ProjectConfig

end SpawnGate
