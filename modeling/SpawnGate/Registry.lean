import SpawnGate.Host
import SpawnGate.Locations

/-!
The team registry: each team has a file under the home directory that names its lead session.
-/

namespace SpawnGate.Registry

open Json

def leadField : String := "leadSessionId"

/-- The lead that a registry entry names. -/
def leadOfEntry (team text : String) : Except Failure String :=
  match (Tree.ofText? text).bind (slots? [leadField]) with
  | some [lead] =>
    match lead.defaulted (Slot.nullable Tree.string?) none with
    | none => .error .malformed
    | some lead =>
      match lead.bind Text.usable with
      | some id => .ok id
      | none => .error (.noLead team)
  | _ => .error .malformed

variable {m : Type → Type} [Monad m] [Host m]

def readLead (home team : String) : m (Except Failure String) := do
  match ← Host.readText (Locations.teamConfig home team) with
  | some text => return leadOfEntry team text
  | none => return .error .unreadable

/-- The session id of a team's lead; nothing for a team that is unknown. -/
def lead? (home team : String) : m (Option String) := do
  match (Text.usable team).filter Locations.isTeamName with
  | some team => return (← readLead home team).toOption
  | none => return none

end SpawnGate.Registry
