import SpawnGate.Path
import SpawnGate.Failure

/-!
Where a project, a home directory and the environment keep their files.
-/

namespace SpawnGate

abbrev Environment := String → Option String

namespace Locations

def markerFile : String := ".atm.toml"

def teamsDirectory : String := ".claude/teams"

def teamConfigFile : String := "config.json"

def eventLogFile : String := ".claude/daemon/hooks/events.jsonl"

def daemonSocketFile : String := ".claude/daemon/atm-daemon.sock"

def sessionCacheFile : String := "atm-session-id"

def marker (root : String) : String := Path.join root markerFile

def teamConfig (home team : String) : String :=
  Path.join (Path.join (Path.join home teamsDirectory) team) teamConfigFile

def eventLog (home : String) : String := Path.join home eventLogFile

def daemonSocket (home : String) : String := Path.join home daemonSocketFile

/-- A variable's value; an empty one counts as unset. -/
def nonEmpty (env : Environment) (name : String) : Option String :=
  (env name).filter (· ≠ "")

/-- The home directory: as the environment has it, or else as the system has it listed for the user. -/
def home (env : Environment) (listed : Option String := none) : Except Failure String :=
  match nonEmpty env "ATM_HOME" <|> env "HOME" <|> listed with
  | some h => .ok h
  | none => .error .homeNotFound

def temporary (env : Environment) : String := (env "TMPDIR").getD "/tmp"

def sessionCache (env : Environment) : String :=
  (nonEmpty env "ATM_SESSION_FILE").getD (Path.join (temporary env) sessionCacheFile)

/-- A name that stands for one directory under the teams directory. -/
def isTeamName (team : String) : Bool :=
  team != "" && team != "." && team != ".." && !team.toList.any fun c => c == '/' || c == '\\'

end Locations

end SpawnGate
