import SpawnGate.Spawn.Request
import SpawnGate.Project

/-!
The spawn policy: rules in a fixed order, of which the first that is violated decides. The lead of a
team is looked up only if the rules before allow the request.
-/

namespace SpawnGate

inductive Rule where
  /-- Agents that coordinate others must be spawned with a name. -/
  | namedTeammate
  /-- A team must be the one that the project is bound to. -/
  | teamBinding
  /-- Only a team's lead may spawn into it; a team without a lead is open. -/
  | leadOnly
deriving DecidableEq, Repr

namespace Rule

def name : Rule → String
  | namedTeammate => "named_teammate"
  | teamBinding => "team_binding"
  | leadOnly => "lead_only"

/-- The rules by precedence. -/
def order : List Rule := [namedTeammate, teamBinding, leadOnly]

end Rule

/-- A violated rule with what its message tells the caller. -/
inductive Violation where
  | namedTeammate (kind : String)
  | teamBinding (kind : String) (teammate : Option String) (team required : String)
  | leadOnly (team : String)
deriving DecidableEq, Repr

namespace Violation

def rule : Violation → Rule
  | namedTeammate _ => .namedTeammate
  | teamBinding _ _ _ _ => .teamBinding
  | leadOnly _ => .leadOnly

def message : Violation → String
  | namedTeammate kind =>
    "BLOCKED: '" ++ kind ++ "' must be launched as a named teammate.\n\nCorrect:\n" ++
    "  Task(subagent_type=\"" ++ kind ++ "\", name=\"sm-sprint-X\", team_name=\"<team>\", ...)\n\n" ++
    "Wrong:\n" ++
    "  Task(subagent_type=\"" ++ kind ++ "\", run_in_background=true)  # no name = blocked\n"
  | teamBinding kind teammate team required =>
    "BLOCKED: team_name '" ++ team ++ "' does not match this project's team '" ++ required ++
    "'.\n\nThis project is bound to '" ++ required ++ "' by .atm.toml ([core] default_team).\n\n" ++
    "Correct:\n  Task(subagent_type=\"" ++ (if kind = "" then "..." else kind) ++ "\", name=\"" ++
    teammate.getD "<name>" ++ "\", team_name=\"" ++ required ++ "\", ...)\n"
  | leadOnly team =>
    "BLOCKED: Only the team lead can spawn agents with team_name.\n\n" ++
    "You are a teammate. Use background agents:\n" ++
    "  Task(subagent_type=\"...\", run_in_background=true, prompt=\"...\")  # no team_name\n\n" ++
    "NOT allowed from teammates:\n" ++
    "  Task(..., team_name=\"" ++ team ++ "\", ...)  # creates named teammate\n"

end Violation

inductive Decision where
  | allow
  | block (v : Violation)
deriving DecidableEq, Repr

def Decision.isAllow : Decision → Bool
  | allow => true
  | block _ => false

namespace Policy

def builtinRoles : List String := ["scrum-master"]

def isOrchestrator (kind : String) (config : Option ProjectConfig) : Bool :=
  builtinRoles.contains kind || config.any (·.roles.contains kind)

variable {m : Type → Type} [Monad m]

/-- The violation of one rule, given how the lead of a team is looked up. -/
def check (leads : String → m (Option String)) (config : Option ProjectConfig) (r : SpawnRequest) :
    Rule → m (Option Violation)
  | .namedTeammate =>
    return if r.teammate.isNone && isOrchestrator r.agentKind config then
      some (.namedTeammate r.agentKind)
    else none
  | .teamBinding =>
    return match r.team, config.bind (·.requiredTeam) with
      | some team, some required =>
        if team = required then none
        else some (.teamBinding r.agentKind r.teammate team required)
      | _, _ => none
  | .leadOnly =>
    match r.team with
    | none => return none
    | some team => do
      match ← leads team with
      | some lead => return if r.callerId = lead then none else some (.leadOnly team)
      | none => return none

/-- The first violation of some rules. -/
def firstViolation (leads : String → m (Option String)) (config : Option ProjectConfig)
    (r : SpawnRequest) : List Rule → m (Option Violation)
  | [] => return none
  | rule :: rules => do
    match ← check leads config r rule with
    | some v => return some v
    | none => firstViolation leads config r rules

def evaluate (leads : String → m (Option String)) (config : Option ProjectConfig)
    (r : SpawnRequest) : m Decision := do
  match ← firstViolation leads config r Rule.order with
  | some v => return .block v
  | none => return .allow

end Policy

end SpawnGate
