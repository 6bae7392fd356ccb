import SpawnGate.CommandLine
import SpawnGate.Registry
import SpawnGate.Relay
import SpawnGate.Session
import SpawnGate.Spawn.Policy

/-!
One run of the program: the gate, the three lifecycle hooks and the recovery of the session id. A
hook never fails on what it reads or writes; only a violated policy rule blocks. What a run says on
standard error is its answer alone: the diagnostics that `RUST_LOG` asks for are left out, as they
change nothing else.
-/

namespace SpawnGate

open Json

/-- What a run is given, apart from the machine that it runs on. -/
structure Invocation where
  arguments : List String
  environment : Environment
  stdin : ByteArray
  now : Calendar.Instant
  processId : UInt32
  requestId : String
  /-- The home directory that the system has listed for the user. -/
  listedHome : Option String := none
  /-- What the parser of the arguments has to say where they ask for help or are refused. -/
  usage : String := ""

structure Outcome where
  status : UInt32
  stdout : String
  stderr : String
deriving DecidableEq, Repr

namespace Outcome

def silent : Outcome := ⟨0, "", ""⟩

def blockStatus : UInt32 := 2

def misuseStatus : UInt32 := 2

def blocked (v : Violation) : Outcome := ⟨blockStatus, "", v.message⟩

end Outcome

namespace Invocation

def rootVariable : String := "ATM_PROJECT_ROOT"

def sessionVariable : String := "CLAUDE_SESSION_ID"

def teamVariable : String := "ATM_TEAM"

def identityVariable : String := "ATM_IDENTITY"

def home (i : Invocation) : Except Failure String := Locations.home i.environment i.listedHome

def cache (i : Invocation) : String := Locations.sessionCache i.environment

/-- The hook's input; anything but an object reads as an empty one. -/
def payloadOfText (s : String) : Value :=
  match Value.ofText? s with
  | some (.object members) => .object members
  | _ => .object []

/-- The input's payload; nothing if it is not UTF-8. -/
def payload? (i : Invocation) : Option Value :=
  (String.fromUTF8? i.stdin).map payloadOfText

variable {m : Type → Type} [Monad m] [Host m]

/-- How the lead of a team is found; without a home directory no team has one. -/
def leads (i : Invocation) (team : String) : m (Option String) :=
  match i.home with
  | .ok home => Registry.lead? home team
  | .error _ => return none

def gate (i : Invocation) (root : String) : m Outcome := do
  match (String.fromUTF8? i.stdin).bind SpawnRequest.ofText? with
  | none => return .silent
  | some request =>
    Session.record i.cache request.callerId
    let config ← ProjectConfig.probe root
    match ← Policy.evaluate i.leads config request with
    | .allow => return .silent
    | .block v => return .blocked v

def relay (i : Invocation) (config : ProjectConfig) (e : Event) : m Unit :=
  match i.home with
  | .ok home => discard (Relay.emit home (some config) e i.requestId)
  | .error _ => return ()

def announcement (id : String) (source : StartSource) : String :=
  "SESSION_ID=" ++ id ++
    (match source with
      | .compact => " (returning from compact)\n"
      | .init => " (starting fresh)\n")

def teamLine (team : String) : String := "ATM team: " ++ team ++ "\n"

def welcomeLine (message : String) : String := "Welcome: " ++ message ++ "\n"

/-- What an orchestrated project adds to the announcement. -/
def greeting (config : ProjectConfig) : String :=
  (config.requiredTeam.map teamLine).getD "" ++ (config.welcome.map welcomeLine).getD ""

/-- An event with the identity that the project is configured with. -/
def configured (config : ProjectConfig) (payload : Value) (e : Event) : Event :=
  (e.withIdentity config.agentName config.requiredTeam).withPayload payload

def sessionStart (i : Invocation) (root : String) : m Outcome := do
  match i.payload? with
  | none => return .silent
  | some payload =>
    let id := Hook.field? payload "session_id"
    let source := StartSource.ofHook (Hook.field? payload "source")
    id.forM (Session.record i.cache)
    let announced := (id.map (announcement · source)).getD ""
    match ← ProjectConfig.probe root with
    | none => return { Outcome.silent with stdout := announced }
    | some config =>
      id.forM fun id =>
        i.relay config (configured config payload (.sessionStart id source i.now i.processId))
      return { Outcome.silent with stdout := announced ++ greeting config }

/-- Runs a hook that does nothing without a session id and a marker but to record the id. -/
def lifecycle (i : Invocation) (root : String) (event : ProjectConfig → Value → String → Event) :
    m Outcome := do
  match i.payload? with
  | none => return .silent
  | some payload =>
    match Hook.field? payload "session_id" with
    | none => return .silent
    | some id =>
      Session.record i.cache id
      (← ProjectConfig.probe root).forM fun config => i.relay config (event config payload id)
      return .silent

def sessionEnd (i : Invocation) (root : String) : m Outcome :=
  i.lifecycle root fun config payload id => configured config payload (.sessionEnd id i.now)

/-- The first usable text. -/
def firstUsable (candidates : List (Option String)) : Option String :=
  candidates.findSome? (·.bind Text.usable)

def idleTeam (environment : Environment) (config : ProjectConfig) (payload : Value) : Option String :=
  firstUsable [Hook.field? payload "team_name", Hook.nested? payload "tool_input" "team_name",
    Hook.field? payload "team", environment teamVariable, config.requiredTeam]

def idleAgent (environment : Environment) (config : ProjectConfig) (payload : Value) : Option String :=
  firstUsable [Hook.field? payload "name", Hook.field? payload "agent",
    Hook.nested? payload "tool_input" "name", environment identityVariable, config.agentName]

def teammateIdle (i : Invocation) (root : String) : m Outcome :=
  i.lifecycle root fun config payload id =>
    ((Event.teammateIdle id i.now).withIdentity (idleAgent i.environment config payload)
      (idleTeam i.environment config payload)).withPayload payload

def noSession (cache : String) : String :=
  "error: no session id available. Either:\n" ++
  "  1. pass --session-id <uuid> (see the SESSION_ID line from the SessionStart hook)\n" ++
  "  2. set " ++ sessionVariable ++ "\n" ++
  "  3. make any tool call first so the gate hook records it to " ++ cache ++ "\n"

def sessionText (json : Bool) (id : String) (source : Session.Source) : String :=
  if json then
    "\x7b\n  \"session_id\": " ++ String.ofList (quote id) ++ ",\n  \"source\": " ++
      String.ofList (quote source.name) ++ "\n\x7d\n"
  else id ++ "\n"

def showSession (i : Invocation) (json : Bool) (explicit : Option String) : m Outcome := do
  match ← Session.resolve i.cache explicit (i.environment sessionVariable) with
  | some (id, source) => return { Outcome.silent with stdout := sessionText json id source }
  | none => return ⟨1, "", noSession i.cache⟩

/-- Runs a command; a project without a root is the working directory. -/
def perform (i : Invocation) (a : Arguments) : m Outcome :=
  match a.command with
  | .gate => i.gate (a.root.getD "")
  | .sessionStart => i.sessionStart (a.root.getD "")
  | .sessionEnd => i.sessionEnd (a.root.getD "")
  | .teammateIdle => i.teammateIdle (a.root.getD "")
  | .showSession explicit => i.showSession a.json explicit

def run (i : Invocation) : m Outcome :=
  match CommandLine.read (i.environment rootVariable) i.arguments with
  | .run a => i.perform a
  | .version program => return ⟨0, program ++ " " ++ CommandLine.programVersion ++ "\n", ""⟩
  | .help => return ⟨0, i.usage, ""⟩
  | .misuse => return ⟨Outcome.misuseStatus, "", i.usage⟩

end Invocation

end SpawnGate
