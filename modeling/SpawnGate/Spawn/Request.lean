import SpawnGate.Json.Value
import SpawnGate.Text.Blank

/-!
Spawn requests as the gate reads them from a hook's input.
-/

namespace SpawnGate

open Json

namespace Hook

/-- The usable string at a key; any other value counts as absent. -/
def field? (v : Value) (key : String) : Option String :=
  ((v.get? key).bind Value.string?).bind Text.usable

/-- The usable string at a key of the member `outer`. -/
def nested? (v : Value) (outer key : String) : Option String :=
  (v.get? outer).bind (field? · key)

end Hook

structure SpawnRequest where
  agentKind : String
  /-- The name of a worker that is to last. -/
  teammate : Option String
  /-- The team that the worker is to join. -/
  team : Option String
  callerId : String
deriving DecidableEq, Repr

namespace SpawnRequest

def toolField : String := "tool_input"

def ofValue (v : Value) : SpawnRequest where
  agentKind :=
    (Hook.nested? v toolField "subagent_type" <|> Hook.nested? v toolField "agent_kind").getD ""
  teammate := Hook.nested? v toolField "name"
  team := Hook.nested? v toolField "team_name"
  callerId := (Hook.field? v "session_id").getD ""

/-- The request in a hook's input, which must be an object. -/
def ofText? (s : String) : Option SpawnRequest :=
  (Value.ofText? s).bind fun v => if v.isObject then some (ofValue v) else none

end SpawnRequest

end SpawnGate
