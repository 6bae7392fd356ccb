/-!
What can go wrong in a hook. No failure reaches the agent: each has a safe answer where it arises.
-/

namespace SpawnGate

inductive SocketStep where
  | connect
  | write
deriving DecidableEq, Repr

def SocketStep.name : SocketStep → String
  | connect => "connect"
  | write => "write"

inductive Failure where
  | homeNotFound
  | noLead (team : String)
  | timeout (step : SocketStep)
  | disconnected
  | unreadable
  | malformed
deriving DecidableEq, Repr

def Failure.message : Failure → String
  | homeNotFound => "home directory not found: set ATM_HOME or HOME"
  | noLead team => "team registry entry for '" ++ team ++ "' has no leadSessionId"
  | timeout step => "daemon socket timed out during " ++ step.name
  | disconnected => "daemon socket not connected"
  | unreadable => "file not readable"
  | malformed => "malformed content"

end SpawnGate
