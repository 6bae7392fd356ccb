import SpawnGate.Daemon

/-!
What a hook asks of the machine that it runs on.
-/

namespace SpawnGate

class Host (m : Type → Type) where
  /-- The content of a file that can be read. -/
  readFile : String → m (Option ByteArray)
  /-- Replaces a file as a whole, and says whether that worked. -/
  replaceFile : String → ByteArray → m Bool
  /-- Adds to the end of a file, and says whether that worked. -/
  appendFile : String → ByteArray → m Bool
  /-- Sends a line to the socket at a path. -/
  request : String → String → m Delivery

namespace Host

variable {m : Type → Type} [Monad m] [Host m]

/-- The text of a file, if it is UTF-8. -/
def readText (path : String) : m (Option String) := do
  return (← readFile path).bind String.fromUTF8?

def appendLine (path line : String) : m Bool :=
  appendFile path (line ++ "\n").toUTF8

end Host

end SpawnGate
