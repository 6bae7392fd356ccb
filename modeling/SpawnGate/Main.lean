import SpawnGate.Client
import SpawnGate.Invocation

/-!
The program on a real machine. Requests to a socket count as dropped, since no connection can be made
from here.
-/

open SpawnGate

namespace SpawnGate.Machine

/-- The text up to the last name of a path, if there is more than one. -/
def parentText (path : String) : String :=
  let cs := path.toList.reverse.dropWhile (· == '/')
  String.ofList ((cs.dropWhile (· != '/')).reverse)

def makeParent (path : String) : IO Unit := do
  let parent := parentText path
  if parent ≠ "" then IO.FS.createDirAll parent

def randomHex (bytes : USize) : IO String := do
  let drawn ← IO.getRandomBytes bytes
  return String.ofList (Hex.ofBytes drawn.toList)

def succeeds (act : IO Unit) : IO Bool := do
  try
    act
    return true
  catch _ => return false

def readFile (path : String) : IO (Option ByteArray) := do
  try
    return some (← IO.FS.readBinFile path)
  catch _ => return none

/-- Writes a new file beside the old one, under an absolute path, and moves it over. -/
def replaceFile (path : String) (bytes : ByteArray) : IO Bool :=
  succeeds do
    makeParent path
    let origin ← if path.startsWith "/" then pure "" else pure ((← IO.currentDir).toString ++ "/")
    let fresh := origin ++ parentText path ++ ".tmp" ++ (← randomHex 3)
    IO.FS.writeBinFile fresh bytes
    try
      IO.FS.rename fresh path
    catch e =>
      IO.FS.removeFile fresh
      throw e

def appendFile (path : String) (bytes : ByteArray) : IO Bool :=
  succeeds do
    makeParent path
    let handle ← IO.FS.Handle.mk path .append
    handle.write bytes
    handle.flush

def isPresent (path : String) : IO Bool := do
  try
    let _ ← IO.FS.Handle.mk path .read
    return true
  catch
    | .noFileOrDirectory .. => return false
    | _ => return true

instance : Sockets IO where
  Stream := Empty
  isPresent := isPresent
  prepare := return true
  connect _ _ := return .failed
  write stream _ _ := nomatch stream
  read stream _ _ := nomatch stream

instance : Host IO where
  readFile := readFile
  replaceFile := replaceFile
  appendFile := appendFile
  request := Client.request

def readAll : IO ByteArray := do
  let stdin ← IO.getStdin
  let mut bytes := ByteArray.empty
  repeat
    let chunk ← stdin.read 65536
    if chunk.isEmpty then break
    bytes := bytes ++ chunk
  return bytes

/-- The number at the start of a text. -/
def leadingNumber (s : String) : Nat :=
  Decimal.ofDigits (Decimal.leading s.toList).1

/-- Seconds since 1970: the time of booting and what has passed since then. -/
def unixSeconds : IO Nat := do
  let lines := (← IO.FS.readFile "/proc/stat").splitOn "\n"
  let booted := lines.findSome? fun l =>
    match l.splitOn " " with
    | ["btime", n] => some (leadingNumber n)
    | _ => none
  return booted.getD 0 + leadingNumber (← IO.FS.readFile "/proc/uptime")

def ownProcessId : IO UInt32 := do
  return UInt32.ofNat (leadingNumber (← IO.FS.readFile "/proc/self/stat"))

/-- A random identifier with the marks of the fourth version. -/
def freshId : IO String := do
  let cs := (← randomHex 16).toList
  let part (start size : Nat) : String := String.ofList ((cs.drop start).take size)
  return part 0 8 ++ "-" ++ part 8 4 ++ "-4" ++ part 13 3 ++ "-a" ++ part 17 3 ++ "-" ++ part 20 12

def environmentOf (names : List String) : IO Environment := do
  let known ← names.mapM fun name => do return (name, ← IO.getEnv name)
  return fun name => (known.find? (·.1 = name)).bind (·.2)

/-- The environment variables that a run may look at. -/
def consulted : List String :=
  [Invocation.rootVariable, Invocation.sessionVariable, Invocation.teamVariable,
    Invocation.identityVariable, "ATM_HOME", "HOME", "ATM_SESSION_FILE", "TMPDIR"]

/-- The home directory that the table of users has for the owner of this process. -/
def listedHome : IO (Option String) := do
  try
    let status ← IO.FS.readFile "/proc/self/status"
    let owner := (status.splitOn "\n").findSome? fun l =>
      match l.splitOn "\t" with
      | "Uid:" :: owner :: _ => some owner
      | _ => none
    return ((← IO.FS.readFile "/etc/passwd").splitOn "\n").findSome? fun l =>
      match l.splitOn ":" with
      | [_, _, user, _, _, home, _] => if some user = owner then some home else none
      | _ => none
  catch _ => return none

def usage : String :=
  "Usage: atm-hook [--root <ROOT>] [-j|--json] <gate|session-start|session-end|teammate-idle|session show>\n"

/-- Whether a run reads its standard input. -/
def readsInput (environment : Environment) (arguments : List String) : Bool :=
  match CommandLine.read (environment Invocation.rootVariable) arguments with
  | .run ⟨_, _, .showSession _⟩ => false
  | .run _ => true
  | _ => false

end SpawnGate.Machine

open SpawnGate.Machine

def main (arguments : List String) : IO UInt32 := do
  let environment ← environmentOf consulted
  let stdin ← if readsInput environment arguments then readAll else pure ByteArray.empty
  let now := Calendar.Instant.ofUnixSeconds (← unixSeconds)
  let invocation : Invocation :=
    { arguments, environment, stdin, now, processId := ← ownProcessId, requestId := ← freshId
      listedHome := ← listedHome, usage }
  let outcome ← (invocation.run : IO Outcome)
  IO.print outcome.stdout
  IO.eprint outcome.stderr
  return outcome.status
