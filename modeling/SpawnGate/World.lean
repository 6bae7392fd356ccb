import SpawnGate.Client
import SpawnGate.FileSystem
import SpawnGate.Host

/-!
A machine as plain data: a file system, a working directory and the lines that listeners have got.
-/

namespace SpawnGate

structure World where
  files : FileSystem
  /-- Where relative paths begin. -/
  directory : Location
  /-- The lines that were sent, latest first. -/
  sent : List String

namespace World

abbrev Run := StateM World

def read (path : String) : Run (Option ByteArray) := do
  let w ← get
  return w.files.read? w.directory (Path.ofText path)

/-- Writes a file by one of the file system's operations. -/
def store (op : FileSystem → Location → Path → ByteArray → FileSystem × Bool) (path : String)
    (bytes : ByteArray) : Run Bool := do
  let w ← get
  let (files, done) := op w.files w.directory (Path.ofText path) bytes
  set { w with files }
  return done

/-- No longer text is the address of a socket. -/
def addressLimit : Nat := 108

/-- Something listens at a path, and the path is no longer than an address may be. -/
def Hears (w : World) (path : String) : Prop :=
  w.files.entry? w.directory (Path.ofText path) = some .socket ∧ path.utf8ByteSize < addressLimit

instance (w : World) (path : String) : Decidable (w.Hears path) := by
  unfold Hears; infer_instance

/-- Whoever listens takes every line at once and says nothing. -/
instance : Sockets Run where
  Stream := Unit
  isPresent path := do
    let w ← get
    return Option.isSome <| w.files.entry? w.directory (Path.ofText path)
  prepare := return true
  connect path _ := do
    let w ← get
    return if w.Hears path then .done () else .failed
  write _ line _ := do
    modify fun w => { w with sent := line :: w.sent }
    return .done ()
  read _ _ _ := return .late

def send (path line : String) : Run Delivery :=
  Client.request path line

instance : Host Run where
  readFile := read
  replaceFile := store FileSystem.replace
  appendFile := store FileSystem.append
  request := send

end World

end SpawnGate
