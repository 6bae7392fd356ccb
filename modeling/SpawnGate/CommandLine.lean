/-!
The arguments of the program. The root and the output form may be given on each level, before or
after a command's name, and each at most once there; the innermost one that is given counts.
-/

namespace SpawnGate

inductive Command where
  | gate
  | sessionStart
  | sessionEnd
  | teammateIdle
  | showSession (id : Option String)
deriving DecidableEq, Repr

structure Arguments where
  /-- The project's root, where one is given. -/
  root : Option String
  json : Bool
  command : Command
deriving DecidableEq, Repr

/-- What the arguments ask for. -/
inductive Instruction where
  | run (a : Arguments)
  | version (program : String)
  | help
  | misuse
deriving DecidableEq, Repr

namespace CommandLine

def programName : String := "atm-hook"

def programVersion : String := "0.1.0"

/-- The levels of nested command names. -/
inductive Level where
  | top
  | gate
  | sessionStart
  | sessionEnd
  | teammateIdle
  | session
  | showing
deriving DecidableEq, Repr

namespace Level

def inner? : Level → String → Option Level
  | top, "gate" => some gate
  | top, "session-start" => some sessionStart
  | top, "session-end" => some sessionEnd
  | top, "teammate-idle" => some teammateIdle
  | top, "session" => some session
  | session, "show" => some showing
  | _, _ => none

def hasInner : Level → Bool
  | top => true
  | session => true
  | _ => false

def program : Level → String
  | top => programName
  | gate => programName ++ "-gate"
  | sessionStart => programName ++ "-session-start"
  | sessionEnd => programName ++ "-session-end"
  | teammateIdle => programName ++ "-teammate-idle"
  | session => programName ++ "-session"
  | showing => programName ++ "-session-show"

end Level

/-- The options that take a value. -/
inductive Parameter where
  | root
  | sessionId
deriving DecidableEq, Repr

/-- What has been read on one level. -/
structure Seen where
  root : Option String := none
  json : Bool := false
  sessionId : Option String := none
  /-- An option whose value stands in an argument of its own: it is looked at when the next option
  comes, or at the end. -/
  pending : Option (Parameter × String) := none
deriving DecidableEq, Repr

namespace Seen

/-- Sets an option that has not been set; a root must not be empty. -/
def set (s : Seen) (p : Parameter) (value : String) : Option Seen :=
  match p with
  | .root => if s.root.isNone ∧ value ≠ "" then some { s with root := some value } else none
  | .sessionId => if s.sessionId.isNone then some { s with sessionId := some value } else none

def setJson (s : Seen) : Option Seen :=
  if s.json then none else some { s with json := true }

def settle (s : Seen) : Option Seen :=
  match s.pending with
  | none => some s
  | some (p, value) => { s with pending := none }.set p value

end Seen

/-- One flag of a dashed argument. -/
inductive Flag where
  | json
  | parameter (p : Parameter) (value : Option String)
  | version
  | help
  | unknown
deriving DecidableEq, Repr

namespace Flag

def named (level : Level) (name : String) (value : Option String) : Flag :=
  if name = "root" then parameter .root value
  else if name = "session-id" ∧ level = .showing then parameter .sessionId value
  else if value.isSome then unknown
  else if name = "json" then json
  else if name = "version" then version
  else if name = "help" then help
  else unknown

/-- A long flag, with a value after an equals sign. -/
def long (level : Level) (cs : List Char) : Flag :=
  let name := String.ofList (cs.takeWhile (· ≠ '='))
  match cs.dropWhile (· ≠ '=') with
  | [] => named level name none
  | _ :: value => named level name (some (String.ofList value))

def short : Char → Flag
  | 'j' => json
  | 'V' => version
  | 'h' => help
  | _ => unknown

/-- The flags of a dashed argument, in order; a lone dash is none. -/
def all? (level : Level) (arg : String) : Option (List Flag) :=
  match arg.toList with
  | '-' :: '-' :: r => some [long level r]
  | '-' :: c :: r => some ((c :: r).map short)
  | _ => none

end Flag

/-- The levels that were entered, innermost first. -/
structure Reading where
  level : Level
  seen : Seen
  outer : List Seen
deriving DecidableEq, Repr

inductive Progress where
  | reading (r : Reading)
  /-- The next argument is an option's value. -/
  | waiting (r : Reading) (p : Parameter)
  /-- After two dashes; no further argument belongs here. -/
  | closed (r : Reading)
  /-- After `help`, the level that help is asked for; `help` itself has none. -/
  | helping (level : Option Level)
  | done (i : Instruction)
deriving DecidableEq, Repr

namespace Progress

def start : Progress := reading ⟨.top, {}, []⟩

/-- Goes on with what a level has, if that is in order. -/
def proceed (r : Reading) (next : Reading → Progress) : Option Seen → Progress
  | some seen => next { r with seen }
  | none => done .misuse

def flag (r : Reading) (f : Flag) : Progress :=
  proceed r (fun r =>
    match f with
    | .json => proceed r reading r.seen.setJson
    | .parameter p (some value) => proceed r reading (r.seen.set p value)
    | .parameter p none => waiting r p
    | .version => done (.version r.level.program)
    | .help => done .help
    | .unknown => done .misuse) r.seen.settle

def flags (r : Reading) : List Flag → Progress
  | [] => reading r
  | f :: fs =>
    match flag r f with
    | reading r => flags r fs
    | p => p

/-- A command's name, or nothing that belongs here. -/
def enter (r : Reading) (arg : String) : Progress :=
  match r.level.inner? arg with
  | some level => reading ⟨level, {}, r.seen :: r.outer⟩
  | none => if arg = "help" ∧ r.level.hasInner then helping (some r.level) else done .misuse

/-- A command's name after `help`. -/
def helpOn (level : Level) (arg : String) : Progress :=
  match level.inner? arg with
  | some inner => helping (some inner)
  | none => if arg = "help" ∧ level.hasInner then helping none else done .misuse

def step (p : Progress) (arg : String) : Progress :=
  match p with
  | done i => done i
  | closed _ => done .misuse
  | helping (some level) => helpOn level arg
  | helping none => done .misuse
  | reading r =>
    if arg = "--" then closed r
    else
      match Flag.all? r.level arg with
      | some fs => flags r fs
      | none => enter r arg
  | waiting r p =>
    match Flag.all? r.level arg with
    | some _ => done .misuse
    | none => reading { r with seen := { r.seen with pending := some (p, arg) } }

end Progress

def command? (seen : Seen) : Level → Option Command
  | .gate => some .gate
  | .sessionStart => some .sessionStart
  | .sessionEnd => some .sessionEnd
  | .teammateIdle => some .teammateIdle
  | .showing => some (.showSession seen.sessionId)
  | _ => none

/-- A level in order: an empty root in the environment is refused where it would be used. -/
def settle (inherited : Option String) (s : Seen) : Option Seen :=
  s.settle.filter fun s => s.root.isSome ∨ inherited ≠ some ""

def conclude (inherited : Option String) (r : Reading) : Instruction :=
  match (r.seen :: r.outer).mapM (settle inherited) with
  | some (seen :: outer) =>
    match command? seen r.level with
    | some command =>
      .run { root := (seen :: outer).findSome? (·.root) <|> inherited
             json := (seen :: outer).any (·.json), command }
    | none => .misuse
  | _ => .misuse

/-- Reads the arguments, given what the environment has for the root. -/
def read (inherited : Option String) (args : List String) : Instruction :=
  match args.foldl Progress.step .start with
  | .done i => i
  | .waiting _ _ => .misuse
  | .helping _ => .help
  | .closed r => conclude inherited r
  | .reading r => conclude inherited r

end CommandLine

end SpawnGate
