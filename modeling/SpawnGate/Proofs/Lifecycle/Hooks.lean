import SpawnGate.Proofs.Runs
import SpawnGate.Proofs.Lifecycle.Line

/-!
What a lifecycle hook leaves behind: the id of its session, and in an orchestrated project a line in
the log, from which the event can be read again unless its payload is nested too deeply.
-/

namespace SpawnGate

open Json

def Command.isLifecycle : Command → Bool
  | .sessionStart => true
  | .sessionEnd => true
  | .teammateIdle => true
  | _ => false

namespace Invocation

def sessionId? (i : Invocation) : Option String :=
  i.payload?.bind fun payload => Hook.field? payload "session_id"

def eventFor (i : Invocation) (config : ProjectConfig) (payload : Value) (id : String) :
    Command → Option Event
  | .sessionStart =>
    some (configured config payload
      (.sessionStart id (.ofHook (Hook.field? payload "source")) i.now i.processId))
  | .sessionEnd => some (configured config payload (.sessionEnd id i.now))
  | .teammateIdle =>
    some (((Event.teammateIdle id i.now).withIdentity (idleAgent i.environment config payload)
      (idleTeam i.environment config payload)).withPayload payload)
  | _ => none

/-- The event of a lifecycle hook in an orchestrated project. -/
def event? (i : Invocation) (command : Command) (config : ProjectConfig) : Option Event := do
  let payload ← i.payload?
  let id ← Hook.field? payload "session_id"
  i.eventFor config payload id command

/-- The machine once a hook has recorded its session. -/
def recordedIn (i : Invocation) (w : World) : World :=
  match i.sessionId? with
  | some id => w.recorded i.cache id
  | none => w

def relayedIn (i : Invocation) (w : World) (e : Event) : World :=
  match i.home with
  | .ok home => w.relayed home e i.requestId
  | .error _ => w

/-- The machine after a lifecycle hook. -/
def leftBehind (i : Invocation) (command : Command) (root : String) (w : World) : World :=
  match ((i.recordedIn w).config? root).bind (i.event? command) with
  | some e => i.relayedIn (i.recordedIn w) e
  | none => i.recordedIn w

def announced (i : Invocation) (config : Option ProjectConfig) : String :=
  match i.payload? with
  | none => ""
  | some payload =>
    ((Hook.field? payload "session_id").map
      (announcement · (.ofHook (Hook.field? payload "source")))).getD "" ++ (config.map greeting).getD ""

theorem payload?_of_text {i : Invocation} {text : String} (h : String.fromUTF8? i.stdin = some text) :
    i.payload? = some (payloadOfText text) := by
  rw [payload?, h, Option.map_some]

theorem sessionId?_eq {i : Invocation} {payload : Value} (h : i.payload? = some payload) :
    i.sessionId? = Hook.field? payload "session_id" := by
  rw [sessionId?, h, Option.bind_some]

theorem run_relay (i : Invocation) (config : ProjectConfig) (e : Event) (w : World) :
    (i.relay config e : World.Run Unit).run w = ((), i.relayedIn w e) := by
  unfold relay relayedIn
  cases i.home with
  | error => rfl
  | ok home =>
    simp only
    rw [World.run_discard, World.run_emit]

theorem event?_eq {i : Invocation} {payload : Value} {id : String} (hpayload : i.payload? = some payload)
    (hid : Hook.field? payload "session_id" = some id) (command : Command) (config : ProjectConfig) :
    i.event? command config = i.eventFor config payload id command := by
  rw [event?, hpayload, Option.bind_eq_bind, Option.bind_some, hid, Option.bind_eq_bind, Option.bind_some]

theorem event?_of_sessionId?_eq_none {i : Invocation} (h : i.sessionId? = none) (command : Command)
    (config : ProjectConfig) : i.event? command config = none := by
  unfold sessionId? at h
  unfold event?
  cases hpayload : i.payload? with
  | none => rfl
  | some payload =>
    rw [hpayload, Option.bind_some] at h
    simp only [Option.bind_eq_bind, Option.bind_some, h, Option.bind_none]

theorem recordedIn_eq {i : Invocation} {id : String} (h : i.sessionId? = some id) (w : World) :
    i.recordedIn w = w.recorded i.cache id := by
  rw [recordedIn, h]

theorem leftBehind_of_sessionId?_eq_none {i : Invocation} (h : i.sessionId? = none) (command : Command)
    (root : String) (w : World) : i.leftBehind command root w = w := by
  unfold leftBehind recordedIn
  simp only [h, event?_of_sessionId?_eq_none h, Option.bind_fun_none]

theorem leftBehind_eq {i : Invocation} {id : String} (h : i.sessionId? = some id) (command : Command)
    (root : String) (w : World) :
    i.leftBehind command root w = match (w.recorded i.cache id).config? root with
      | none => w.recorded i.cache id
      | some config => match i.event? command config with
        | some e => i.relayedIn (w.recorded i.cache id) e
        | none => w.recorded i.cache id := by
  unfold leftBehind
  rw [recordedIn_eq h]
  cases (w.recorded i.cache id).config? root <;> rfl

theorem run_sessionStart (i : Invocation) (root : String) (w : World) :
    (i.sessionStart root : World.Run Outcome).run w =
      ({ Outcome.silent with stdout := i.announced ((i.recordedIn w).config? root) },
        i.leftBehind .sessionStart root w) := by
  unfold sessionStart announced
  cases hpayload : i.payload? with
  | none =>
    have hid : i.sessionId? = none := by rw [sessionId?, hpayload, Option.bind_none]
    rw [leftBehind_of_sessionId?_eq_none hid]
    rfl
  | some payload =>
    have hsession := sessionId?_eq hpayload
    simp only [World.run_bind, World.run_forM, World.run_probe]
    cases hid : Hook.field? payload "session_id" with
    | none =>
      rw [hid] at hsession
      rw [leftBehind_of_sessionId?_eq_none hsession]
      simp only [recordedIn, hsession]
      cases w.config? root <;> rfl
    | some id =>
      rw [hid] at hsession
      rw [leftBehind_eq hsession]
      simp only [World.run_record, recordedIn, hsession]
      cases (w.recorded i.cache id).config? root with
      | none =>
        rw [Option.map_none, Option.getD_none, String.append_empty]
        rfl
      | some config =>
        simp only [event?_eq hpayload hid, eventFor, World.run_bind, World.run_forM, run_relay]
        rfl

theorem run_lifecycle {i : Invocation} {command : Command} {root : String}
    {event : ProjectConfig → Json.Value → String → Event}
    (h : ∀ payload id config, i.eventFor config payload id command = some (event config payload id))
    (w : World) :
    (i.lifecycle root event : World.Run Outcome).run w = (.silent, i.leftBehind command root w) := by
  unfold lifecycle
  cases hpayload : i.payload? with
  | none =>
    have hid : i.sessionId? = none := by rw [sessionId?, hpayload, Option.bind_none]
    rw [leftBehind_of_sessionId?_eq_none hid]
    rfl
  | some payload =>
    cases hid : Hook.field? payload "session_id" with
    | none =>
      have hsession : i.sessionId? = none := (sessionId?_eq hpayload).trans hid
      rw [leftBehind_of_sessionId?_eq_none hsession]
      simp only [hid]
      rfl
    | some id =>
      have hsession : i.sessionId? = some id := (sessionId?_eq hpayload).trans hid
      rw [leftBehind_eq hsession]
      simp only [hid, World.run_bind, World.run_record, World.run_probe, World.run_forM]
      cases (w.recorded i.cache id).config? root with
      | none => rfl
      | some config =>
        simp only [event?_eq hpayload hid, h payload id config, run_relay]
        rfl

theorem run_sessionEnd (i : Invocation) (root : String) (w : World) :
    (i.sessionEnd root : World.Run Outcome).run w = (.silent, i.leftBehind .sessionEnd root w) := by
  rw [sessionEnd, run_lifecycle]
  intro payload id config
  rfl

theorem run_teammateIdle (i : Invocation) (root : String) (w : World) :
    (i.teammateIdle root : World.Run Outcome).run w = (.silent, i.leftBehind .teammateIdle root w) := by
  rw [teammateIdle, run_lifecycle]
  intro payload id config
  rfl

/-- A lifecycle hook changes nothing but what it records and relays. -/
theorem run_perform {i : Invocation} {a : Arguments} (h : a.command.isLifecycle = true) (w : World) :
    ((i.perform a : World.Run Outcome).run w).2 = i.leftBehind a.command (a.root.getD "") w := by
  unfold perform
  cases hcommand : a.command with
  | gate =>
    rw [hcommand] at h
    cases h
  | showSession explicit =>
    rw [hcommand] at h
    cases h
  | sessionStart => simp only [run_sessionStart]
  | sessionEnd => simp only [run_sessionEnd]
  | teammateIdle => simp only [run_teammateIdle]

/-- The path of the log and the event that a lifecycle hook adds to it. -/
def logged? (i : Invocation) (a : Arguments) (w : World) : Option (String × Event) := do
  let home ← (i.home).toOption
  let config ← (i.recordedIn w).config? (a.root.getD "")
  let e ← i.event? a.command config
  return (Locations.eventLog home, e)

theorem logged?_eq_some {i : Invocation} {a : Arguments} {w : World} {home id : String}
    {config : ProjectConfig} {e : Event} (hhome : i.home = .ok home)
    (hid : i.sessionId? = some id)
    (hconfig : (w.recorded i.cache id).config? (a.root.getD "") = some config)
    (hevent : i.event? a.command config = some e) :
    i.logged? a w = some (Locations.eventLog home, e) := by
  simp only [logged?, recordedIn, hhome, hid, hconfig, hevent, Except.toOption, Option.bind_eq_bind,
    Option.bind_some, Option.pure_def]

theorem files_leftBehind (i : Invocation) (a : Arguments) (w : World) :
    (i.leftBehind a.command (a.root.getD "") w).files = match i.logged? a w with
      | some (log, e) => ((i.recordedIn w).appended log (e.line ++ "\n").toUTF8).files
      | none => (i.recordedIn w).files := by
  unfold leftBehind logged? relayedIn
  cases i.home with
  | error =>
    simp only [Except.toOption, Option.bind_eq_bind, Option.bind_none]
    split <;> rfl
  | ok home =>
    simp only [Except.toOption, Option.bind_eq_bind, Option.bind_some, Option.pure_def]
    cases (i.recordedIn w).config? (a.root.getD "") with
    | none => rfl
    | some config =>
      simp only [Option.bind_some]
      cases i.event? a.command config with
      | none => rfl
      | some e =>
        simp only [Option.bind_some]
        rw [World.relayed, World.files_delivered]

theorem files_run {i : Invocation} {a : Arguments}
    (harguments : CommandLine.read (i.environment rootVariable) i.arguments = .run a)
    (hhook : a.command.isLifecycle = true) (w : World) :
    ((i.run : World.Run Outcome).run w).2.files = match i.logged? a w with
      | some (log, e) => ((i.recordedIn w).appended log (e.line ++ "\n").toUTF8).files
      | none => (i.recordedIn w).files := by
  have hrun : (i.run : World.Run Outcome) = i.perform a := by
    simp only [run, harguments]
  rw [hrun, run_perform hhook, files_leftBehind]

theorem files_run_of_logged? {i : Invocation} {a : Arguments} {w : World} {log : String} {e : Event}
    (harguments : CommandLine.read (i.environment rootVariable) i.arguments = .run a)
    (hhook : a.command.isLifecycle = true) (hlogged : i.logged? a w = some (log, e)) :
    ((i.run : World.Run Outcome).run w).2.files =
      ((i.recordedIn w).appended log (e.line ++ "\n").toUTF8).files := by
  rw [files_run harguments hhook, hlogged]

theorem payload_bounds {i : Invocation} {payload : Value} (h : i.payload? = some payload) :
    payload.NumbersInRange ∧ payload.depth ≤ Value.greatestDepth := by
  obtain ⟨text, -, rfl⟩ := Option.map_eq_some_iff.mp h
  unfold payloadOfText
  split
  · rename_i members hvalue
    obtain ⟨t, -, ht⟩ := Option.bind_eq_some_iff.mp hvalue
    exact ⟨Value.numbersInRange_of_ofTree? ht, Value.depth_le_of_ofTree? ht⟩
  · exact ⟨.object (by simp), by decide⟩

theorem payload?_of_event? {i : Invocation} {command : Command} {config : ProjectConfig} {e : Event}
    (h : i.event? command config = some e) : i.payload? = some e.payload ∧ e.receivedAt = i.now := by
  simp only [event?, Option.bind_eq_bind, Option.bind_eq_some_iff] at h
  obtain ⟨payload, hpayload, id, -, h⟩ := h
  cases command with
  | gate => cases h
  | showSession explicit => cases h
  | _ =>
    obtain rfl := Option.some.inj h
    exact ⟨hpayload, rfl⟩

/-- A lifecycle hook adds at most the line of its event to the log. The event is read back from the line
unless the hook's input was nested as deeply as an input may be. -/
theorem hook_line_reads_back (i : Invocation) (w : World) {a : Arguments}
    (harguments : CommandLine.read (i.environment rootVariable) i.arguments = .run a)
    (hhook : a.command.isLifecycle = true) (hnow : i.now.IsValid) :
    ((i.run : World.Run Outcome).run w).2.files = (match i.logged? a w with
      | some (log, e) => ((i.recordedIn w).appended log (e.line ++ "\n").toUTF8).files
      | none => (i.recordedIn w).files) ∧
    ∀ log e, i.logged? a w = some (log, e) → i.payload? = some e.payload ∧
      e.payload.depth ≤ Value.greatestDepth ∧
      (Event.ofText? e.line).map Event.identity =
        if e.payload.depth < Value.greatestDepth then some e.identity else none := by
  refine ⟨files_run harguments hhook w, ?_⟩
  intro log e hlogged
  simp only [logged?, Option.bind_eq_bind, Option.bind_eq_some_iff, Option.pure_def, Option.some.injEq,
    Prod.mk.injEq] at hlogged
  obtain ⟨home, -, config, -, e', hevent, -, rfl⟩ := hlogged
  obtain ⟨hpayload, hreceived⟩ := payload?_of_event? hevent
  obtain ⟨hnumbers, hdepth⟩ := payload_bounds hpayload
  have hroom : e'.payload.depth ≤ Event.payloadDepth ↔ e'.payload.depth < Value.greatestDepth := by
    unfold Event.payloadDepth Value.greatestDepth
    omega
  refine ⟨hpayload, hdepth, ?_⟩
  rw [Event.identity_ofText?_line (hreceived ▸ hnow) hnumbers]
  simp only [hroom]

def orchestrated : World where
  files := ⟨[(["p"], .directory),
    (["p", ".atm.toml"], .file "[core]\ndefault_team = \"t\"\nidentity = \"a\"\n".toUTF8)]⟩
  directory := []
  sent := []

def ending (stdin : String) : Invocation where
  arguments := ["--root", "/p", "session-end"]
  environment name :=
    if name = "ATM_HOME" then some "/h" else if name = "ATM_SESSION_FILE" then some "/c" else none
  stdin := stdin.toUTF8
  now := ⟨⟨2024, 1, 2⟩, 0, 0⟩
  processId := 1
  requestId := "r"

def endingArguments : Arguments := ⟨some "/p", false, .sessionEnd⟩

def endedInput : String := "\x7b\"session_id\":\" s \"\x7d"

theorem hook_line_reads_back_ending :
    CommandLine.read ((ending endedInput).environment rootVariable) (ending endedInput).arguments =
        .run endingArguments ∧
      endingArguments.command.isLifecycle = true ∧ (ending endedInput).now.IsValid ∧
      ∃ log e, (ending endedInput).logged? endingArguments orchestrated = some (log, e) ∧
        (Event.ofText? e.line).map Event.identity = some (.sessionEnd, "s", some "a", some "t") := by
  have hread : CommandLine.read ((ending endedInput).environment rootVariable)
      (ending endedInput).arguments = .run endingArguments := by decide +kernel
  have hnow : (ending endedInput).now.IsValid := by decide
  have hlogged : ((ending endedInput).logged? endingArguments orchestrated).map
      (fun l => (l.2.identity, l.2.payload.depth)) = some ((.sessionEnd, "s", some "a", some "t"), 1) := by
    decide +kernel
  obtain ⟨⟨log, e⟩, hlog, hfields⟩ := Option.map_eq_some_iff.mp hlogged
  simp only [Prod.mk.injEq] at hfields
  obtain ⟨hidentity, hdepth⟩ := hfields
  obtain ⟨-, hback⟩ := hook_line_reads_back (ending endedInput) orchestrated hread rfl hnow
  refine ⟨hread, rfl, hnow, log, e, hlog, ?_⟩
  rw [(hback log e hlog).2.2, hdepth, if_pos (by decide), hidentity]

def endedEvent (payload : Value) : Event :=
  configured ⟨some "t", "a", none, []⟩ payload (.sessionEnd "s" ⟨⟨2024, 1, 2⟩, 0, 0⟩)

theorem payload?_ending {text : String} {members : List (String × Value)}
    (h : Value.ofText? text = some (.object members)) : (ending text).payload? = some (.object members) := by
  rw [payload?_of_text (World.fromUTF8?_toUTF8 text), payloadOfText, h]

theorem sessionId?_ending {text id : String} {members : List (String × Value)}
    (h : Value.ofText? text = some (.object members)) (hid : Hook.field? (.object members) "session_id" = some id) :
    (ending text).sessionId? = some id := by
  rw [sessionId?_eq (payload?_ending h), hid]

theorem logged?_ending {text : String} {members : List (String × Value)}
    (h : Value.ofText? text = some (.object members)) (hid : Hook.field? (.object members) "session_id" = some "s") :
    (ending text).logged? endingArguments orchestrated =
      some (Locations.eventLog "/h", endedEvent (.object members)) := by
  have hconfig : (orchestrated.recorded "/c" "s").config? "/p" = some ⟨some "t", "a", none, []⟩ := by decide +kernel
  have hcache : (ending text).cache = "/c" := rfl
  apply logged?_eq_some (by rfl) (sessionId?_ending h hid)
  · rw [hcache]
    exact hconfig
  · exact event?_eq (payload?_ending h) hid _ _

theorem append_succeeds_ending {text : String} {members : List (String × Value)}
    (h : Value.ofText? text = some (.object members)) (hid : Hook.field? (.object members) "session_id" = some "s")
    (bytes : ByteArray) :
    (((ending text).recordedIn orchestrated).files.append orchestrated.directory
      (Path.ofText (Locations.eventLog "/h")) bytes).2 = true := by
  have hadded : ((orchestrated.recorded "/c" "s").files.append orchestrated.directory
      (Path.ofText (Locations.eventLog "/h")) ByteArray.empty).2 = true := by decide +kernel
  have hcache : (ending text).cache = "/c" := rfl
  rw [recordedIn_eq (sessionId?_ending h hid), hcache, FileSystem.append_succeeds_congr]
  exact hadded

def nested : ℕ → Value
  | 0 => .null
  | n + 1 => .object [("a", nested n)]

theorem ofTree?_nested {n room : ℕ} (h : n ≤ room) : Value.ofTree? room (nested n).tree = some (nested n) := by
  induction n generalizing room with
  | zero => rfl
  | succ n ih =>
    cases room with
    | zero => omega
    | succ room =>
      have hinner := ih (Nat.le_of_succ_le_succ h)
      simp only [nested, Value.tree, Value.memberTrees, Value.ofTree?, Value.ofMembers?, text?_symbolsOf, hinner]
      rfl

/-- An input with an id that is nested as deeply as an input may be. -/
def deepest : Value := .object [("a", nested 126), ("session_id", .string "s")]

theorem ofTree?_deepest : Value.ofTree? Value.greatestDepth deepest.tree = some deepest := by
  have hnested : Value.ofTree? 126 (nested 126).tree = some (nested 126) := ofTree?_nested le_rfl
  have horder : ¬ "session_id" < "a" := by decide
  simp only [deepest, Value.tree, Value.memberTrees, Value.greatestDepth, Value.ofTree?, Value.ofMembers?,
    text?_symbolsOf, hnested]
  simp [Members.ofList, Members.put, horder]

def deepestInput : String := String.ofList deepest.chars

theorem ofText?_deepestInput : Value.ofText? deepestInput = some deepest := by
  rw [Value.ofText?_of_written (by rw [deepestInput, String.toList_ofList]; exact deepest.written_tree),
    ofTree?_deepest]

def deepestEvent : Event := endedEvent deepest

theorem field?_deepest : Hook.field? deepest "session_id" = some "s" := by
  decide +kernel

theorem ofText?_deepestEvent : Event.ofText? deepestEvent.line = none := by
  have hnow : deepestEvent.receivedAt.IsValid := by decide
  have hdepth : deepestEvent.payload.depth = 127 := by decide +kernel
  have hnumbers : deepestEvent.payload.NumbersInRange := Value.numbersInRange_of_ofTree? ofTree?_deepest
  have hnone := Event.identity_ofText?_line hnow hnumbers
  rw [hdepth, if_neg (by decide), Option.map_eq_none_iff] at hnone
  exact hnone

/-- The deepest input is accepted and a line is added to the log for it, which cannot be read. -/
theorem exists_logged_line_not_read :
    ∃ (i : Invocation) (w : World) (a : Arguments) (log line : String),
      CommandLine.read (i.environment rootVariable) i.arguments = .run a ∧ a.command.isLifecycle = true ∧
      i.now.IsValid ∧
      ((i.run : World.Run Outcome).run w).2.files =
        ((i.recordedIn w).appended log (line ++ "\n").toUTF8).files ∧
      ((i.recordedIn w).files.append w.directory (Path.ofText log) (line ++ "\n").toUTF8).2 = true ∧
      Event.ofText? line = none := by
  have hread : CommandLine.read ((ending deepestInput).environment rootVariable)
      (ending deepestInput).arguments = .run endingArguments := by decide +kernel
  have hfiles := files_run_of_logged? hread rfl (logged?_ending ofText?_deepestInput field?_deepest)
  exact ⟨ending deepestInput, orchestrated, endingArguments, Locations.eventLog "/h", deepestEvent.line,
    hread, rfl, by decide, hfiles, append_succeeds_ending ofText?_deepestInput field?_deepest _, ofText?_deepestEvent⟩

end Invocation

end SpawnGate
