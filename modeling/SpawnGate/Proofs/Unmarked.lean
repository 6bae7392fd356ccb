import SpawnGate.Proofs.Replacement
import SpawnGate.Proofs.SessionId

/-!
A project without a usable marker. A hook leaves nothing behind there but the id of its session, and it does not
turn to the daemon, whatever the daemon would do.
-/

namespace SpawnGate

namespace World

/-- The marker is missing or unreadable, no UTF-8 text, no TOML document, or holds a mistyped value. -/
inductive Unmarked (w : World) (root : String) : Prop
  | unreadable : w.files.read? w.directory (Path.ofText (Locations.marker root)) = none → Unmarked w root
  | noText {bytes} : w.files.read? w.directory (Path.ofText (Locations.marker root)) = some bytes →
      String.fromUTF8? bytes = none → Unmarked w root
  | noDocument {text} : w.text? (Locations.marker root) = some text → Toml.Document.ofText? text = none →
      Unmarked w root
  | mistyped {text document} : w.text? (Locations.marker root) = some text →
      Toml.Document.ofText? text = some document → CoreSection.ofDocument? document = none → Unmarked w root

theorem unmarked_iff (w : World) (root : String) : w.Unmarked root ↔ w.config? root = none := by
  unfold config? ProjectConfig.ofText?
  constructor
  · intro h
    cases h with
    | unreadable hread => rw [text?, hread, Option.bind_none, Option.bind_none]
    | noText hread htext => rw [text?, hread, Option.bind_some, htext, Option.bind_none]
    | noDocument htext hdocument =>
      simp only [htext, hdocument, Option.bind_some, Option.bind_eq_bind, Option.bind_none]
    | mistyped htext hdocument hcore =>
      simp only [htext, hdocument, hcore, Option.bind_some, Option.bind_eq_bind, Option.bind_none]
  · intro h
    cases hread : w.files.read? w.directory (Path.ofText (Locations.marker root)) with
    | none => exact .unreadable hread
    | some bytes =>
      cases hutf : String.fromUTF8? bytes with
      | none => exact .noText hread hutf
      | some text =>
        have htext : w.text? (Locations.marker root) = some text := by rw [text?, hread, Option.bind_some, hutf]
        cases hdocument : Toml.Document.ofText? text with
        | none => exact .noDocument htext hdocument
        | some document =>
          cases hcore : CoreSection.ofDocument? document with
          | none => exact .mistyped htext hdocument hcore
          | some core => simp [htext, hdocument, hcore] at h

/-- What a machine does that its state does not tell: how it names a new file, and all that the daemon does. -/
structure Surroundings where
  fresh : FileSystem → Location → String
  free : ∀ (fs : FileSystem) here, fs.find? (here ++ [fresh fs here]) = none
  daemon : String → String → Run Delivery

namespace Surroundings

variable (s : Surroundings)

@[reducible]
def host : Host Run where
  readFile := read
  replaceFile := store (FileSystem.replaceVia s.fresh)
  appendFile := store FileSystem.append
  request := s.daemon

def run (i : Invocation) : Run Outcome := @Invocation.run Run _ s.host i

/-- The machine once an id was recorded. -/
def noted (w : World) (cache : String) : Option String → World
  | some id => { w with files := (w.files.replaceVia s.fresh w.directory (Path.ofText cache) id.toUTF8).1 }
  | none => w

theorem readFile_host (path : String) : @Host.readFile Run s.host path = read path := rfl

theorem readFile_run (path : String) : (Host.readFile path : Run (Option ByteArray)) = read path := rfl

theorem readText_host (path : String) : @Host.readText Run _ s.host path = Host.readText path := by
  unfold Host.readText
  rw [readFile_host, readFile_run]

theorem leads_host (i : Invocation) (team : String) : @Invocation.leads Run _ s.host i team = i.leads team := by
  unfold Invocation.leads Registry.lead? Registry.readLead
  simp only [readText_host]

theorem run_probe (root : String) (w : World) :
    (@ProjectConfig.probe Run _ s.host root).run w = (w.config? root, w) := by
  unfold ProjectConfig.probe
  rw [readText_host]
  exact World.run_probe root w

theorem run_record (cache id : String) (w : World) :
    (@Session.record Run _ s.host cache id).run w = ((), s.noted w cache (Text.usable id)) := by
  unfold Session.record
  cases Text.usable id with
  | none => rfl
  | some id =>
    have hreplace : @Host.replaceFile Run s.host cache id.toUTF8 =
        store (FileSystem.replaceVia s.fresh) cache id.toUTF8 := rfl
    simp only [World.run_discard, hreplace, World.run_store, noted]

theorem run_gate (i : Invocation) (root : String) (w : World) :
    ((@Invocation.gate Run _ s.host i root).run w).2 = s.noted w i.cache i.givenId? := by
  unfold Invocation.gate
  cases hinput : (String.fromUTF8? i.stdin).bind SpawnRequest.ofText? with
  | none =>
    rw [Invocation.givenId?_of_no_request hinput]
    rfl
  | some r =>
    have hleads : ∀ team w, (@Invocation.leads Run _ s.host i team).run w = (i.leadIn w team, w) := by
      intro team w
      rw [leads_host]
      exact i.run_leads team w
    -- The id is recorded before the marker is read, and the decision on it writes nothing more.
    simp only [World.run_bind, run_record, run_probe]
    rw [Policy.run_evaluate _ _ _ fun team => hleads team _, Invocation.usable_callerId hinput]
    simp only
    cases Policy.decide _ _ r <;> rfl

theorem run_record_field (cache key : String) (v : Json.Value) (w : World) :
    ((Hook.field? v key).forM (@Session.record Run _ s.host cache)).run w =
      ((), s.noted w cache (Hook.field? v key)) := by
  rw [run_forM]
  cases hid : Hook.field? v key with
  | none => rfl
  | some id =>
    have husable := ((Hook.field?_eq_some_iff v key id).mp hid).usable
    simp only [run_record, husable]

variable {s} {i : Invocation} {root : String} {w : World}

theorem run_sessionStart (hconfig : (s.noted w i.cache i.givenId?).config? root = none) :
    (@Invocation.sessionStart Run _ s.host i root).run w =
      ({ Outcome.silent with stdout := i.announced none }, s.noted w i.cache i.givenId?) := by
  unfold Invocation.sessionStart Invocation.announced
  rw [← Invocation.sessionId?_eq_givenId?, Invocation.sessionId?] at hconfig ⊢
  cases hpayload : i.payload? with
  | none => rfl
  | some payload =>
    rw [hpayload, Option.bind_some] at hconfig
    simp only [World.run_bind, run_record_field, run_probe, Option.bind_some, hconfig]
    rw [Option.map_none, Option.getD_none, String.append_empty]
    rfl

theorem run_lifecycle {event : ProjectConfig → Json.Value → String → Event}
    (hconfig : (s.noted w i.cache i.givenId?).config? root = none) :
    (@Invocation.lifecycle Run _ s.host i root event).run w = (.silent, s.noted w i.cache i.givenId?) := by
  unfold Invocation.lifecycle
  rw [← Invocation.sessionId?_eq_givenId?, Invocation.sessionId?] at hconfig ⊢
  cases hpayload : i.payload? with
  | none => rfl
  | some payload =>
    rw [hpayload, Option.bind_some] at hconfig
    simp only [Option.bind_some]
    cases hid : Hook.field? payload "session_id" with
    | none => rfl
    | some id =>
      have husable := ((Hook.field?_eq_some_iff payload _ id).mp hid).usable
      rw [hid] at hconfig
      simp only [World.run_bind, run_record, husable, run_probe, hconfig, run_forM]
      rfl

/-- Without a config, a hook leaves only the id of its session behind, and no lifecycle hook fails. -/
theorem run_hook {a : Arguments}
    (harguments : CommandLine.read (i.environment Invocation.rootVariable) i.arguments = .run a)
    (hhook : a.command.isHook = true) (hconfig : (s.noted w i.cache i.givenId?).config? (a.root.getD "") = none) :
    ((s.run i).run w).2 = s.noted w i.cache i.givenId? ∧
      (a.command.isLifecycle = true → ((s.run i).run w).1.status = 0) := by
  have hrun : s.run i = @Invocation.perform Run _ s.host i a := by
    unfold run Invocation.run
    simp only [harguments]
  rw [hrun]
  unfold Invocation.perform
  cases hcommand : a.command with
  | gate => exact ⟨s.run_gate i _ w, nofun⟩
  | sessionStart =>
    simp only [run_sessionStart hconfig]
    exact ⟨trivial, fun _ => rfl⟩
  | sessionEnd =>
    simp only [Invocation.sessionEnd, run_lifecycle hconfig]
    exact ⟨trivial, fun _ => rfl⟩
  | teammateIdle =>
    simp only [Invocation.teammateIdle, run_lifecycle hconfig]
    exact ⟨trivial, fun _ => rfl⟩
  | showSession explicit =>
    rw [hcommand] at hhook
    cases hhook

theorem directory_noted (w : World) (cache : String) (id : Option String) :
    (s.noted w cache id).directory = w.directory := by
  cases id with
  | none => rfl
  | some id => simp only [noted]

theorem sent_noted (w : World) (cache : String) (id : Option String) : (s.noted w cache id).sent = w.sent := by
  cases id with
  | none => rfl
  | some id => simp only [noted]

theorem find?_noted (hw : w.Grounded) (cache id : String) (l : Location) :
    (s.noted w cache (some id)).files.find? l =
      (w.files.replace w.directory (Path.ofText cache) id.toUTF8).1.find? l := by
  rw [noted]
  exact (FileSystem.replaceVia_agrees hw.1 hw.2 s.free (Path.ofText cache) id.toUTF8).2 l

theorem config?_noted (hw : w.Grounded) {cache : String} (h : ¬ w.Aliases cache (Locations.marker root))
    (id : Option String) : (s.noted w cache id).config? root = w.config? root := by
  cases id with
  | none => rfl
  | some id =>
    have hread : (s.noted w cache (some id)).files.read? w.directory (Path.ofText (Locations.marker root)) =
        w.files.read? w.directory (Path.ofText (Locations.marker root)) := by
      rw [FileSystem.read?_congr (find?_noted hw cache id), FileSystem.replace,
        FileSystem.read?_write hw.1 rfl h]
    rw [config?, config?, text?, text?, directory_noted, hread]

/-- A location once an id was recorded: as before, a directory that was missing on the way to the cache, or the
cache. -/
theorem find?_noted_cases (hw : w.Grounded) (cache : String) (id : Option String) (l : Location) :
    (s.noted w cache id).files.find? l = w.files.find? l ∨
      (w.files.find? l = none ∧ (s.noted w cache id).files.find? l = some .directory ∧
        l ∈ FileSystem.parentWay w.directory (Path.ofText cache)) ∨
      (l = FileSystem.target w.directory (Path.ofText cache) ∧
        ∃ bytes, (s.noted w cache id).files.find? l = some (.file bytes)) := by
  cases id with
  | none => exact .inl rfl
  | some id =>
    have hcontent : FileSystem.replacement (FileSystem.hasRoom w.directory (Path.ofText cache)) id.toUTF8
        (some .directory) = none := rfl
    rw [find?_noted hw, FileSystem.replace]
    rcases FileSystem.find?_write_cases w.files w.directory (Path.ofText cache) hcontent l with
      h | h | ⟨hl, bytes, -, h⟩
    · exact .inl h
    · exact .inr (.inl h)
    · exact .inr (.inr ⟨hl, bytes, h⟩)

/-- In a project without a usable marker a hook changes nothing but the session cache and the directories that are
missing on the way to it, and nothing is sent, whatever the daemon does. -/
theorem unmarked_hook_confined (s : Surroundings) (i : Invocation) (w : World) {a : Arguments}
    (harguments : CommandLine.read (i.environment Invocation.rootVariable) i.arguments = .run a)
    (hhook : a.command.isHook = true) (hw : w.Grounded) (hmarker : w.Unmarked (a.root.getD ""))
    (halias : ¬ w.Aliases i.cache (Locations.marker (a.root.getD ""))) :
    ((s.run i).run w).2.sent = w.sent ∧ ((s.run i).run w).2.directory = w.directory ∧
      (∀ l, ((s.run i).run w).2.files.find? l = w.files.find? l ∨
        (w.files.find? l = none ∧ ((s.run i).run w).2.files.find? l = some .directory ∧
          l ∈ FileSystem.parentWay w.directory (Path.ofText i.cache)) ∨
        (l = FileSystem.target w.directory (Path.ofText i.cache) ∧
          ∃ bytes, ((s.run i).run w).2.files.find? l = some (.file bytes))) ∧
      (a.command.isLifecycle = true → ((s.run i).run w).1.status = 0) := by
  have hconfig : (s.noted w i.cache i.givenId?).config? (a.root.getD "") = none := by
    rw [config?_noted hw halias]
    exact (unmarked_iff w _).mp hmarker
  obtain ⟨hleft, hstatus⟩ := run_hook harguments hhook hconfig
  rw [hleft]
  exact ⟨sent_noted w i.cache _, directory_noted w i.cache _, find?_noted_cases hw i.cache _, hstatus⟩

def longName (fs : FileSystem) : String :=
  String.ofList (List.replicate ((fs.entries.map fun e => (e.1.map String.length).sum).sum + 1) 't')

theorem find?_longName (fs : FileSystem) (here : Location) : fs.find? (here ++ [longName fs]) = none := by
  unfold FileSystem.find?
  rw [if_neg (by simp), Option.map_eq_none_iff, List.find?_eq_none]
  intro e he
  rw [decide_eq_true_eq]
  intro hl
  have hname : (longName fs).length ≤ (e.1.map String.length).sum := by
    rw [hl, List.map_append, List.sum_append, List.map_singleton, List.sum_singleton]
    omega
  have htotal : (e.1.map String.length).sum ≤ (fs.entries.map fun e => (e.1.map String.length).sum).sum :=
    List.single_le_sum (fun _ _ => Nat.zero_le _) _ (List.mem_map_of_mem he)
  rw [longName, String.length_ofList, List.length_replicate] at hname
  omega

/-- A daemon takes all that is sent. -/
def listening : Surroundings where
  fresh fs _ := longName fs
  free := find?_longName
  daemon _ line := do
    modify fun w => { w with sent := line :: w.sent }
    return .sent

def hookIn (root cache command : String) : Invocation where
  arguments := [command]
  environment name :=
    if name = "ATM_PROJECT_ROOT" then some root
    else if name = "ATM_SESSION_FILE" then some cache
    else if name = "ATM_HOME" then some "/h" else none
  stdin := "\x7b\"session_id\":\"s\"\x7d".toUTF8
  now := ⟨⟨2024, 1, 2⟩, 0, 0⟩
  processId := 1
  requestId := "r"

/-- A machine with a project at `/p`, and with a daemon that listens. -/
def marked (text : String) : World where
  files := ⟨[(["p"], .directory), (["p", ".atm.toml"], .file text.toUTF8), (["h"], .directory),
    (["h", ".claude"], .directory), (["h", ".claude", "daemon"], .directory),
    (["h", ".claude", "daemon", "atm-daemon.sock"], .socket)]⟩
  directory := ["p"]
  sent := []

theorem grounded_marked (text : String) : (marked text).Grounded := by
  refine ⟨FileSystem.isTree_of_entries ?_, rfl⟩
  simp [marked, FileSystem.find?]

theorem unmarked_hook_confined_mistyped :
    CommandLine.read ((hookIn "/p" "/c/d/id" "session-start").environment Invocation.rootVariable)
        (hookIn "/p" "/c/d/id" "session-start").arguments = .run ⟨some "/p", false, .sessionStart⟩ ∧
      (marked "[core]\nidentity = 1\n").Grounded ∧ (marked "[core]\nidentity = 1\n").Unmarked "/p" ∧
      ¬ (marked "[core]\nidentity = 1\n").Aliases "/c/d/id" (Locations.marker "/p") ∧
      ((listening.run (hookIn "/p" "/c/d/id" "session-start")).run (marked "[core]\nidentity = 1\n")).2.sent = [] ∧
      ((listening.run (hookIn "/p" "/c/d/id" "session-start")).run (marked "[core]\nidentity = 1\n")).1.status = 0 := by
  have hread : CommandLine.read ((hookIn "/p" "/c/d/id" "session-start").environment Invocation.rootVariable)
      (hookIn "/p" "/c/d/id" "session-start").arguments = .run ⟨some "/p", false, .sessionStart⟩ := by
    decide +kernel
  have hmarker : (marked "[core]\nidentity = 1\n").Unmarked "/p" := by
    rw [unmarked_iff]
    decide +kernel
  have halias : ¬ (marked "[core]\nidentity = 1\n").Aliases "/c/d/id" (Locations.marker "/p") := by decide +kernel
  obtain ⟨hsent, -, -, hstatus⟩ := unmarked_hook_confined listening (hookIn "/p" "/c/d/id" "session-start") _ hread
    rfl (grounded_marked _) hmarker halias
  exact ⟨hread, grounded_marked _, hmarker, halias, hsent, hstatus rfl⟩

/-- A marker that comes into reach once the cache's directory is made, since its path goes through that directory. -/
theorem exists_unmarked_hook_relaying :
    ∃ (s : Surroundings) (i : Invocation) (w : World) (a : Arguments),
      CommandLine.read (i.environment Invocation.rootVariable) i.arguments = .run a ∧ a.command.isHook = true ∧
      w.Grounded ∧ w.Unmarked (a.root.getD "") ∧
      FileSystem.target w.directory (Path.ofText i.cache) ≠
        FileSystem.target w.directory (Path.ofText (Locations.marker (a.root.getD ""))) ∧
      (∃ log : Path, FileSystem.target w.directory log ≠ FileSystem.target w.directory (Path.ofText i.cache) ∧
        w.files.read? w.directory log = none ∧ ((s.run i).run w).2.files.read? w.directory log ≠ none) ∧
      ((s.run i).run w).2.sent ≠ w.sent := by
  have hread : CommandLine.read ((hookIn "/new/../p" "/new/id" "session-end").environment Invocation.rootVariable)
      (hookIn "/new/../p" "/new/id" "session-end").arguments = .run ⟨some "/new/../p", false, .sessionEnd⟩ := by
    decide +kernel
  have hmarker : (marked "[core]\n").Unmarked "/new/../p" := .unreadable (by decide +kernel)
  -- Recording the id makes `/new`, and from then on `/new/..` leads to the project.
  have hlogged :
      ((listening.run (hookIn "/new/../p" "/new/id" "session-end")).run (marked "[core]\n")).2.files.read? ["p"]
        (Path.ofText (Locations.eventLog "/h")) ≠ none := by decide +kernel
  have hsent :
      ((listening.run (hookIn "/new/../p" "/new/id" "session-end")).run (marked "[core]\n")).2.sent ≠ [] := by
    decide +kernel
  exact ⟨listening, hookIn "/new/../p" "/new/id" "session-end", marked "[core]\n", _, hread, rfl, grounded_marked _,
    hmarker, by decide +kernel, ⟨Path.ofText (Locations.eventLog "/h"), by decide +kernel, by decide +kernel, hlogged⟩,
    hsent⟩

end Surroundings

end World

end SpawnGate
