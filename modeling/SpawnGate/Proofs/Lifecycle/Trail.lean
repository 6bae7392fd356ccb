import SpawnGate.Proofs.Lifecycle.Log
import SpawnGate.Proofs.Lifecycle.Sources
import SpawnGate.Proofs.Recovery

/-!
What runs of the program add to a log and send to the daemon, one after another. Each run adds at most one line and
sends at most one, and only lifecycle hooks do; every line that is added tells of the hook's own input.
-/

namespace SpawnGate

open Json Lines

namespace Invocation

variable (i : Invocation) {w : World} {log : Location}

theorem sent_recordedIn (w : World) : (i.recordedIn w).sent = w.sent := by
  rw [recordedIn_eq_match]
  cases i.givenId? with
  | none => rfl
  | some id => exact World.sent_replaced w i.cache _

theorem sent_leftBehind (command : Command) (root : String) (w : World) :
    ∃ request : Option String, (i.leftBehind command root w).sent = request.toList ++ w.sent := by
  have hrecorded := i.sent_recordedIn w
  unfold leftBehind relayedIn
  split
  · split
    · rw [World.relayed, World.sent_delivered, World.sent_appended, hrecorded]
      split
      · exact ⟨some _, rfl⟩
      · exact ⟨none, rfl⟩
    · exact ⟨none, hrecorded⟩
  · exact ⟨none, hrecorded⟩

theorem content_recordedIn (h : FileSystem.target w.directory (Path.ofText i.cache) ≠ log) :
    (i.recordedIn w).files.content log = w.files.content log := by
  rw [recordedIn_eq_match]
  cases i.givenId? with
  | none => rfl
  | some id =>
    rw [World.files_replaced, FileSystem.replace, FileSystem.content_write_of_ne h]

theorem content_leftBehind (a : Arguments) (h : FileSystem.target w.directory (Path.ofText i.cache) ≠ log) :
    ∃ line : Option String,
      (i.leftBehind a.command (a.root.getD "") w).files.content log =
        w.files.content log ++ framed (line.toList.map utf8) ∧
      ∀ l ∈ line, ∃ path e, i.logged? a w = some (path, e) ∧ l = e.line := by
  have hrecorded := i.content_recordedIn h
  rw [files_leftBehind]
  cases hlogged : i.logged? a w with
  | none => exact ⟨none, by rw [hrecorded]; exact (List.append_nil _).symm, nofun⟩
  | some logged =>
    obtain ⟨path, e⟩ := logged
    simp only [World.files_appended]
    by_cases hlog : FileSystem.target (i.recordedIn w).directory (Path.ofText path) = log
    · rw [← hlog] at hrecorded ⊢
      rw [FileSystem.content_append, hrecorded]
      split
      · refine ⟨some e.line, ?_, fun l hl => ⟨path, e, rfl, (Option.some.inj hl).symm⟩⟩
        rw [Relay.utf8_line, Option.toList_some, List.map_singleton, framed_cons]
        rfl
      · exact ⟨none, rfl, nofun⟩
    · refine ⟨none, ?_, nofun⟩
      rw [FileSystem.append, FileSystem.content_write_of_ne hlog, hrecorded]
      exact (List.append_nil _).symm

theorem tells_of_logged? {i : Invocation} {a : Arguments} {path : String} {e : Event}
    (h : i.logged? a w = some (path, e)) : a.command.kind? = some e.kind ∧ i.Tells e.kind e.fields := by
  simp only [logged?, Option.bind_eq_bind, Option.bind_eq_some_iff, Option.pure_def, Option.some.injEq,
    Prod.mk.injEq] at h
  obtain ⟨home, -, config, hconfig, e', hevent, -, rfl⟩ := h
  obtain ⟨payload, hpayload, hkind, hmade⟩ := madeFrom_of_event? (World.neat_requiredTeam hconfig) hevent
  exact ⟨hkind, tells_fields hpayload hmade⟩

end Invocation

namespace Visit

open Invocation

/-- The kind of event that a run is about, if it is a lifecycle hook. -/
def kind? (v : Visit) : Option EventKind :=
  match CommandLine.read (v.invocation.environment rootVariable) v.invocation.arguments with
  | .run a => a.command.kind?
  | _ => none

structure Adds (log : Location) (v : Visit) (line : Option String) : Prop where
  content : v.left.files.content log = v.found.files.content log ++ framed (line.toList.map utf8)
  sent : ∃ request : Option String, v.left.sent = request.toList ++ v.found.sent
  quiet : v.kind? = none → line = none ∧ v.left.sent = v.found.sent
  whole : ∀ l ∈ line, '\n' ∉ l.toList
  told : ∀ l ∈ line, ∃ kind members, v.kind? = some kind ∧
    Tree.ofText? l = some (.object (Value.memberTrees members)) ∧ v.invocation.Tells kind members

variable {v : Visit} {log : Location}

theorem adds_nothing (hleft : v.left = v.found) : v.Adds log none := by
  refine ⟨?_, ⟨none, ?_⟩, fun _ => ⟨rfl, ?_⟩, nofun, nofun⟩
  · rw [hleft]
    exact (List.append_nil _).symm
  · rw [hleft]
    rfl
  · rw [hleft]

theorem adds_of_hook {a : Arguments}
    (harguments : CommandLine.read (v.invocation.environment rootVariable) v.invocation.arguments = .run a)
    (hhook : a.command.isHook = true)
    (h : FileSystem.target v.found.directory (Path.ofText v.invocation.cache) ≠ log) : ∃ line, v.Adds log line := by
  have hkind : v.kind? = a.command.kind? := by rw [kind?, harguments]
  have hleft : v.left = v.invocation.leftBehind a.command (a.root.getD "") v.found := run_hook harguments hhook v.found
  obtain ⟨line, hcontent, hline⟩ := v.invocation.content_leftBehind a h
  have htold : ∀ l ∈ line, ∃ e : Event, l = e.line ∧ v.kind? = some e.kind ∧ v.invocation.Tells e.kind e.fields := by
    intro l hl
    obtain ⟨path, e, hlogged, rfl⟩ := hline l hl
    rw [hkind]
    exact ⟨e, rfl, tells_of_logged? hlogged⟩
  refine ⟨line, ?_, ?_, ?_, ?_, ?_⟩
  · rw [hleft, hcontent]
  · rw [hleft]
    exact v.invocation.sent_leftBehind a.command _ v.found
  · -- A hook that is about no event is the gate, and a line would be about one.
    intro hnone
    constructor
    · rw [Option.eq_none_iff_forall_ne_some]
      intro l hl
      obtain ⟨e, -, hsome, -⟩ := htold l hl
      rw [hnone] at hsome
      cases hsome
    · rw [hleft, Command.eq_gate hhook (hkind.symm.trans hnone), leftBehind_gate, sent_recordedIn]
  · intro l hl
    obtain ⟨e, rfl, -⟩ := htold l hl
    exact e.newline_not_mem_line
  · intro l hl
    obtain ⟨e, rfl, hsome, htells⟩ := htold l hl
    exact ⟨e.kind, e.fields, hsome, e.tree_line, htells⟩

/-- Whatever a run is given, it adds at most one line to a log that is not its session cache. -/
theorem exists_adds (v : Visit) (h : FileSystem.target v.found.directory (Path.ofText v.invocation.cache) ≠ log) :
    ∃ line, v.Adds log line := by
  cases harguments : CommandLine.read (v.invocation.environment rootVariable) v.invocation.arguments with
  | run a =>
    by_cases hhook : a.command.isHook = true
    · exact adds_of_hook harguments hhook h
    · refine ⟨none, adds_nothing ?_⟩
      rw [left, run]
      simp only [harguments, perform]
      cases hcommand : a.command with
      | showSession explicit => simp only [run_showSession]
      | _ =>
        rw [hcommand] at hhook
        exact absurd rfl hhook
  | _ =>
    refine ⟨none, adds_nothing ?_⟩
    rw [left, run]
    simp only [harguments]
    rfl

end Visit

/-- Runs one after another, from one machine to another. What happens between them leaves the log as it is. -/
inductive Trail (log : Location) : World → List Visit → World → Prop
  | nil {w w'} : w'.files.content log = w.files.content log → Trail log w [] w'
  | cons {w v visits w'} : v.found.files.content log = w.files.content log →
      FileSystem.target v.found.directory (Path.ofText v.invocation.cache) ≠ log →
      Trail log v.left visits w' → Trail log w (v :: visits) w'

namespace Trail

/-- Over any runs, a log grows by the lines that the runs add, at most one for each of them and none but from a
lifecycle hook, and each line tells of the input of the run that added it. -/
theorem lines_tell {log : Location} {w w' : World} {visits : List Visit} (h : Trail log w visits w') :
    ∃ lines : List (Option String), List.Forall₂ (Visit.Adds log) visits lines ∧
      w'.files.content log = w.files.content log ++ framed ((lines.flatMap Option.toList).map utf8) := by
  induction h with
  | nil hsame => exact ⟨[], .nil, by rw [hsame]; exact (List.append_nil _).symm⟩
  | @cons w v visits w' hsame hcache _ ih =>
    obtain ⟨line, hline⟩ := v.exists_adds hcache
    obtain ⟨lines, hlines, hcontent⟩ := ih
    refine ⟨line :: lines, .cons hline hlines, ?_⟩
    rw [hcontent, hline.content, hsame, List.flatMap_cons, List.map_append, framed_append, List.append_assoc]

def homeLog : Location := ["h", ".claude", "daemon", "hooks", "events.jsonl"]

def visiting (found : World) (command : String) : Visit :=
  ⟨found, { Invocation.ending Invocation.endedInput with arguments := ["--root", "/p", command] }⟩

def endedLine : String :=
  "\x7b\"event\":\"session_end\",\"session_id\":\"s\",\"agent\":\"a\",\"team\":\"t\"," ++
    "\"received_at\":\"2024-01-02T00:00:00Z\",\"reason\":\"session_exit\"," ++
    "\"payload\":\x7b\"session_id\":\" s \"\x7d\x7d\n"

/-- The project once the end of a session has been logged. -/
def logged : World :=
  { Invocation.orchestrated with files := Invocation.orchestrated.files.set homeLog (.file endedLine.toUTF8) }

def asked : Visit := visiting Invocation.orchestrated "gate"

def ended : Visit := visiting Invocation.orchestrated "session-end"

def started : Visit := visiting logged "session-start"

/-- A gate, which adds nothing, and two lifecycle hooks, each of which adds its line. -/
theorem lines_tell_ended :
    Trail homeLog Invocation.orchestrated [asked, ended, started] started.left ∧ ∃ first second members members',
      started.left.files.content homeLog = framed [utf8 first, utf8 second] ∧
      Tree.ofText? first = some (.object (Value.memberTrees members)) ∧
      Members.get? "reason" members = some (.string "session_exit") ∧
      Tree.ofText? second = some (.object (Value.memberTrees members')) ∧ Members.get? "reason" members' = none := by
  have htrail : Trail homeLog Invocation.orchestrated [asked, ended, started] started.left := by
    refine .cons rfl ?_ (.cons ?_ ?_ (.cons ?_ ?_ (.nil rfl)))
    all_goals decide +kernel
  have hempty : Invocation.orchestrated.files.content homeLog = [] := by decide +kernel
  have hended : ended.left.files.content homeLog ≠ ended.found.files.content homeLog := by decide +kernel
  have hstarted : started.left.files.content homeLog ≠ started.found.files.content homeLog := by decide +kernel
  obtain ⟨lines, hlines, hcontent⟩ := htrail.lines_tell
  obtain ⟨gated, hooked, hgated, hhooked, rfl⟩ := List.forall₂_cons_left_iff.mp hlines
  obtain ⟨first, last, hfirst, hlast, rfl⟩ := List.forall₂_cons_left_iff.mp hhooked
  obtain ⟨second, rest, hsecond, hrest, rfl⟩ := List.forall₂_cons_left_iff.mp hlast
  obtain rfl := List.forall₂_nil_left_iff.mp hrest
  obtain rfl := (hgated.quiet (by decide +kernel)).1
  rw [hempty] at hcontent
  cases first with
  | none => exact absurd (hfirst.content.trans (List.append_nil _)) hended
  | some first =>
    cases second with
    | none => exact absurd (hsecond.content.trans (List.append_nil _)) hstarted
    | some second =>
      obtain ⟨kind, members, hkind, htree, htells⟩ := hfirst.told first rfl
      obtain ⟨kind', members', hkind', htree', htells'⟩ := hsecond.told second rfl
      have hending : ended.kind? = some .sessionEnd := by decide +kernel
      have hstarting : started.kind? = some .sessionStart := by decide +kernel
      obtain rfl := Option.some.inj (hending.symm.trans hkind)
      obtain rfl := Option.some.inj (hstarting.symm.trans hkind')
      exact ⟨htrail, first, second, members, members', hcontent, htree, htells.reason, htree', htells'.reason⟩

end Trail

end SpawnGate
