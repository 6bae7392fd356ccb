import SpawnGate.Proofs.Lifecycle.Log
import SpawnGate.Proofs.Places
import SpawnGate.Proofs.Settling
import SpawnGate.Proofs.Spawn.Gate

/-!
The machines that hooks of one project can leave behind. Whatever the hooks are, a machine is in one of three stages: as
it was, once an id was recorded, or once an event was logged. Within a stage only the bytes of the session cache and of
the log differ, and the marker and the registry read the same in all three.
-/

namespace SpawnGate

open FileSystem Lines

theorem World.text?_appended_of_readable {w : World} {path other : String} (bytes : ByteArray)
    (hne : target w.directory (Path.ofText other) ≠ target w.directory (Path.ofText path))
    (hread : w.text? other ≠ none) : (w.appended path bytes).text? other = w.text? other := by
  obtain ⟨text, htext⟩ := Option.ne_none_iff_exists'.mp hread
  obtain ⟨old, hold, hutf8⟩ := Option.bind_eq_some_iff.mp htext
  have hstill : (w.files.append w.directory (Path.ofText path) bytes).1.read? w.directory (Path.ofText other) = some old :=
    read?_write_of_read? rfl hne hold
  rw [htext, World.text?, World.files_appended, World.directory_appended, hstill, Option.bind_some, hutf8]

theorem World.text?_eq_of_alike {w w' : World} {places : List Location} (h : Alike places w.files w'.files)
    (hdirectory : w.directory = w'.directory) {path : String}
    (hpath : target w'.directory (Path.ofText path) ∉ places) : w.text? path = w'.text? path := by
  rw [World.text?, World.text?, hdirectory, h.read?_eq hpath]

/-- Writing at a path makes a directory that was missing and that another path enters and leaves again. -/
def World.Opens (w : World) (path other : String) : Prop :=
  ∃ d ∈ parentWay w.directory (Path.ofText path), d ∈ parentWay w.directory (Path.ofText other) ∧
    w.files.find? d = none ∧ ¬ d <+: target w.directory (Path.ofText other)

theorem World.not_aliases {w : World} {path other : String}
    (hne : target w.directory (Path.ofText path) ≠ target w.directory (Path.ofText other))
    (hopens : ¬ w.Opens path other) : ¬ w.Aliases path other := by
  rintro (heq | hopen)
  · exact hne heq
  · exact hopens hopen

/-- How far hooks have come with a machine. -/
inductive Stage where
  | found
  | recorded
  | logged
deriving DecidableEq, Repr

namespace Stage

def later : Stage → Stage → Stage
  | found, n => n
  | n, found => n
  | recorded, recorded => recorded
  | _, _ => logged

theorem later_assoc (k m n : Stage) : (k.later m).later n = k.later (m.later n) := by
  cases k <;> cases m <;> cases n <;> rfl

theorem later_comm (m n : Stage) : m.later n = n.later m := by
  cases m <;> cases n <;> rfl

theorem later_found (n : Stage) : n.later found = n := by
  cases n <;> rfl

theorem later_recorded_ne_found (n : Stage) : n.later recorded ≠ found := by
  cases n <;> nofun

theorem later_logged (n : Stage) : n.later logged = logged := by
  cases n <;> rfl

end Stage

structure Setting where
  home : String
  root : String
  cache : String

namespace Setting

def log (s : Setting) : String := Locations.eventLog s.home

/-- The session cache lies outside the home's own directory and is not the marker. -/
structure Outside (s : Setting) (w : World) : Prop where
  grounded : w.Grounded
  claude : ¬ target w.directory (Path.ofText (Path.join s.home ".claude")) <+:
    target w.directory (Path.ofText s.cache)
  marker_ne : target w.directory (Path.ofText s.cache) ≠ target w.directory (Path.ofText (Locations.marker s.root))

/-- Besides, neither recording nor logging brings the marker or a registry file within reach. -/
structure Apart (s : Setting) (w : World) : Prop extends s.Outside w where
  marker : ¬ w.Opens s.cache (Locations.marker s.root)
  registry : ∀ team, Locations.isTeamName team = true →
    ¬ w.Opens s.cache (Locations.teamConfig s.home team) ∧ ¬ w.Opens s.log (Locations.teamConfig s.home team)

def staged (s : Setting) (w : World) : Stage → World
  | .found => w
  | .recorded => w.replaced s.cache .empty
  | .logged => (w.replaced s.cache .empty).appended s.log .empty

/-- The places whose bytes differ within a stage. -/
def loose (s : Setting) (w : World) : List Location :=
  [target w.directory (Path.ofText s.cache), target w.directory (Path.ofText s.log)]

def logPlace (s : Setting) (w : World) : Location := target w.directory (Path.ofText s.log)

/-- Once an id was recorded, an event can be logged. -/
def Writable (s : Setting) (w : World) : Prop :=
  ((s.staged w .recorded).files.append w.directory (Path.ofText s.log) .empty).2 = true

/-- Once an event was logged, something listens to the daemon's socket. -/
def Heard (s : Setting) (w : World) : Prop :=
  (s.staged w .logged).Hears (Locations.daemonSocket s.home)

instance (s : Setting) (w : World) : Decidable (s.Writable w) := by
  unfold Writable; infer_instance

instance (s : Setting) (w : World) : Decidable (s.Heard w) := by
  unfold Heard; infer_instance

/-- A machine in a stage, but for the bytes of the session cache and the log. -/
structure Reached (s : Setting) (w : World) (n : Stage) (w' : World) : Prop where
  directory : w'.directory = w.directory
  files : Alike (s.loose w) w'.files (s.staged w n).files
  marked : n = .logged → w.config? s.root ≠ none

variable {s : Setting} {w w' : World} {n : Stage}

theorem directory_staged (s : Setting) (w : World) (n : Stage) : (s.staged w n).directory = w.directory := by
  cases n with
  | found => rfl
  | recorded => rw [staged, World.directory_replaced]
  | logged => rw [staged, World.directory_appended, World.directory_replaced]

theorem cache_ne_log (h : s.Outside w) :
    target w.directory (Path.ofText s.cache) ≠ target w.directory (Path.ofText s.log) := by
  intro heq
  have hinside := claude_prefix_target_eventLog w.directory s.home
  rw [log] at heq
  rw [← heq] at hinside
  exact h.claude hinside

theorem cache_ne_teamConfig (h : s.Outside w) {team : String} (hteam : Locations.isTeamName team = true) :
    target w.directory (Path.ofText s.cache) ≠
      target w.directory (Path.ofText (Locations.teamConfig s.home team)) := by
  intro heq
  have hinside := claude_prefix_target_teamConfig w.directory s.home hteam
  rw [← heq] at hinside
  exact h.claude hinside

theorem log_ne_marker (s : Setting) (w : World) :
    target w.directory (Path.ofText s.log) ≠ target w.directory (Path.ofText (Locations.marker s.root)) := by
  intro heq
  have hlast := congrArg List.getLast? heq
  rw [log, target_marker, target_eventLog] at hlast
  simp at hlast

theorem log_ne_teamConfig (s : Setting) (w : World) {team : String} (hteam : Locations.isTeamName team = true) :
    target w.directory (Path.ofText s.log) ≠ target w.directory (Path.ofText (Locations.teamConfig s.home team)) := by
  intro heq
  have hlast := congrArg List.getLast? heq
  rw [log, target_teamConfig _ _ hteam, target_eventLog] at hlast
  simp at hlast

theorem not_mem_loose {l : Location} (hcache : target w.directory (Path.ofText s.cache) ≠ l)
    (hlog : target w.directory (Path.ofText s.log) ≠ l) : l ∉ s.loose w := by
  simp only [loose, List.mem_cons, List.not_mem_nil, or_false, not_or]
  exact ⟨Ne.symm hcache, Ne.symm hlog⟩

theorem isTree_replaced (h : s.Apart w) : (w.replaced s.cache .empty).files.IsTree := by
  rw [World.files_replaced]
  exact write_isTree h.grounded.1 h.grounded.2 _ rfl

/-- A marker that can be read is still read once an event was logged, and recording does not make one readable. -/
theorem config?_staged (h : s.Apart w) (hmarked : n = .logged → w.config? s.root ≠ none) :
    (s.staged w n).config? s.root = w.config? s.root := by
  have hrecorded := World.text?_replaced h.grounded.1 .empty (World.not_aliases h.marker_ne h.marker)
  rw [World.config?, World.config?]
  cases n with
  | found => rfl
  | recorded => rw [staged, hrecorded]
  | logged =>
    -- The log may open the way to a marker, but an event is logged only where one was read before.
    have hread : w.text? (Locations.marker s.root) ≠ none := by
      intro hnone
      apply hmarked rfl
      rw [World.config?, hnone, Option.bind_none]
    have hne := (log_ne_marker s w).symm
    rw [← World.directory_replaced w s.cache .empty] at hne
    rw [← hrecorded] at hread
    rw [staged, World.text?_appended_of_readable .empty hne hread, hrecorded]

theorem teamText?_staged (h : s.Apart w) {team : String} (hteam : Locations.isTeamName team = true) (n : Stage) :
    (s.staged w n).text? (Locations.teamConfig s.home team) = w.text? (Locations.teamConfig s.home team) := by
  obtain ⟨hcache, hlog⟩ := h.registry team hteam
  have hrecorded := World.text?_replaced h.grounded.1 .empty
    (World.not_aliases (cache_ne_teamConfig h.toOutside hteam) hcache)
  cases n with
  | found => rfl
  | recorded => rw [staged, hrecorded]
  | logged =>
    have hlater : ¬ (w.replaced s.cache .empty).Aliases s.log (Locations.teamConfig s.home team) := by
      rw [World.Aliases, World.directory_replaced, World.files_replaced]
      exact not_aliases_write (World.not_aliases (log_ne_teamConfig s w hteam) hlog) rfl
    rw [staged, World.text?_appended (isTree_replaced h) .empty hlater, hrecorded]

namespace Reached

theorem found (s : Setting) (w : World) : s.Reached w .found w :=
  ⟨rfl, .refl _ _, nofun⟩

theorem config?_eq (hr : s.Reached w n w') (h : s.Apart w) : w'.config? s.root = w.config? s.root := by
  have hdirectory : w'.directory = (s.staged w n).directory := by rw [hr.directory, directory_staged]
  have hplace := not_mem_loose h.marker_ne (log_ne_marker s w)
  rw [← directory_staged s w n] at hplace
  rw [← config?_staged h hr.marked, World.config?, World.config?, World.text?_eq_of_alike hr.files hdirectory hplace]

theorem leadIn_eq (hr : s.Reached w n w') (h : s.Apart w) {i : Invocation}
    (hhome : i.home = .ok s.home) : i.leadIn w' = i.leadIn w := by
  have hdirectory : w'.directory = (s.staged w n).directory := by rw [hr.directory, directory_staged]
  funext team
  simp only [Invocation.leadIn, hhome]
  cases hname : (Text.usable team).filter Locations.isTeamName with
  | none => rfl
  | some name =>
    have hteam := (Option.filter_eq_some_iff.mp hname).2
    have hplace := not_mem_loose (cache_ne_teamConfig h.toOutside hteam) (log_ne_teamConfig s w hteam)
    rw [← directory_staged s w n] at hplace
    rw [Option.bind_some, Option.bind_some, World.text?_eq_of_alike hr.files hdirectory hplace, teamText?_staged h hteam]

theorem hears_iff (hr : s.Reached w n w') (path : String) : w'.Hears path ↔ (s.staged w n).Hears path := by
  rw [World.Hears, World.Hears, hr.directory, directory_staged, hr.files.differ.entry?_socket_iff]

end Reached

theorem cache_mem_loose (s : Setting) (w : World) : target w.directory (Path.ofText s.cache) ∈ s.loose w :=
  List.mem_cons_self

theorem log_mem_loose (s : Setting) (w : World) : target w.directory (Path.ofText s.log) ∈ s.loose w :=
  List.mem_cons_of_mem _ (List.mem_singleton_self _)

theorem replaced_staged (hn : n ≠ .found) :
    Alike (s.loose w) ((s.staged w n).files.replace w.directory (Path.ofText s.cache) .empty).1 (s.staged w n).files := by
  have hagain {fs' : FileSystem}
      (h : Extends (w.files.replace w.directory (Path.ofText s.cache) .empty).1 fs') :
      Alike (s.loose w) (fs'.replace w.directory (Path.ofText s.cache) .empty).1 fs' :=
    ((write_again (uniform_replacement _ .empty .empty) h).2.of_mem (cache_mem_loose s w)).symm
  cases n with
  | found => exact absurd rfl hn
  | recorded =>
    rw [staged, World.files_replaced]
    exact hagain (.refl _)
  | logged =>
    rw [staged, World.files_appended, World.directory_replaced, World.files_replaced]
    exact hagain (.of_append _ _ _ _)

namespace Reached

/-- Recording an id leads to the second stage, or leaves the machine in a later one. -/
theorem replaced (hr : s.Reached w n w') (bytes : ByteArray) :
    s.Reached w (n.later .recorded) (w'.replaced s.cache bytes) := by
  have huniform := uniform_replacement (hasRoom w.directory (Path.ofText s.cache)) bytes .empty
  have hfiles := (hr.files.write huniform (cache_mem_loose s w)).2
  refine ⟨?_, ?_, fun hlogged => hr.marked ?_⟩
  · rw [World.directory_replaced, hr.directory]
  · rw [World.files_replaced, hr.directory]
    cases n with
    | found =>
      rw [Stage.later, staged, World.files_replaced]
      exact hfiles
    | recorded => exact hfiles.trans (replaced_staged nofun)
    | logged => exact hfiles.trans (replaced_staged nofun)
  · cases n with
    | logged => rfl
    | _ => cases hlogged

/-- Logging once an id was recorded leads to the last stage. Whether it comes off does not depend on what was logged
before. -/
theorem appended (hr : s.Reached w n w') (hn : n ≠ .found) (hmarked : w.config? s.root ≠ none) (bytes : ByteArray) :
    s.Reached w .logged (w'.appended s.log bytes) ∧
      (w'.files.append w'.directory (Path.ofText s.log) bytes).2 =
        ((s.staged w .recorded).files.append w.directory (Path.ofText s.log) .empty).2 := by
  obtain ⟨hsame, hfiles⟩ := hr.files.write (uniform_extension bytes .empty) (log_mem_loose s w)
  have hlogged : (s.staged w .logged).files =
      ((s.staged w .recorded).files.append w.directory (Path.ofText s.log) .empty).1 := by
    have hstage : s.staged w .logged = (s.staged w .recorded).appended s.log .empty := rfl
    rw [hstage, World.files_appended, directory_staged]
  obtain ⟨hagain, hback⟩ := write_again (uniform_extension .empty .empty)
    (.refl ((s.staged w .recorded).files.append w.directory (Path.ofText s.log) .empty).1)
  rw [FileSystem.append, hr.directory]
  refine ⟨⟨?_, ?_, fun _ => hmarked⟩, ?_⟩
  · rw [World.directory_appended, hr.directory]
  · rw [World.files_appended, hr.directory]
    cases n with
    | found => exact absurd rfl hn
    | recorded =>
      rw [hlogged]
      exact hfiles
    | logged =>
      rw [hlogged] at hfiles ⊢
      exact hfiles.trans (hback.of_mem (log_mem_loose s w)).symm
  · cases n with
    | found => exact absurd rfl hn
    | recorded => exact hsame
    | logged =>
      rw [hlogged] at hsame
      exact hsame.trans hagain

theorem delivered (hr : s.Reached w n w') (path line : String) : s.Reached w n (w'.delivered path line) := by
  refine ⟨?_, ?_, hr.marked⟩
  · rw [World.directory_delivered, hr.directory]
  · rw [World.files_delivered]
    exact hr.files

/-- An event is logged and sent at every later stage as at the first. -/
theorem relayed (hr : s.Reached w n w') (hn : n ≠ .found) (hmarked : w.config? s.root ≠ none) (e : Event)
    (requestId : String) :
    s.Reached w .logged (w'.relayed s.home e requestId) ∧
      (w'.relayed s.home e requestId).files.content (s.logPlace w) = w'.files.content (s.logPlace w) ++
        (if s.Writable w then utf8 e.line ++ [newline] else []) ∧
      (w'.relayed s.home e requestId).sent =
        (if s.Heard w then [(DaemonRequest.hookEvent e requestId).line] else []) ++ w'.sent := by
  obtain ⟨hlogged, hdone⟩ := hr.appended hn hmarked (e.line ++ "\n").toUTF8
  refine ⟨hlogged.delivered _ _, ?_, ?_⟩
  · have hplace : s.logPlace w = target w'.directory (Path.ofText s.log) := by rw [logPlace, hr.directory]
    rw [hplace, World.relayed, World.files_delivered, World.files_appended, ← log, content_append, hdone, Relay.utf8_line]
    rfl
  · have hears := hlogged.hears_iff (Locations.daemonSocket s.home)
    rw [World.relayed, World.sent_delivered, World.sent_appended, ← log]
    simp only [hears, Heard]

theorem find?_eq {w'' : World} (hr : s.Reached w n w') (hr' : s.Reached w n w'') {l : Location} (hl : l ∉ s.loose w) :
    w'.files.find? l = w''.files.find? l :=
  (hr.files.find?_eq hl).trans (hr'.files.find?_eq hl).symm

end Reached

end Setting

end SpawnGate
