import SpawnGate.Proofs.Contents
import SpawnGate.Proofs.Json.Inline
import SpawnGate.Proofs.Json.ReadBack
import SpawnGate.Proofs.Lifecycle.Line
import SpawnGate.Proofs.Lines
import SpawnGate.Proofs.Runs
import SpawnGate.Proofs.Writes

/-!
The log as a record of a whole run. Lines are only added to it, one for each event, and from each line
its event is read back as it was.
-/

namespace SpawnGate

open Json Lines

namespace World

/-- The bytes of the file at a path's location, none if there is no file. -/
def contentAt (w : World) (path : String) : List UInt8 :=
  match w.files.find? (FileSystem.target w.directory (Path.ofText path)) with
  | some (.file bytes) => bytes.data.toList
  | _ => []

theorem contentAt_eq_content (w : World) (path : String) :
    w.contentAt path = w.files.content (FileSystem.target w.directory (Path.ofText path)) := rfl

theorem contentAt_appended_eq (w : World) (path : String) (bytes : ByteArray) :
    (w.appended path bytes).contentAt path = w.contentAt path ++
      if (w.files.append w.directory (Path.ofText path) bytes).2 then bytes.data.toList else [] := by
  rw [contentAt_eq_content, directory_appended, files_appended, FileSystem.content_append, contentAt_eq_content]

/-- Something that was added stands after what was there. -/
theorem contentAt_appended {w : World} {path : String} {bytes : ByteArray}
    (h : (w.files.append w.directory (Path.ofText path) bytes).2 = true) :
    (w.appended path bytes).contentAt path = w.contentAt path ++ bytes.data.toList ∧
      (w.appended path bytes).files.read? w.directory (Path.ofText path) =
        some ⟨((w.appended path bytes).contentAt path).toArray⟩ := by
  have hcontent : FileSystem.extension bytes (some .directory) = none := rfl
  obtain ⟨new, -, hat, hread⟩ := FileSystem.read?_of_write hcontent h
  have hnew : (w.appended path bytes).contentAt path = new.data.toList := by
    rw [contentAt_eq_content, directory_appended, files_appended, FileSystem.content, FileSystem.append, hat]
  refine ⟨?_, ?_⟩
  · rw [contentAt_appended_eq, if_pos h]
  · rw [hnew, Array.toArray_toList, files_appended]
    exact hread

end World

namespace Event

/-- An event that its line keeps whole: its payload has no number but integers of 64 bits. -/
structure Lossless (e : Event) : Prop where
  received : e.receivedAt.IsValid
  ordered : e.payload.Ordered
  words : e.payload.AllNumbers Number.IsWord
  room : e.payload.depth ≤ 126

theorem payloadRead_eq {e : Event} (h : e.Lossless) : e.payloadRead = some e.payload := by
  unfold payloadRead loggedPayload
  cases hpayload : e.payload with
  | null => rfl
  | _ =>
    have hread := Value.ofTree?_tree_of_words h.ordered h.words h.room
    rw [hpayload] at hread
    exact hread

theorem ofText?_line_of_lossless {e : Event} (h : e.Lossless) : ofText? e.line = some e := by
  rw [ofText?_line h.received, payloadRead_eq h]
  rfl

theorem newline_not_mem_line (e : Event) : '\n' ∉ e.line.toList :=
  (inline_recordText e.fields).newline_not_mem

def ofBytes? (l : List UInt8) : Option Event :=
  (String.fromUTF8? ⟨l.toArray⟩).bind ofText?

theorem ofBytes?_utf8 (s : String) : ofBytes? (utf8 s) = ofText? s := by
  rw [ofBytes?, utf8, Array.toArray_toList]
  change (String.fromUTF8? s.toUTF8).bind ofText? = _
  rw [World.fromUTF8?_toUTF8, Option.bind_some]

end Event

namespace Relay

/-- What logging a row of events answers, and the machine after it. -/
def logAll (path : String) (events : List Event) (w : World) : List Bool × World :=
  (events.mapM (log path) : World.Run (List Bool)).run w

theorem run_log (path : String) (e : Event) (w : World) :
    (log path e : World.Run Bool).run w =
      ((w.files.append w.directory (Path.ofText path) (e.line ++ "\n").toUTF8).2,
        w.appended path (e.line ++ "\n").toUTF8) :=
  World.run_appendFile path _ w

theorem utf8_line (e : Event) : (e.line ++ "\n").toUTF8.data.toList = utf8 e.line ++ [newline] :=
  utf8_append e.line "\n"

theorem logAll_cons (path : String) (e : Event) (events : List Event) (w : World) :
    logAll path (e :: events) w =
      let w' := w.appended path (e.line ++ "\n").toUTF8
      ((w.files.append w.directory (Path.ofText path) (e.line ++ "\n").toUTF8).2 :: (logAll path events w').1,
        (logAll path events w').2) := by
  rw [logAll, List.mapM_cons, World.run_bind, run_log]
  rfl

/-- One line is added for each event, and nothing else. -/
theorem contentAt_logAll {path : String} {events : List Event} {w : World}
    (h : ∀ done ∈ (logAll path events w).1, done = true) :
    (logAll path events w).2.contentAt path = w.contentAt path ++ framed (events.map fun e => utf8 e.line) := by
  -- Each event finds the log as the events before it left it.
  induction events generalizing w with
  | nil => exact (List.append_nil _).symm
  | cons e events ih =>
    rw [logAll_cons] at h ⊢
    obtain ⟨hfirst, hrest⟩ := List.forall_mem_cons.mp h
    have hadded := (World.contentAt_appended hfirst).1
    rw [utf8_line] at hadded
    simp only
    rw [ih hrest, hadded, List.map_cons, framed_cons, List.append_assoc, List.append_assoc, List.singleton_append]

theorem read?_logAll {path : String} {events : List Event} {w : World} (hne : events ≠ [])
    (h : ∀ done ∈ (logAll path events w).1, done = true) :
    (logAll path events w).2.files.read? w.directory (Path.ofText path) =
      some ⟨((logAll path events w).2.contentAt path).toArray⟩ := by
  induction events generalizing w with
  | nil => exact absurd rfl hne
  | cons e events ih =>
    rw [logAll_cons] at h ⊢
    obtain ⟨hfirst, hrest⟩ := List.forall_mem_cons.mp h
    cases events with
    | nil => exact (World.contentAt_appended hfirst).2
    | cons e' events =>
      have hstep := ih (List.cons_ne_nil e' events) hrest
      rw [World.directory_appended] at hstep
      exact hstep

/-- After a run in which every event was logged, the log has one more line for each event, and from the new lines
the events are read back in their order. -/
theorem log_reads_back (w : World) (path : String) (events : List Event) {old : List (List UInt8)}
    (hold : w.contentAt path = framed old) (hlines : ∀ l ∈ old, newline ∉ l)
    (hevents : ∀ e ∈ events, e.Lossless) (hdone : ∀ done ∈ (logAll path events w).1, done = true) :
    ∃ new, (logAll path events w).2.contentAt path = w.contentAt path ++ framed new ∧
      ((logAll path events w).2.contentAt path).splitOn newline = old ++ new ++ [[]] ∧
      new.length = events.length ∧ new.map Event.ofBytes? = events.map some ∧
      (events ≠ [] → (logAll path events w).2.files.read? w.directory (Path.ofText path) =
        some ⟨((logAll path events w).2.contentAt path).toArray⟩) := by
  have hcontent := contentAt_logAll hdone
  refine ⟨_, hcontent, ?_, ?_, ?_, fun hne => read?_logAll hne hdone⟩
  · rw [hcontent, hold, ← framed_append]
    apply splitOn_framed
    rw [List.forall_mem_append, List.forall_mem_map]
    exact ⟨hlines, fun e _ => newline_not_mem_utf8 e.newline_not_mem_line⟩
  · rw [List.length_map]
  · rw [List.map_map]
    apply List.map_congr_left
    intro e he
    rw [Function.comp_apply, Event.ofBytes?_utf8, Event.ofText?_line_of_lossless (hevents e he)]

def keptLog : World where
  files := ⟨[(["log"], .file "kept\n".toUTF8)]⟩
  directory := []
  sent := []

def startPayload : Value :=
  .object [("key\n", .array [.number (.integer 18446744073709551615), .number (.integer (-1))]),
    ("source", .string "compact")]

def startedAndEnded : List Event :=
  [(Event.sessionStart "s\n" .compact ⟨⟨2024, 1, 2⟩, 0, 0⟩ 7).withPayload startPayload,
    (Event.sessionEnd "s\n" ⟨⟨2024, 1, 2⟩, 1, 0⟩).withIdentity (some "é") none]

theorem lossless_startedAndEnded : ∀ e ∈ startedAndEnded, e.Lossless := by
  have hordered : startPayload.Ordered := by
    refine .object (by decide +kernel) (List.forall_mem_cons.mpr ⟨?_, List.forall_mem_singleton.mpr (.string _)⟩)
    exact .array (List.forall_mem_cons.mpr ⟨.number _, List.forall_mem_singleton.mpr (.number _)⟩)
  have hwords : startPayload.AllNumbers Number.IsWord := by
    refine .object (List.forall_mem_cons.mpr ⟨?_, List.forall_mem_singleton.mpr (.string _)⟩)
    refine .array (List.forall_mem_cons.mpr ⟨.number ?_, List.forall_mem_singleton.mpr (.number ?_)⟩)
    · exact ⟨by decide, by decide⟩
    · exact ⟨by decide, by decide⟩
  refine List.forall_mem_cons.mpr ⟨?_, List.forall_mem_singleton.mpr ?_⟩
  · exact ⟨by decide, hordered, hwords, by decide⟩
  · exact ⟨by decide, .null, .null, by decide⟩

theorem log_reads_back_startedAndEnded :
    keptLog.contentAt "/log" = framed [utf8 "kept"] ∧ (∀ l ∈ [utf8 "kept"], newline ∉ l) ∧
      (∀ e ∈ startedAndEnded, e.Lossless) ∧ (∀ done ∈ (logAll "/log" startedAndEnded keptLog).1, done = true) ∧
      ∃ new, (logAll "/log" startedAndEnded keptLog).2.contentAt "/log" = framed ([utf8 "kept"] ++ new) ∧
        new.map Event.ofBytes? = startedAndEnded.map some := by
  have hold : keptLog.contentAt "/log" = framed [utf8 "kept"] := by decide +kernel
  have hlines : ∀ l ∈ [utf8 "kept"], newline ∉ l := by decide +kernel
  have hdone : ∀ done ∈ (logAll "/log" startedAndEnded keptLog).1, done = true := by decide +kernel
  obtain ⟨new, hnew, -, -, hread, -⟩ := log_reads_back keptLog "/log" startedAndEnded hold hlines
    lossless_startedAndEnded hdone
  rw [hold, ← framed_append] at hnew
  exact ⟨hold, hlines, lossless_startedAndEnded, hdone, new, hnew, hread⟩

end Relay

end SpawnGate
