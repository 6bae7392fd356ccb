import SpawnGate.World
import SpawnGate.Invocation
import SpawnGate.Proofs.Files

/-!
What the parts of a run do to a machine that is plain data.
-/

namespace SpawnGate

namespace World

variable {α β : Type}

/-- The text of a file. -/
def text? (w : World) (path : String) : Option String :=
  (w.files.read? w.directory (Path.ofText path)).bind String.fromUTF8?

def replaced (w : World) (path : String) (bytes : ByteArray) : World :=
  { w with files := (w.files.replace w.directory (Path.ofText path) bytes).1 }

/-- The machine after an id was recorded. -/
def recorded (w : World) (cache id : String) : World :=
  match Text.usable id with
  | some id => w.replaced cache id.toUTF8
  | none => w

def appended (w : World) (path : String) (bytes : ByteArray) : World :=
  { w with files := (w.files.append w.directory (Path.ofText path) bytes).1 }

theorem files_replaced (w : World) (path : String) (bytes : ByteArray) :
    (w.replaced path bytes).files = (w.files.replace w.directory (Path.ofText path) bytes).1 := by
  simp only [replaced]

theorem directory_replaced (w : World) (path : String) (bytes : ByteArray) :
    (w.replaced path bytes).directory = w.directory := by
  simp only [replaced]

theorem sent_replaced (w : World) (path : String) (bytes : ByteArray) : (w.replaced path bytes).sent = w.sent := by
  simp only [replaced]

theorem directory_recorded (w : World) (cache id : String) : (w.recorded cache id).directory = w.directory := by
  unfold recorded
  split
  · exact directory_replaced w cache _
  · rfl

theorem files_appended (w : World) (path : String) (bytes : ByteArray) :
    (w.appended path bytes).files = (w.files.append w.directory (Path.ofText path) bytes).1 := by
  simp only [appended]

theorem directory_appended (w : World) (path : String) (bytes : ByteArray) :
    (w.appended path bytes).directory = w.directory := by
  simp only [appended]

theorem sent_appended (w : World) (path : String) (bytes : ByteArray) : (w.appended path bytes).sent = w.sent := by
  simp only [appended]

def delivered (w : World) (path line : String) : World :=
  ((send path line).run w).2

/-- The machine after an event was logged and sent. -/
def relayed (w : World) (home : String) (e : Event) (requestId : String) : World :=
  (w.appended (Locations.eventLog home) (e.line ++ "\n").toUTF8).delivered (Locations.daemonSocket home)
    (DaemonRequest.hookEvent e requestId).line

/-- The config of a project whose marker is read now. -/
def config? (w : World) (root : String) : Option ProjectConfig :=
  (w.text? (Locations.marker root)).bind ProjectConfig.ofText?

/-- A directory tree with the working directory in it. -/
def Grounded (w : World) : Prop :=
  w.files.IsTree ∧ w.files.find? w.directory = some .directory

def Aliases (w : World) (path other : String) : Prop :=
  w.files.Aliases w.directory (Path.ofText path) (Path.ofText other)

instance (w : World) (path other : String) : Decidable (w.Aliases path other) := by
  unfold Aliases; infer_instance

theorem fromUTF8?_toUTF8 (s : String) : String.fromUTF8? s.toUTF8 = some s := by
  unfold String.fromUTF8?
  split
  · rfl
  · rename_i h
    exact absurd s.isValidUTF8 (by simpa using h)

theorem text?_of_read? {w : World} {path s : String}
    (h : w.files.read? w.directory (Path.ofText path) = some s.toUTF8) : w.text? path = some s := by
  rw [text?, h, Option.bind_some, fromUTF8?_toUTF8]

theorem run_pure (x : α) (w : World) : (pure x : Run α).run w = (x, w) := rfl

theorem run_bind (x : Run α) (f : α → Run β) (w : World) :
    (x >>= f).run w = (f (x.run w).1).run (x.run w).2 := rfl

theorem run_readText (path : String) (w : World) :
    (Host.readText path : Run (Option String)).run w = (w.text? path, w) := rfl

theorem run_store (op : FileSystem → Location → Path → ByteArray → FileSystem × Bool) (path : String)
    (bytes : ByteArray) (w : World) :
    (store op path bytes).run w = ((op w.files w.directory (Path.ofText path) bytes).2,
      { w with files := (op w.files w.directory (Path.ofText path) bytes).1 }) := rfl

theorem run_replaceFile (path : String) (bytes : ByteArray) (w : World) :
    (Host.replaceFile path bytes : Run Bool).run w =
      ((w.files.replace w.directory (Path.ofText path) bytes).2, w.replaced path bytes) :=
  run_store FileSystem.replace path bytes w

theorem run_appendFile (path : String) (bytes : ByteArray) (w : World) :
    (Host.appendFile path bytes : Run Bool).run w =
      ((w.files.append w.directory (Path.ofText path) bytes).2, w.appended path bytes) :=
  run_store FileSystem.append path bytes w

theorem run_discard (x : Run α) (w : World) : (discard x).run w = ((), (x.run w).2) := rfl

theorem run_forM (x : Option α) (f : α → Run PUnit) (w : World) :
    (x.forM f).run w = match x with
      | some a => (f a).run w
      | none => ((), w) := by
  cases x <;> rfl

theorem run_record (cache id : String) (w : World) :
    (Session.record cache id : Run Unit).run w = ((), w.recorded cache id) := by
  unfold Session.record recorded
  cases Text.usable id with
  | none => rfl
  | some id =>
    simp only
    rw [run_discard, run_replaceFile]

theorem run_probe (root : String) (w : World) :
    (ProjectConfig.probe root : Run (Option ProjectConfig)).run w = (w.config? root, w) := rfl

theorem run_emit (home : String) (config : ProjectConfig) (e : Event) (requestId : String) (w : World) :
    ((Relay.emit home (some config) e requestId : Run (Option RelayReport)).run w).2 =
      w.relayed home e requestId := by
  unfold Relay.emit
  simp only [run_bind, Relay.log, Host.appendLine, run_appendFile]
  rfl

theorem run_exchange (path line : String) (w : World) :
    (Client.exchange path line : Run (Except Failure Unit)).run w =
      if w.Hears path then (.ok (), { w with sent := line :: w.sent }) else (.error .disconnected, w) := by
  have hconnect : (Sockets.connect path Client.timeout : Run (Attempt (Sockets.Stream Run))).run w =
      (if w.Hears path then .done () else .failed, w) := rfl
  unfold Client.exchange
  rw [run_bind]
  by_cases hears : w.Hears path
  · rw [if_pos hears] at hconnect ⊢
    rw [hconnect]
    rfl
  · rw [if_neg hears] at hconnect ⊢
    rw [hconnect]
    rfl

theorem run_send (path line : String) (w : World) :
    (send path line).run w = match w.files.entry? w.directory (Path.ofText path) with
      | none => (.notRunning, w)
      | some .socket =>
        if addressLimit ≤ path.utf8ByteSize then (.dropped, w)
        else (.sent, { w with sent := line :: w.sent })
      | some _ => (.dropped, w) := by
  have hpresent : (Sockets.isPresent path : Run Bool).run w =
      (Option.isSome <| w.files.entry? w.directory (Path.ofText path), w) := rfl
  have hprepare : (Sockets.prepare : Run Bool).run w = (true, w) := rfl
  unfold send Client.request Client.deliver
  simp only [run_bind, hpresent]
  cases hentry : w.files.entry? w.directory (Path.ofText path) with
  | none => rfl
  | some e =>
    simp only [Option.isSome_some, if_true, run_bind, hprepare, hpresent, hentry, run_exchange]
    cases e with
    | socket =>
      by_cases hlong : addressLimit ≤ path.utf8ByteSize
      · have hdeaf : ¬ w.Hears path := fun hears => Nat.not_lt.mpr hlong hears.2
        rw [if_neg hdeaf, if_pos hlong]
        rfl
      · have hears : w.Hears path := ⟨hentry, Nat.lt_of_not_le hlong⟩
        rw [if_pos hears, if_neg hlong]
        rfl
    | _ =>
      have hdeaf : ¬ w.Hears path := fun hears => by simp [Hears, hentry] at hears
      rw [if_neg hdeaf]
      rfl

theorem files_delivered (w : World) (path line : String) : (w.delivered path line).files = w.files := by
  rw [delivered, run_send]
  split
  · rfl
  · split <;> rfl
  · rfl

theorem directory_delivered (w : World) (path line : String) : (w.delivered path line).directory = w.directory := by
  rw [delivered, run_send]
  split
  · rfl
  · split <;> rfl
  · rfl

theorem sent_delivered (w : World) (path line : String) :
    (w.delivered path line).sent = (if w.Hears path then [line] else []) ++ w.sent := by
  rw [delivered, run_send]
  split
  · rename_i hnone
    have hdeaf : ¬ w.Hears path := fun hears => by simpa [hnone] using hears.1
    rw [if_neg hdeaf]
    rfl
  · rename_i hsocket
    split
    · rename_i hlong
      have hdeaf : ¬ w.Hears path := fun hears => Nat.not_lt.mpr hlong hears.2
      rw [if_neg hdeaf]
      rfl
    · rename_i hshort
      have hears : w.Hears path := ⟨hsocket, Nat.lt_of_not_le hshort⟩
      rw [if_pos hears]
      rfl
  · rename_i e hne hother
    have hdeaf : ¬ w.Hears path := fun hears => hne (Option.some.inj (hother.symm.trans hears.1))
    rw [if_neg hdeaf]
    rfl

theorem run_lead? (home team : String) (w : World) :
    (Registry.lead? home team : Run (Option String)).run w =
      (((Text.usable team).filter Locations.isTeamName).bind fun team =>
        (w.text? (Locations.teamConfig home team)).bind fun text =>
          (Registry.leadOfEntry team text).toOption, w) := by
  unfold Registry.lead?
  cases (Text.usable team).filter Locations.isTeamName with
  | none => rfl
  | some team =>
    simp only [run_bind, run_pure, Registry.readLead, run_readText, Option.bind_some]
    cases w.text? (Locations.teamConfig home team) <;> rfl

/-- Replacing a file changes nothing that is read at a path which it does not alias. -/
theorem text?_replaced {w : World} (hw : w.files.IsTree) {path other : String} (bytes : ByteArray)
    (h : ¬ w.Aliases path other) : (w.replaced path bytes).text? other = w.text? other := by
  unfold text? replaced FileSystem.replace
  simp only
  rw [FileSystem.read?_write hw rfl h]

theorem text?_appended {w : World} (hw : w.files.IsTree) {path other : String} (bytes : ByteArray)
    (h : ¬ w.Aliases path other) : (w.appended path bytes).text? other = w.text? other := by
  unfold text? appended FileSystem.append
  simp only
  rw [FileSystem.read?_write hw rfl h]

theorem text?_recorded {w : World} (hw : w.files.IsTree) {cache other : String} (id : String)
    (h : ¬ w.Aliases cache other) : (w.recorded cache id).text? other = w.text? other := by
  unfold recorded
  split
  · exact text?_replaced hw _ h
  · rfl

end World

end SpawnGate
