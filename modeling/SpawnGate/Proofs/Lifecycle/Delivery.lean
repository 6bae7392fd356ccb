import SpawnGate.Proofs.Lifecycle.Log
import SpawnGate.Proofs.Places

/-!
One event against any daemon. The daemon may refuse the client, take its line in pieces, slowly or not at all, and reply
what it likes; what the client reports, what it leaves on disk and what the daemon gets is told here for all of that.
-/

namespace SpawnGate

open Lines

/-- How something ends: after so many milliseconds, with a result or a failure. -/
structure Ending (α : Type) where
  after : Nat
  result : Option α

def Ending.within {α : Type} (limit : Nat) : Option (Ending α) → Attempt α
  | some ⟨after, some a⟩ => if after ≤ limit then .done a else .late
  | some ⟨after, none⟩ => if after ≤ limit then .failed else .late
  | none => .late

theorem Ending.within_eq_done_iff {α : Type} (limit : Nat) (ending : Option (Ending α)) (a : α) :
    within limit ending = .done a ↔ ∃ after ≤ limit, ending = some ⟨after, some a⟩ := by
  cases ending with
  | none => simp [within]
  | some ending =>
    obtain ⟨after, result⟩ := ending
    cases result with
    | none =>
      simp only [within]
      split <;> simp
    | some b =>
      simp only [within]
      split
      · rename_i hle
        simp [hle]
      · rename_i hlt
        simp [hlt]

/-- What a daemon does while a client has to do with it, and whether the client's own machine is ready for that. -/
structure Conduct where
  ready : Bool
  connection : Option (Ending Unit)
  /-- What is taken of a line: after so many milliseconds up to so many bytes, again and again. -/
  takes : List (Nat × Nat)
  /-- How long after that the connection breaks, if ever. -/
  breaks : Option Nat
  reply : Option (Ending ByteArray)

/-- What a client does that others can see. -/
inductive Act where
  | append (path : String)
  | connect (path : String)
  /-- Writes to a connection, of which the daemon takes some bytes. -/
  | write (taken : List UInt8)
  | read (size : Nat)
deriving DecidableEq, Repr

namespace Conduct

/-- What is taken of some bytes within a limit, and what comes of writing them. -/
def pour (breaks : Option Nat) : Nat → List UInt8 → List (Nat × Nat) → List UInt8 × Attempt Unit
  | _, [], _ => ([], .done ())
  | left, _ :: _, [] => ([], Ending.within left (breaks.map (⟨·, none⟩)))
  | left, b :: bytes, (after, size) :: takes =>
    if after ≤ left then
      let more := pour breaks (left - after) ((b :: bytes).drop size) takes
      ((b :: bytes).take size ++ more.1, more.2)
    else ([], .late)

abbrev Noted := StateT (List Act) World.Run

def note (a : Act) : Noted Unit :=
  modify (· ++ [a])

variable (c : Conduct)

@[reducible]
def sockets : Sockets Noted where
  Stream := Unit
  isPresent path := (Sockets.isPresent path : World.Run Bool)
  prepare := return c.ready
  connect path limit := do
    note (.connect path)
    let w ← getThe World
    return if w.Hears path then Ending.within limit c.connection else .failed
  write _ line limit := do
    let poured := pour c.breaks limit (utf8 line) c.takes
    note (.write poured.1)
    return poured.2
  read _ size limit := do
    note (.read size)
    return Ending.within limit (c.reply.map fun r => { r with result := r.result.map (·.extract 0 size) })

@[reducible]
def host : Host Noted where
  readFile path := (Host.readFile path : World.Run (Option ByteArray))
  replaceFile path bytes := (Host.replaceFile path bytes : World.Run Bool)
  appendFile path bytes := do
    note (.append path)
    (Host.appendFile path bytes : World.Run Bool)
  request := @Client.request Noted _ c.sockets

/-- What is reported of an event, what is done for it, and the machine after it. -/
def emit (home : String) (config : Option ProjectConfig) (e : Event) (requestId : String) (w : World) :
    Option RelayReport × List Act × World :=
  let r := ((@Relay.emit Noted _ c.host home config e requestId).run []).run w
  (r.1.1, r.1.2, r.2)

def Accepts : Prop :=
  ∃ after ≤ Client.timeout, c.connection = some ⟨after, some ()⟩

def TakesIn (limit size : Nat) : Prop :=
  ∃ n ≤ c.takes.length, ((c.takes.take n).map Prod.fst).sum ≤ limit ∧ size ≤ ((c.takes.take n).map Prod.snd).sum

/-- The daemon is connected to, and takes a whole line, each in time. -/
def Receives (w : World) (path line : String) : Prop :=
  c.ready = true ∧ w.Hears path ∧ c.Accepts ∧ c.TakesIn Client.timeout (utf8 line).length

theorem within_breaks_ne_done (breaks : Option Nat) (left : Nat) :
    Ending.within left (breaks.map fun after => (⟨after, none⟩ : Ending Unit)) ≠ .done () := by
  rw [Ne, Ending.within_eq_done_iff]
  cases breaks <;> simp

theorem pour_isPrefix (breaks : Option Nat) (left : Nat) (bytes : List UInt8) (takes : List (Nat × Nat)) :
    (pour breaks left bytes takes).1 <+: bytes := by
  induction takes generalizing left bytes with
  | nil =>
    cases bytes with
    | nil => exact List.prefix_rfl
    | cons b bytes => exact List.nil_prefix
  | cons taking takes ih =>
    obtain ⟨after, size⟩ := taking
    cases bytes with
    | nil => exact List.prefix_rfl
    | cons b bytes =>
      rw [pour]
      split
      · have hmore := ih (left - after) ((b :: bytes).drop size)
        rw [← List.prefix_append_right_inj ((b :: bytes).take size), List.take_append_drop] at hmore
        exact hmore
      · exact List.nil_prefix

theorem pour_done_iff (breaks : Option Nat) (left : Nat) (bytes : List UInt8) (takes : List (Nat × Nat)) :
    (pour breaks left bytes takes).2 = .done () ↔ (pour breaks left bytes takes).1 = bytes := by
  induction takes generalizing left bytes with
  | nil =>
    cases bytes with
    | nil => simp [pour]
    | cons b bytes => simpa [pour] using within_breaks_ne_done breaks left
  | cons taking takes ih =>
    obtain ⟨after, size⟩ := taking
    cases bytes with
    | nil => simp [pour]
    | cons b bytes =>
      rw [pour]
      split
      · have hmore := ih (left - after) ((b :: bytes).drop size)
        conv_rhs => rhs; rw [← List.take_append_drop size (b :: bytes)]
        simp only
        rw [hmore, List.append_cancel_left_eq]
      · simp

theorem pour_done_iff_takes (breaks : Option Nat) (left : Nat) (bytes : List UInt8) (takes : List (Nat × Nat)) :
    (pour breaks left bytes takes).2 = .done () ↔
      ∃ n ≤ takes.length, ((takes.take n).map Prod.fst).sum ≤ left ∧
        bytes.length ≤ ((takes.take n).map Prod.snd).sum := by
  induction takes generalizing left bytes with
  | nil =>
    cases bytes with
    | nil => simp [pour]
    | cons b bytes => simpa [pour] using within_breaks_ne_done breaks left
  | cons taking takes ih =>
    obtain ⟨after, size⟩ := taking
    cases bytes with
    | nil => exact iff_of_true (by simp [pour]) ⟨0, Nat.zero_le _, by simp, by simp⟩
    | cons b bytes =>
      rw [pour]
      split
      · rename_i hafter
        simp only
        -- One taking more on the whole line is as good as the rest of them on the rest of it, in the time that is left.
        rw [ih]
        constructor
        · rintro ⟨n, hn, htime, hsize⟩
          refine ⟨n + 1, Nat.succ_le_succ hn, ?_, ?_⟩
          · rw [List.take_succ_cons, List.map_cons, List.sum_cons]
            omega
          · rw [List.take_succ_cons, List.map_cons, List.sum_cons]
            rw [List.length_drop] at hsize
            omega
        · rintro ⟨n, hn, htime, hsize⟩
          cases n with
          | zero => simp at hsize
          | succ n =>
            rw [List.take_succ_cons, List.map_cons, List.sum_cons] at htime hsize
            refine ⟨n, Nat.le_of_succ_le_succ hn, ?_, ?_⟩
            · simp only at htime
              omega
            · rw [List.length_drop]
              omega
      · rename_i hlate
        simp only [reduceCtorEq, false_iff]
        rintro ⟨n, hn, htime, hsize⟩
        cases n with
        | zero => simp at hsize
        | succ n =>
          rw [List.take_succ_cons, List.map_cons, List.sum_cons] at htime
          exact hlate ((Nat.le_add_right _ _).trans htime)

variable {c} {acts : List Act} {w : World} {path line : String}

/-- What a client does to send a line, and what becomes of it. -/
inductive Course (c : Conduct) (w : World) (path line : String) : Delivery → List Act → Prop
  | notRunning : w.files.entry? w.directory (Path.ofText path) = none → Course c w path line .notRunning []
  | notReady {e} : w.files.entry? w.directory (Path.ofText path) = some e → c.ready = false →
      Course c w path line .dropped []
  | notConnected {e} : w.files.entry? w.directory (Path.ofText path) = some e → c.ready = true →
      ¬ (w.Hears path ∧ c.Accepts) → Course c w path line .dropped [.connect path]
  | notTaken {taken} : c.ready = true → w.Hears path → c.Accepts → ¬ c.TakesIn Client.timeout (utf8 line).length →
      taken <+: utf8 line → taken ≠ utf8 line → Course c w path line .dropped [.connect path, .write taken]
  | sent : c.ready = true → w.Hears path → c.Accepts → c.TakesIn Client.timeout (utf8 line).length →
      Course c w path line .sent [.connect path, .write (utf8 line), .read Client.replySize]

theorem run_bind {α β : Type} (x : Noted α) (f : α → Noted β) (acts : List Act) (w : World) :
    ((x >>= f).run acts).run w =
      ((f ((x.run acts).run w).1.1).run ((x.run acts).run w).1.2).run ((x.run acts).run w).2 := rfl

theorem run_note (a : Act) (acts : List Act) (w : World) : ((note a).run acts).run w = (((), acts ++ [a]), w) := rfl

theorem run_lift {α : Type} (x : World.Run α) (acts : List Act) (w : World) :
    ((liftM x : Noted α).run acts).run w = (((x.run w).1, acts), (x.run w).2) := rfl

theorem run_connect (c : Conduct) (path : String) (limit : Nat) (acts : List Act) (w : World) :
    ((@Sockets.connect Noted c.sockets path limit).run acts).run w =
      ((if w.Hears path then Ending.within limit c.connection else .failed, acts ++ [.connect path]), w) := rfl

theorem run_write (c : Conduct) (stream : @Sockets.Stream Noted c.sockets) (line : String) (limit : Nat)
    (acts : List Act) (w : World) :
    ((@Sockets.write Noted c.sockets stream line limit).run acts).run w =
      (((pour c.breaks limit (utf8 line) c.takes).2,
        acts ++ [.write (pour c.breaks limit (utf8 line) c.takes).1]), w) := rfl

theorem discard_read (c : Conduct) (stream : @Sockets.Stream Noted c.sockets) (size limit : Nat) :
    discard (@Sockets.read Noted c.sockets stream size limit) = note (.read size) := rfl

theorem connected_iff (c : Conduct) (w : World) (path : String) :
    (if w.Hears path then Ending.within Client.timeout c.connection else .failed) = .done () ↔
      w.Hears path ∧ c.Accepts := by
  split
  · rename_i hears
    rw [Ending.within_eq_done_iff, Accepts, and_iff_right hears]
  · rename_i hdeaf
    exact iff_of_false nofun fun h => hdeaf h.1

def deliveryOf : Except Failure Unit → Delivery
  | .ok () => .sent
  | .error _ => .dropped

theorem course_of_not_done (line : String) (hready : c.ready = true) (hears : w.Hears path) (haccepts : c.Accepts)
    (h : (pour c.breaks Client.timeout (utf8 line) c.takes).2 ≠ .done ()) :
    Course c w path line .dropped
      ([.connect path] ++ [.write (pour c.breaks Client.timeout (utf8 line) c.takes).1]) := by
  refine .notTaken hready hears haccepts ?_ (pour_isPrefix _ _ _ _) ?_
  · exact fun htakes => h ((pour_done_iff_takes _ _ _ _).mpr htakes)
  · exact fun hall => h ((pour_done_iff _ _ _ _).mpr hall)

theorem run_exchange {e : Entry} (hthere : w.files.entry? w.directory (Path.ofText path) = some e)
    (hready : c.ready = true) (line : String) (acts : List Act) :
    ∃ result new, ((@Client.exchange Noted _ c.sockets path line).run acts).run w = ((result, acts ++ new), w) ∧
      Course c w path line (deliveryOf result) new := by
  have hconnected := connected_iff c w path
  unfold Client.exchange
  rw [run_bind, run_connect]
  cases hattempt : (if w.Hears path then Ending.within Client.timeout c.connection else Attempt.failed) with
  | done stream =>
    obtain ⟨hears, haccepts⟩ := hconnected.mp hattempt
    simp only [Attempt.result]
    rw [run_bind, run_write, discard_read]
    cases hpoured : (pour c.breaks Client.timeout (utf8 line) c.takes).2 with
    | done u =>
      have hall := (pour_done_iff _ _ _ _).mp hpoured
      rw [hall]
      refine ⟨.ok (), [.connect path] ++ [.write (utf8 line)] ++ [.read Client.replySize], ?_, ?_⟩
      · rw [← List.append_assoc, ← List.append_assoc]
        rfl
      · exact .sent hready hears haccepts ((pour_done_iff_takes _ _ _ _).mp hpoured)
    | failed =>
      have hcourse := course_of_not_done line hready hears haccepts (by rw [hpoured]; nofun)
      exact ⟨.error .disconnected, _, by rw [← List.append_assoc]; rfl, hcourse⟩
    | late =>
      have hcourse := course_of_not_done line hready hears haccepts (by rw [hpoured]; nofun)
      exact ⟨.error (.timeout .write), _, by rw [← List.append_assoc]; rfl, hcourse⟩
  | failed =>
    refine ⟨.error .disconnected, [.connect path], rfl, .notConnected hthere hready fun h => ?_⟩
    rw [hconnected.mpr h] at hattempt
    cases hattempt
  | late =>
    refine ⟨.error (.timeout .connect), [.connect path], rfl, .notConnected hthere hready fun h => ?_⟩
    rw [hconnected.mpr h] at hattempt
    cases hattempt

theorem run_request (c : Conduct) (path line : String) (acts : List Act) (w : World) :
    ∃ delivery new, ((@Client.request Noted _ c.sockets path line).run acts).run w = ((delivery, acts ++ new), w) ∧
      Course c w path line delivery new := by
  have hpresent (acts : List Act) : ((@Sockets.isPresent Noted c.sockets path).run acts).run w =
      ((Option.isSome <| w.files.entry? w.directory (Path.ofText path), acts), w) := rfl
  have hprepare : ((@Sockets.prepare Noted c.sockets).run acts).run w = ((c.ready, acts), w) := rfl
  unfold Client.request Client.deliver
  rw [run_bind, hpresent]
  cases hentry : w.files.entry? w.directory (Path.ofText path) with
  | none => exact ⟨.notRunning, [], by rw [List.append_nil]; rfl, .notRunning hentry⟩
  | some e =>
    simp only [Option.isSome_some, if_true]
    rw [run_bind, hprepare]
    cases hready : c.ready with
    | false => exact ⟨.dropped, [], by rw [List.append_nil]; rfl, .notReady hentry hready⟩
    | true =>
      simp only [if_true]
      rw [run_bind, hpresent, hentry]
      simp only [Option.isSome_some, if_true]
      obtain ⟨result, new, hrun, hcourse⟩ := run_exchange hentry hready line acts
      rw [run_bind, hrun]
      refine ⟨deliveryOf result, new, ?_, hcourse⟩
      cases result <;> rfl

namespace Course

variable {delivery : Delivery} {new : List Act} (h : Course c w path line delivery new)
include h

theorem notRunning_iff : delivery = .notRunning ↔ w.files.entry? w.directory (Path.ofText path) = none := by
  cases h with
  | notRunning hnone => exact iff_of_true rfl hnone
  | notReady hentry => exact iff_of_false nofun (by rw [hentry]; nofun)
  | notConnected hentry => exact iff_of_false nofun (by rw [hentry]; nofun)
  | notTaken _ hears => exact iff_of_false nofun (by rw [hears.1]; nofun)
  | sent _ hears => exact iff_of_false nofun (by rw [hears.1]; nofun)

theorem sent_iff : delivery = .sent ↔ c.Receives w path line := by
  cases h with
  | notRunning hnone =>
    refine iff_of_false nofun fun hsent => ?_
    rw [hsent.2.1.1] at hnone
    cases hnone
  | notReady _ hready =>
    refine iff_of_false nofun fun hsent => ?_
    rw [hsent.1] at hready
    cases hready
  | notConnected _ _ hno => exact iff_of_false nofun fun hsent => hno ⟨hsent.2.1, hsent.2.2.1⟩
  | notTaken _ _ _ hno => exact iff_of_false nofun fun hsent => hno hsent.2.2.2
  | sent hready hears haccepts htakes => exact iff_of_true rfl ⟨hready, hears, haccepts, htakes⟩

theorem dropped_iff : delivery = .dropped ↔
    w.files.entry? w.directory (Path.ofText path) ≠ none ∧ ¬ c.Receives w path line := by
  rw [← h.sent_iff, Ne, ← h.notRunning_iff]
  cases delivery <;> simp

theorem acts_of_notRunning (hdelivery : delivery = .notRunning) : new = [] := by
  cases h <;> first | rfl | cases hdelivery

theorem acts_of_sent (hdelivery : delivery = .sent) :
    new = [.connect path, .write (utf8 line), .read Client.replySize] := by
  cases h <;> first | rfl | cases hdelivery

theorem taken {bytes : List UInt8} (hwrite : .write bytes ∈ new) :
    bytes <+: utf8 line ∧ (bytes = utf8 line → delivery = .sent) := by
  cases h with
  | notRunning => cases hwrite
  | notReady => cases hwrite
  | notConnected => simp at hwrite
  | notTaken _ _ _ _ hstart hpart =>
    obtain rfl : bytes = _ := by simpa using hwrite
    exact ⟨hstart, fun hall => absurd hall hpart⟩
  | sent =>
    obtain rfl : bytes = _ := by simpa using hwrite
    exact ⟨List.prefix_rfl, fun _ => rfl⟩

theorem delivery_eq {v : World} {delivery' : Delivery} {new' : List Act} (h' : Course c v path line delivery' new')
    (hsame : v.files.entry? v.directory (Path.ofText path) = w.files.entry? w.directory (Path.ofText path)) :
    delivery' = delivery := by
  have hnone := h.notRunning_iff
  have hsent := h.sent_iff
  have hears : v.Hears path ↔ w.Hears path := by rw [World.Hears, World.Hears, hsame]
  rw [← hsame, ← h'.notRunning_iff] at hnone
  rw [Receives, ← hears, ← Receives, ← h'.sent_iff] at hsent
  cases delivery <;> cases delivery' <;> simp_all

/-- A daemon that accepts and takes the line in time is all that a machine as plain data has. -/
theorem delivery_eq_send (hready : c.ready = true) (haccepts : c.Accepts)
    (htakes : c.TakesIn Client.timeout (utf8 line).length) : delivery = ((World.send path line).run w).1 := by
  rw [World.run_send]
  cases h with
  | notRunning hnone => rw [hnone]
  | notReady _ hunready =>
    rw [hready] at hunready
    cases hunready
  | @notConnected entry hentry _ hno =>
    rw [hentry]
    cases entry with
    | socket =>
      have hlong : World.addressLimit ≤ path.utf8ByteSize :=
        Nat.le_of_not_lt fun hshort => hno ⟨⟨hentry, hshort⟩, haccepts⟩
      rw [if_pos hlong]
    | _ => rfl
  | notTaken _ _ _ hno => exact absurd htakes hno
  | sent _ hears =>
    rw [hears.1]
    simp only [if_neg (Nat.not_le_of_lt hears.2)]

end Course

theorem emit_none (c : Conduct) (home : String) (e : Event) (requestId : String) (w : World) :
    c.emit home none e requestId w = (none, [], w) := rfl

theorem run_appendFile (c : Conduct) (path : String) (bytes : ByteArray) (acts : List Act) (w : World) :
    ((@Host.appendFile Noted c.host path bytes).run acts).run w =
      (((w.files.append w.directory (Path.ofText path) bytes).2, acts ++ [.append path]), w.appended path bytes) := by
  change ((note (.append path) >>= fun _ => liftM (Host.appendFile path bytes : World.Run Bool)).run acts).run w = _
  rw [run_bind, run_note, run_lift, World.run_appendFile]

theorem emit_some (c : Conduct) (home : String) (config : ProjectConfig) (e : Event) (requestId : String) (w : World) :
    ∃ delivery new,
      c.emit home (some config) e requestId w =
        (some ⟨(w.files.append w.directory (Path.ofText (Locations.eventLog home)) (e.line ++ "\n").toUTF8).2,
            delivery⟩,
          .append (Locations.eventLog home) :: new, w.appended (Locations.eventLog home) (e.line ++ "\n").toUTF8) ∧
      Course c (w.appended (Locations.eventLog home) (e.line ++ "\n").toUTF8) (Locations.daemonSocket home)
        (DaemonRequest.hookEvent e requestId).line delivery new := by
  obtain ⟨delivery, new, hrun, hcourse⟩ := run_request c (Locations.daemonSocket home)
    (DaemonRequest.hookEvent e requestId).line [.append (Locations.eventLog home)]
    (w.appended (Locations.eventLog home) (e.line ++ "\n").toUTF8)
  refine ⟨delivery, new, ?_, hcourse⟩
  unfold emit Relay.emit Relay.log Host.appendLine
  simp only [run_bind, run_appendFile, List.nil_append]
  have hsend : ((@Relay.send Noted c.host (Locations.daemonSocket home) e requestId).run
      [.append (Locations.eventLog home)]).run (w.appended (Locations.eventLog home) (e.line ++ "\n").toUTF8) =
      _ := hrun
  rw [hsend]
  rfl

theorem exchange_reply (c : Conduct) (reply : Option (Ending ByteArray)) (path line : String) :
    @Client.exchange Noted _ ({ c with reply } : Conduct).sockets path line =
      @Client.exchange Noted _ c.sockets path line := by
  -- Only with the attempts at hand do both sides take the same way.
  funext acts w
  change ((@Client.exchange Noted _ ({ c with reply } : Conduct).sockets path line).run acts).run w =
    ((@Client.exchange Noted _ c.sockets path line).run acts).run w
  unfold Client.exchange
  rw [run_bind, run_bind, run_connect, run_connect]
  cases (if w.Hears path then Ending.within Client.timeout c.connection else Attempt.failed) with
  | failed => rfl
  | late => rfl
  | done stream =>
    simp only [Attempt.result]
    rw [run_bind, run_bind, run_write, run_write, discard_read, discard_read]

theorem request_reply (c : Conduct) (reply : Option (Ending ByteArray)) (path line : String) :
    @Client.request Noted _ ({ c with reply } : Conduct).sockets path line =
      @Client.request Noted _ c.sockets path line := by
  unfold Client.request Client.deliver
  rw [exchange_reply]
  rfl

theorem emit_reply (c : Conduct) (reply : Option (Ending ByteArray)) (home : String) (config : Option ProjectConfig)
    (e : Event) (requestId : String) (w : World) :
    ({ c with reply } : Conduct).emit home config e requestId w = c.emit home config e requestId w := by
  have hsend : @Relay.send Noted ({ c with reply } : Conduct).host (Locations.daemonSocket home) e requestId =
      @Relay.send Noted c.host (Locations.daemonSocket home) e requestId := request_reply c reply _ _
  unfold emit Relay.emit
  rw [hsend]
  rfl

/-- On a machine as plain data the report is that of a daemon in no trouble. -/
theorem emit_eq_run {c : Conduct} {e : Event} {requestId : String} (hready : c.ready = true) (haccepts : c.Accepts)
    (htakes : c.TakesIn Client.timeout (utf8 (DaemonRequest.hookEvent e requestId).line).length) (home : String)
    (config : Option ProjectConfig) (w : World) :
    (c.emit home config e requestId w).1 =
      ((Relay.emit home config e requestId : World.Run (Option RelayReport)).run w).1 := by
  cases config with
  | none => rfl
  | some config =>
    obtain ⟨delivery, new, hemit, hcourse⟩ := c.emit_some home config e requestId w
    rw [hemit, hcourse.delivery_eq_send hready haccepts htakes]
    unfold Relay.emit Relay.log Host.appendLine
    simp only [World.run_bind, World.run_appendFile]
    rfl

end Conduct

namespace Relay

/-- A report says what became of an event, on disk and at the daemon. -/
structure Tells (c : Conduct) (home : String) (e : Event) (requestId : String) (before after : World)
    (report : RelayReport) (acts : List Act) : Prop where
  logged : report.logged = true ↔
    after.contentAt (Locations.eventLog home) = before.contentAt (Locations.eventLog home) ++ utf8 e.line ++ [newline]
  unlogged : report.logged = false ↔
    after.contentAt (Locations.eventLog home) = before.contentAt (Locations.eventLog home)
  notRunning : report.delivery = .notRunning ↔
    after.files.entry? after.directory (Path.ofText (Locations.daemonSocket home)) = none
  sent : report.delivery = .sent ↔
    c.Receives after (Locations.daemonSocket home) (DaemonRequest.hookEvent e requestId).line
  dropped : report.delivery = .dropped ↔
    after.files.entry? after.directory (Path.ofText (Locations.daemonSocket home)) ≠ none ∧
      ¬ c.Receives after (Locations.daemonSocket home) (DaemonRequest.hookEvent e requestId).line
  first : acts.head? = some (.append (Locations.eventLog home))
  unconnected : report.delivery = .notRunning → acts = [.append (Locations.eventLog home)]
  received : report.delivery = .sent → acts = [.append (Locations.eventLog home),
    .connect (Locations.daemonSocket home), .write (utf8 (DaemonRequest.hookEvent e requestId).line),
    .read Client.replySize]
  /-- Whatever the daemon gets is from the start of the line, and all of it only if that is reported. -/
  taken : ∀ bytes, .write bytes ∈ acts → bytes <+: utf8 (DaemonRequest.hookEvent e requestId).line ∧
    (bytes = utf8 (DaemonRequest.hookEvent e requestId).line → report.delivery = .sent)
  /-- Under a home that is there, logging does not move the socket. -/
  place : before.files.IsTree → before.files.entry? before.directory (Path.ofText home) = some .directory →
    after.files.entry? after.directory (Path.ofText (Locations.daemonSocket home)) =
      before.files.entry? before.directory (Path.ofText (Locations.daemonSocket home))

theorem tells_of_course {c : Conduct} {home : String} {e : Event} {requestId : String} {w : World} {delivery : Delivery}
    {new : List Act}
    (h : Conduct.Course c (w.appended (Locations.eventLog home) (e.line ++ "\n").toUTF8) (Locations.daemonSocket home)
      (DaemonRequest.hookEvent e requestId).line delivery new) :
    Tells c home e requestId w (w.appended (Locations.eventLog home) (e.line ++ "\n").toUTF8)
      ⟨(w.files.append w.directory (Path.ofText (Locations.eventLog home)) (e.line ++ "\n").toUTF8).2, delivery⟩
      (.append (Locations.eventLog home) :: new) := by
  have hcontent := w.contentAt_appended_eq (Locations.eventLog home) (e.line ++ "\n").toUTF8
  rw [utf8_line] at hcontent
  have hline : utf8 e.line ++ [newline] ≠ [] := List.append_ne_nil_of_right_ne_nil _ (List.cons_ne_nil _ _)
  generalize (w.files.append w.directory (Path.ofText (Locations.eventLog home)) (e.line ++ "\n").toUTF8).2 = done
    at hcontent ⊢
  refine ⟨?_, ?_, h.notRunning_iff, h.sent_iff, h.dropped_iff, rfl, ?_, ?_, ?_, ?_⟩
  · rw [hcontent, List.append_assoc, List.append_cancel_left_eq]
    cases done with
    | true => exact iff_of_true rfl rfl
    | false => exact iff_of_false nofun hline.symm
  · rw [hcontent, List.append_right_eq_self]
    cases done with
    | true => exact iff_of_false nofun hline
    | false => exact iff_of_true rfl rfl
  · intro hdelivery
    rw [h.acts_of_notRunning hdelivery]
  · intro hdelivery
    rw [h.acts_of_sent hdelivery]
  · intro bytes hbytes
    exact h.taken ((List.mem_cons.mp hbytes).resolve_left nofun)
  · intro htree hhome
    rw [World.directory_appended, World.files_appended]
    exact FileSystem.entry?_daemonSocket_append _ _ htree hhome _

/-- Without a config nothing is done. With one, the log is tried first and then the daemon, whatever came of the log;
the report tells what became of each. What the daemon replies shows nowhere, and what is reported of the daemon depends
on nothing else than the daemon and what the path of its socket leads to. -/
theorem emit_tells (c : Conduct) (home : String) (e : Event) (requestId : String) (w : World) :
    c.emit home none e requestId w = (none, [], w) ∧
      ∀ config, ∃ report acts after,
        (∀ reply, ({ c with reply } : Conduct).emit home (some config) e requestId w = (some report, acts, after)) ∧
        after = w.appended (Locations.eventLog home) (e.line ++ "\n").toUTF8 ∧
        Tells c home e requestId w after report acts ∧
        ∀ v report' acts' after', c.emit home (some config) e requestId v = (some report', acts', after') →
          after'.files.entry? after'.directory (Path.ofText (Locations.daemonSocket home)) =
            after.files.entry? after.directory (Path.ofText (Locations.daemonSocket home)) →
          report'.delivery = report.delivery := by
  refine ⟨c.emit_none home e requestId w, fun config => ?_⟩
  obtain ⟨delivery, new, hemit, hcourse⟩ := c.emit_some home config e requestId w
  refine ⟨_, _, _, fun reply => (c.emit_reply reply home _ e requestId w).trans hemit, rfl, tells_of_course hcourse, ?_⟩
  intro v report' acts' after' hemit' hsame
  obtain ⟨delivery', new', hother, hcourse'⟩ := c.emit_some home config e requestId v
  rw [hother, Prod.mk.injEq, Prod.mk.injEq, Option.some.injEq] at hemit'
  obtain ⟨rfl, rfl, rfl⟩ := hemit'
  exact hcourse.delivery_eq hcourse' hsame

def served (hooks : List (Location × Entry)) : World where
  files := ⟨[(["h"], .directory), (["h", ".claude"], .directory), (["h", ".claude", "daemon"], .directory),
    (["h", ".claude", "daemon", "atm-daemon.sock"], .socket)] ++ hooks⟩
  directory := []
  sent := []

def clutteredHooks : List (Location × Entry) := [(["h", ".claude", "daemon", "hooks"], .file .empty)]

/-- A daemon that takes a line in two pieces and is done with it at the last moment. -/
def unhurried : Conduct where
  ready := true
  connection := some ⟨1000, some ()⟩
  takes := [(400, 100), (600, 100000)]
  breaks := some 0
  reply := some ⟨0, none⟩

def closing : Event := Event.sessionEnd "s" ⟨⟨2024, 1, 2⟩, 0, 0⟩

theorem receives_closing {w : World} (h : w.Hears (Locations.daemonSocket "/h")) :
    unhurried.Receives w (Locations.daemonSocket "/h") (DaemonRequest.hookEvent closing "r").line := by
  have haccepts : unhurried.Accepts := ⟨1000, Nat.le_refl 1000, rfl⟩
  have hlength : (utf8 (DaemonRequest.hookEvent closing "r").line).length ≤ 100100 := by decide +kernel
  exact ⟨rfl, h, haccepts, 2, Nat.le_refl 2, Nat.le_refl 1000, hlength⟩

theorem emit_tells_closing :
    (∃ acts after, unhurried.emit "/h" (some ⟨none, "", none, []⟩) closing "r" (served []) =
        (some ⟨true, .sent⟩, acts, after)) ∧
      ∃ acts after, unhurried.emit "/h" (some ⟨none, "", none, []⟩) closing "r" (served clutteredHooks) =
        (some ⟨false, .sent⟩, acts, after) := by
  obtain ⟨-, hserved⟩ := emit_tells unhurried "/h" closing "r" (served [])
  obtain ⟨-, hcluttered⟩ := emit_tells unhurried "/h" closing "r" (served clutteredHooks)
  obtain ⟨⟨logged, delivery⟩, acts, after, hemit, rfl, htells, hsame⟩ := hserved ⟨none, "", none, []⟩
  obtain ⟨⟨logged', delivery'⟩, acts', after', hemit', rfl, htells', -⟩ := hcluttered ⟨none, "", none, []⟩
  obtain rfl : delivery = .sent := htells.sent.mpr (receives_closing (by decide +kernel))
  obtain rfl : logged = true := htells.logged.mpr (by decide +kernel)
  obtain rfl : logged' = false := htells'.unlogged.mpr (by decide +kernel)
  obtain rfl : delivery' = .sent := hsame _ _ _ _ (hemit' unhurried.reply) (by decide +kernel)
  exact ⟨⟨acts, _, hemit unhurried.reply⟩, acts', _, hemit' unhurried.reply⟩

end Relay

end SpawnGate
