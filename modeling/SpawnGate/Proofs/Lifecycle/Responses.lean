import SpawnGate.Proofs.SessionId

/-!
A run on a machine that may take every write and every message as it likes. What the run tries is noted in order.
-/

namespace SpawnGate

open Json

/-- What a machine does when it is to write a file or to send a line. -/
structure Responses where
  replace : String → ByteArray → World.Run Bool
  append : String → ByteArray → World.Run Bool
  request : String → String → World.Run Delivery

namespace Responses

def plain : Responses where
  replace := World.store FileSystem.replace
  append := World.store FileSystem.append
  request := World.send

/-- A machine on which nothing can be written and nothing is sent. -/
def refusing : Responses where
  replace _ _ := return false
  append _ _ := return false
  request _ _ := return .dropped

inductive Deed where
  | replace (path : String) (bytes : ByteArray)
  | append (path : String) (bytes : ByteArray)
  | request (path line : String)

def Deed.append? : Deed → Option (String × ByteArray)
  | .append path bytes => some (path, bytes)
  | _ => none

def Deed.replace? : Deed → Option (String × ByteArray)
  | .replace path bytes => some (path, bytes)
  | _ => none

abbrev Noting := StateT (List Deed) World.Run

def noting {α : Type} (d : Deed) (x : World.Run α) : Noting α := do
  modify (· ++ [d])
  liftM x

@[reducible]
def host (a : Responses) : Host Noting where
  readFile path := liftM (World.read path)
  replaceFile path bytes := noting (.replace path bytes) (a.replace path bytes)
  appendFile path bytes := noting (.append path bytes) (a.append path bytes)
  request path line := noting (.request path line) (a.request path line)

/-- What a run comes to and what it tries to write and to send, in order. -/
def watch (a : Responses) (i : Invocation) (w : World) : Outcome × List Deed :=
  (((@Invocation.run Noting _ a.host i).run []).run w).1

/-- The machine once a hook has tried to record its session. -/
def recordedIn (a : Responses) (i : Invocation) (w : World) : World :=
  match i.sessionId? with
  | some id => ((a.replace i.cache id.toUTF8).run w).2
  | none => w

/-- The config that the hook then finds. -/
def config? (a : Responses) (i : Invocation) (root : String) (w : World) : Option ProjectConfig :=
  (a.recordedIn i w).config? root

variable {α β : Type} {a : Responses} {i : Invocation} {root : String} {deeds : List Deed} {w : World}

theorem run_bind (x : Noting α) (f : α → Noting β) (deeds : List Deed) (w : World) :
    ((x >>= f).run deeds).run w =
      ((f ((x.run deeds).run w).1.1).run ((x.run deeds).run w).1.2).run ((x.run deeds).run w).2 := rfl

theorem run_forM (x : Option α) (f : α → Noting PUnit) (deeds : List Deed) (w : World) :
    ((x.forM f).run deeds).run w = match x with
      | some b => ((f b).run deeds).run w
      | none => (((), deeds), w) := by
  cases x <;> rfl

theorem run_probe (a : Responses) (root : String) (deeds : List Deed) (w : World) :
    ((@ProjectConfig.probe Noting _ a.host root).run deeds).run w = ((w.config? root, deeds), w) := rfl

theorem run_record {raw id : String} (h : Text.usable raw = some id) (cache : String) (deeds : List Deed) (w : World) :
    ((@Session.record Noting _ a.host cache raw).run deeds).run w =
      (((), deeds ++ [.replace cache id.toUTF8]), ((a.replace cache id.toUTF8).run w).2) := by
  unfold Session.record
  rw [h]
  rfl

/-- What relaying an event comes to, on a machine with a home. -/
def relayDeeds (i : Invocation) (e : Event) : List Deed :=
  match i.home with
  | .ok home => [.append (Locations.eventLog home) (e.line ++ "\n").toUTF8,
      .request (Locations.daemonSocket home) (DaemonRequest.hookEvent e i.requestId).line]
  | .error _ => []

theorem run_relay (config : ProjectConfig) (e : Event) (deeds : List Deed) (w : World) :
    (((@Invocation.relay Noting _ a.host i config e).run deeds).run w).1 = ((), deeds ++ relayDeeds i e) := by
  unfold Invocation.relay relayDeeds
  cases i.home with
  | error => exact congrArg (Prod.mk ()) (List.append_nil deeds).symm
  | ok home => exact congrArg (Prod.mk ()) (List.append_assoc deeds _ _)

/-- What the start of a session comes to. -/
def startDeeds (a : Responses) (i : Invocation) (root : String) (w : World) : List Deed :=
  (i.sessionId?.map fun id => Deed.replace i.cache id.toUTF8).toList ++
    (((a.config? i root w).bind (i.event? .sessionStart)).map (relayDeeds i)).getD []

theorem run_sessionStart {payload : Value} (hpayload : i.payload? = some payload) (w : World) :
    (((@Invocation.sessionStart Noting _ a.host i root).run []).run w).1 =
      (⟨0, i.announced (a.config? i root w), ""⟩, a.startDeeds i root w) := by
  have hsession := Invocation.sessionId?_eq hpayload
  unfold Invocation.sessionStart Invocation.announced startDeeds config? recordedIn
  simp only [hpayload, hsession]
  cases hid : Hook.field? payload "session_id" with
  | none =>
    rw [hid] at hsession
    simp only [run_bind, run_forM, run_probe]
    cases w.config? root with
    | none => rfl
    | some config =>
      simp only [Option.bind_some, Invocation.event?_of_sessionId?_eq_none hsession]
      rfl
  | some id =>
    have husable := ((Hook.field?_eq_some_iff payload _ id).mp hid).usable
    simp only [run_bind, run_forM, run_record husable, run_probe]
    cases ((a.replace i.cache id.toUTF8).run w).2.config? root with
    | none =>
      rw [Option.map_none, Option.getD_none, String.append_empty]
      rfl
    | some config =>
      simp only [run_bind, run_forM, Option.bind_some, Invocation.event?_eq hpayload hid, Invocation.eventFor, run_relay]
      rfl

theorem recordedIn_plain (i : Invocation) (w : World) : plain.recordedIn i w = i.recordedIn w := by
  unfold recordedIn
  rw [Invocation.recordedIn_eq_match, Invocation.sessionId?_eq_givenId?]
  cases i.givenId? with
  | none => rfl
  | some id => simp only [plain, World.run_store, World.replaced, FileSystem.replace]

theorem config?_refusing (i : Invocation) (root : String) (w : World) :
    refusing.config? i root w = w.config? root := by
  unfold config? recordedIn
  cases i.sessionId? <;> rfl

theorem watch_eq {a : Responses} {r : Option String} {json : Bool} {payload : Value}
    (harguments : CommandLine.read (i.environment Invocation.rootVariable) i.arguments = .run ⟨r, json, .sessionStart⟩)
    (hpayload : i.payload? = some payload) (w : World) :
    a.watch i w = (⟨0, i.announced (a.config? i (r.getD "") w), ""⟩, a.startDeeds i (r.getD "") w) := by
  have hrun : @Invocation.run Noting _ a.host i = @Invocation.sessionStart Noting _ a.host i (r.getD "") := by
    simp only [Invocation.run, harguments, Invocation.perform]
  rw [watch, hrun, run_sessionStart hpayload]

theorem watch_plain {r : Option String} {json : Bool} {payload : Value}
    (harguments : CommandLine.read (i.environment Invocation.rootVariable) i.arguments = .run ⟨r, json, .sessionStart⟩)
    (hpayload : i.payload? = some payload) (w : World) :
    (plain.watch i w).1 = ((i.run : World.Run Outcome).run w).1 := by
  have hrun : (i.run : World.Run Outcome) = i.sessionStart (r.getD "") := by
    simp only [Invocation.run, harguments, Invocation.perform]
  rw [watch_eq harguments hpayload, hrun, Invocation.run_sessionStart, config?, recordedIn_plain]
  rfl

def replacements (deeds : List Deed) : List (String × ByteArray) :=
  deeds.filterMap Deed.replace?

/-- A part of a run that replaces no file. -/
def Spares (x : Noting α) : Prop :=
  ∀ deeds w, replacements ((x.run deeds).run w).1.2 = replacements deeds

namespace Spares

theorem pure (x : α) : Spares (Pure.pure x) := fun _ _ => rfl

theorem bind {x : Noting α} {f : α → Noting β} (hx : Spares x) (hf : ∀ y, Spares (f y)) : Spares (x >>= f) := by
  intro deeds w
  rw [run_bind, hf, hx]

theorem read (a : Responses) (path : String) : Spares (@Host.readFile Noting a.host path) := fun _ _ => rfl

theorem noting {d : Deed} (hd : d.replace? = none) (x : World.Run α) : Spares (noting d x) := by
  intro deeds w
  change replacements (deeds ++ [d]) = replacements deeds
  rw [replacements, List.filterMap_append, List.filterMap_cons_none hd, List.filterMap_nil, List.append_nil]
  rfl

theorem readText (a : Responses) (path : String) : Spares (@Host.readText Noting _ a.host path) :=
  (read a path).bind fun _ => pure _

theorem probe (a : Responses) (root : String) : Spares (@ProjectConfig.probe Noting _ a.host root) :=
  (readText a _).bind fun _ => pure _

theorem emit (a : Responses) (home : String) (config : Option ProjectConfig) (e : Event) (requestId : String) :
    Spares (@Relay.emit Noting _ a.host home config e requestId) := by
  unfold Relay.emit
  cases config with
  | none => exact pure _
  | some config => exact (noting rfl _).bind fun _ => (noting rfl _).bind fun _ => pure _

theorem relay (a : Responses) (i : Invocation) (config : ProjectConfig) (e : Event) :
    Spares (@Invocation.relay Noting _ a.host i config e) := by
  unfold Invocation.relay
  cases i.home with
  | error => exact pure _
  | ok home => exact (emit a home _ e i.requestId).bind fun _ => pure _

theorem leads (a : Responses) (i : Invocation) (team : String) : Spares (@Invocation.leads Noting _ a.host i team) := by
  unfold Invocation.leads
  cases i.home with
  | error => exact pure _
  | ok home =>
    simp only
    unfold Registry.lead?
    cases (Text.usable team).filter Locations.isTeamName with
    | none => exact pure _
    | some team =>
      refine bind ((readText a _).bind fun text => ?_) fun _ => pure _
      cases text with
      | none => exact pure _
      | some text => exact pure _

theorem check {lookup : String → Noting (Option String)} (h : ∀ team, Spares (lookup team))
    (config : Option ProjectConfig) (r : SpawnRequest) (rule : Rule) : Spares (Policy.check lookup config r rule) := by
  cases rule with
  | namedTeammate => exact pure _
  | teamBinding => exact pure _
  | leadOnly =>
    unfold Policy.check
    cases r.team with
    | none => exact pure _
    | some team =>
      refine (h team).bind fun lead => ?_
      cases lead with
      | none => exact pure _
      | some lead => exact pure _

theorem evaluate {lookup : String → Noting (Option String)} (h : ∀ team, Spares (lookup team))
    (config : Option ProjectConfig) (r : SpawnRequest) : Spares (Policy.evaluate lookup config r) := by
  have hfirst : ∀ rules, Spares (Policy.firstViolation lookup config r rules) := by
    intro rules
    induction rules with
    | nil => exact pure _
    | cons rule rules ih =>
      refine (check h config r rule).bind fun found => ?_
      cases found with
      | none => exact ih
      | some v => exact pure _
  refine (hfirst Rule.order).bind fun found => ?_
  cases found with
  | none => exact pure _
  | some v => exact pure _

end Spares

/-- Recording an id is all that a run replaces files for, if it spares them afterwards. -/
theorem replacements_record_bind {raw id : String} (hid : Text.usable raw = some id) (cache : String)
    {x : PUnit → Noting α} (hx : ∀ u, Spares (x u)) (w : World) :
    replacements (((@Session.record Noting _ a.host cache raw >>= x).run []).run w).1.2 = [(cache, id.toUTF8)] := by
  rw [run_bind, hx, run_record hid]
  rfl

theorem exists_payload_of_givenId? {id : String} (h : i.givenId? = some id) :
    ∃ payload, i.payload? = some payload ∧ Hook.field? payload "session_id" = some id := by
  rw [← Invocation.sessionId?_eq_givenId?] at h
  exact Option.bind_eq_some_iff.mp h

theorem replacements_gate {id : String} (hid : i.givenId? = some id) (root : String) (w : World) :
    replacements (((@Invocation.gate Noting _ a.host i root).run []).run w).1.2 = [(i.cache, id.toUTF8)] := by
  cases hinput : (String.fromUTF8? i.stdin).bind SpawnRequest.ofText? with
  | none =>
    rw [Invocation.givenId?_of_no_request hinput] at hid
    cases hid
  | some r =>
    have hcaller := (Invocation.usable_callerId hinput).trans hid
    unfold Invocation.gate
    simp only [hinput]
    apply replacements_record_bind hcaller
    intro u
    refine (Spares.probe a root).bind fun config => ?_
    refine (Spares.evaluate (Spares.leads a i) config r).bind fun decision => ?_
    cases decision with
    | allow => exact .pure _
    | block v => exact .pure _

theorem replacements_sessionStart {id : String} (hid : i.givenId? = some id) (root : String) (w : World) :
    replacements (((@Invocation.sessionStart Noting _ a.host i root).run []).run w).1.2 = [(i.cache, id.toUTF8)] := by
  obtain ⟨payload, hpayload, hfield⟩ := exists_payload_of_givenId? hid
  unfold Invocation.sessionStart
  simp only [hpayload, hfield]
  apply replacements_record_bind (Invocation.usable_of_givenId? hid)
  intro u
  refine (Spares.probe a root).bind fun config => ?_
  cases config with
  | none => exact .pure _
  | some config => exact (Spares.relay a i config _).bind fun _ => .pure _

theorem replacements_lifecycle {id : String} (hid : i.givenId? = some id) (root : String)
    (event : ProjectConfig → Value → String → Event) (w : World) :
    replacements (((@Invocation.lifecycle Noting _ a.host i root event).run []).run w).1.2 = [(i.cache, id.toUTF8)] := by
  obtain ⟨payload, hpayload, hfield⟩ := exists_payload_of_givenId? hid
  unfold Invocation.lifecycle
  simp only [hpayload, hfield]
  apply replacements_record_bind (Invocation.usable_of_givenId? hid)
  intro u
  refine (Spares.probe a root).bind fun config => ?_
  cases config with
  | none => exact .pure _
  | some config => exact (Spares.relay a i config _).bind fun _ => .pure _

/-- A hook that is given an id replaces one file, the session cache, and writes the id into it as it is. -/
theorem replacements_watch {args : Arguments} {id : String}
    (harguments : CommandLine.read (i.environment Invocation.rootVariable) i.arguments = .run args)
    (hhook : args.command.isHook = true) (hid : i.givenId? = some id) (a : Responses) (w : World) :
    replacements (a.watch i w).2 = [(i.cache, id.toUTF8)] := by
  have hrun : @Invocation.run Noting _ a.host i = @Invocation.perform Noting _ a.host i args := by
    simp only [Invocation.run, harguments]
  rw [watch, hrun]
  unfold Invocation.perform
  cases hcommand : args.command with
  | gate => exact replacements_gate hid _ w
  | sessionStart => exact replacements_sessionStart hid _ w
  | sessionEnd => exact replacements_lifecycle hid _ _ w
  | teammateIdle => exact replacements_lifecycle hid _ _ w
  | showSession explicit =>
    rw [hcommand] at hhook
    cases hhook

end Responses

end SpawnGate
