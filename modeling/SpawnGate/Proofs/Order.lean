import SpawnGate.Proofs.Lifecycle.Trail
import SpawnGate.Proofs.Stages

/-!
The order of hooks. In one project each hook answers, logs and sends what it would if it were the only one, so the order
of hooks shows in nothing but the session cache and the order of the log's lines.
-/

namespace SpawnGate

open FileSystem Lines

namespace Invocation

/-- What a hook answers depends on the machine only by its marker and its registry, once the id was recorded. -/
theorem outcome_congr {i : Invocation} {a : Arguments} {w w' : World} (hhook : a.command.isHook = true)
    (hconfig : (i.recordedIn w).config? (a.root.getD "") = (i.recordedIn w').config? (a.root.getD ""))
    (hleads : i.leadIn (i.recordedIn w) = i.leadIn (i.recordedIn w')) :
    ((i.perform a : World.Run Outcome).run w).1 = ((i.perform a : World.Run Outcome).run w').1 := by
  unfold perform
  cases hcommand : a.command with
  | gate =>
    simp only
    cases hinput : (String.fromUTF8? i.stdin).bind SpawnRequest.ofText? with
    | none => rw [run_gate_of_none _ w hinput, run_gate_of_none _ w' hinput]
    | some r =>
      rw [run_gate_of_some _ w hinput, run_gate_of_some _ w' hinput, recorded_callerId hinput, recorded_callerId hinput,
        hconfig, hleads]
  | sessionStart => simp only [run_sessionStart, hconfig]
  | sessionEnd => simp only [run_sessionEnd]
  | teammateIdle => simp only [run_teammateIdle]
  | showSession explicit =>
    rw [hcommand] at hhook
    cases hhook

/-- A hook of a project. Its input, its identity and its time are its own. -/
structure Belongs (i : Invocation) (s : Setting) : Prop where
  hook : ∃ a, CommandLine.read (i.environment rootVariable) i.arguments = .run a ∧ a.command.isHook = true ∧
    a.root.getD "" = s.root
  home_eq : i.home = .ok s.home
  cache_eq : i.cache = s.cache

end Invocation

namespace Setting

variable {s : Setting} {w w' : World} {n : Stage} {i : Invocation}

def event? (s : Setting) (w : World) (i : Invocation) : Option Event :=
  match CommandLine.read (i.environment Invocation.rootVariable) i.arguments with
  | .run a => (w.config? s.root).bind (i.event? a.command)
  | _ => none

def stage (s : Setting) (w : World) (i : Invocation) : Stage :=
  match s.event? w i, i.givenId? with
  | some _, _ => .logged
  | none, some _ => .recorded
  | none, none => .found

def added (s : Setting) (w : World) (i : Invocation) : List UInt8 :=
  match s.event? w i with
  | some e => if s.Writable w then utf8 e.line ++ [newline] else []
  | none => []

def requested (s : Setting) (w : World) (i : Invocation) : List String :=
  match s.event? w i with
  | some e => if s.Heard w then [(DaemonRequest.hookEvent e i.requestId).line] else []
  | none => []

theorem event?_of_givenId?_eq_none (hid : i.givenId? = none) : s.event? w i = none := by
  rw [← Invocation.sessionId?_eq_givenId?] at hid
  unfold event?
  split
  · rename_i a harguments
    have hevent : i.event? a.command = fun _ => none :=
      funext fun config => Invocation.event?_of_sessionId?_eq_none hid a.command config
    rw [hevent, Option.bind_fun_none]
  · rfl

theorem exists_reached_recordedIn (hi : i.Belongs s) (hr : s.Reached w n w') : ∃ m, s.Reached w m (i.recordedIn w') := by
  rw [Invocation.recordedIn_eq_match, hi.cache_eq]
  cases i.givenId? with
  | none => exact ⟨n, hr⟩
  | some id => exact ⟨_, hr.replaced id.toUTF8⟩

theorem outcome_eq (h : s.Apart w) (hi : i.Belongs s) (hr : s.Reached w n w') :
    ((i.run : World.Run Outcome).run w').1 = ((i.run : World.Run Outcome).run w).1 := by
  obtain ⟨a, harguments, hhook, hroot⟩ := hi.hook
  have hrun : (i.run : World.Run Outcome) = i.perform a := by
    simp only [Invocation.run, harguments]
  obtain ⟨m, hm⟩ := exists_reached_recordedIn hi hr
  obtain ⟨m', hm'⟩ := exists_reached_recordedIn hi (.found s w)
  rw [hrun]
  apply Invocation.outcome_congr hhook
  · rw [hroot, hm.config?_eq h, hm'.config?_eq h]
  · rw [hm.leadIn_eq h hi.home_eq, hm'.leadIn_eq h hi.home_eq]

/-- A hook logs and sends at every stage what it does at first. -/
theorem left_of_reached (h : s.Apart w) (hi : i.Belongs s) (hr : s.Reached w n w') :
    s.Reached w (n.later (s.stage w i)) ((i.run : World.Run Outcome).run w').2 ∧
      ((i.run : World.Run Outcome).run w').2.files.content (s.logPlace w) =
        w'.files.content (s.logPlace w) ++ s.added w i ∧
      ((i.run : World.Run Outcome).run w').2.sent = s.requested w i ++ w'.sent := by
  obtain ⟨a, harguments, hhook, hroot⟩ := hi.hook
  have hevent : s.event? w i = (w.config? s.root).bind (i.event? a.command) := by
    rw [event?, harguments]
  rw [Invocation.run_hook harguments hhook, hroot]
  unfold stage added requested
  cases hid : i.givenId? with
  | none =>
    have hsession := hid
    rw [← Invocation.sessionId?_eq_givenId?] at hsession
    -- A hook without an id neither records nor logs.
    rw [Invocation.leftBehind_of_sessionId?_eq_none hsession, event?_of_givenId?_eq_none hid, Stage.later_found]
    exact ⟨hr, (List.append_nil _).symm, rfl⟩
  | some id =>
    -- The marker is read after the id was recorded, so what is logged is a question of the stage after that.
    have hrecordedIn : i.recordedIn w' = w'.replaced s.cache id.toUTF8 := by
      rw [Invocation.recordedIn_eq_match, hid, hi.cache_eq]
    have hrecorded := hr.replaced id.toUTF8
    rw [← hrecordedIn] at hrecorded
    have hcontent : (i.recordedIn w').files.content (s.logPlace w) = w'.files.content (s.logPlace w) := by
      apply i.content_recordedIn
      rw [hi.cache_eq, hr.directory]
      exact cache_ne_log h.toOutside
    have hsent := i.sent_recordedIn w'
    unfold Invocation.leftBehind
    rw [hrecorded.config?_eq h, ← hevent]
    cases he : s.event? w i with
    | none => exact ⟨hrecorded, by rw [hcontent]; exact (List.append_nil _).symm, hsent⟩
    | some e =>
      have hmarked : w.config? s.root ≠ none := by
        intro hnone
        rw [hevent, hnone] at he
        cases he
      have hrelayed := hrecorded.relayed n.later_recorded_ne_found hmarked e i.requestId
      rw [hcontent, hsent] at hrelayed
      simp only [Invocation.relayedIn, hi.home_eq]
      rw [Stage.later_logged]
      exact hrelayed

/-- What a hook is seen to do: what it answers, the bytes that the log grew by and the lines that were sent. -/
structure Observation where
  outcome : Outcome
  added : List UInt8
  sent : List String
deriving DecidableEq, Repr

def observe (s : Setting) (w : World) (i : Invocation) : Observation × World :=
  let r := (i.run : World.Run Outcome).run w
  (⟨r.1, (r.2.files.content (s.logPlace w)).drop (w.files.content (s.logPlace w)).length,
    r.2.sent.take (r.2.sent.length - w.sent.length)⟩, r.2)

def observeAll (s : Setting) (w : World) : List Invocation → List Observation × World
  | [] => ([], w)
  | i :: is =>
    let (o, w') := s.observe w i
    let (os, w'') := s.observeAll w' is
    (o :: os, w'')

theorem observe_of_reached (h : s.Apart w) (hi : i.Belongs s) (hr : s.Reached w n w') :
    s.observe w' i = (⟨((i.run : World.Run Outcome).run w).1, s.added w i, s.requested w i⟩,
      ((i.run : World.Run Outcome).run w').2) := by
  obtain ⟨-, hcontent, hsent⟩ := left_of_reached h hi hr
  have hplace : s.logPlace w' = s.logPlace w := by rw [logPlace, logPlace, hr.directory]
  simp only [observe]
  rw [hplace, hcontent, hsent, outcome_eq h hi hr, List.drop_left, List.length_append, Nat.add_sub_cancel,
    List.take_left]

def stages (s : Setting) (w : World) (is : List Invocation) : Stage :=
  is.foldr (fun i n => (s.stage w i).later n) .found

theorem stages_eq_of_perm (s : Setting) (w : World) {is is' : List Invocation} (h : is.Perm is') :
    s.stages w is = s.stages w is' := by
  apply h.foldr_eq'
  intro i _ j _ n
  rw [← Stage.later_assoc, ← Stage.later_assoc, Stage.later_comm (s.stage w i)]

theorem observeAll_of_reached (h : s.Apart w) {is : List Invocation} (his : ∀ i ∈ is, i.Belongs s)
    (hr : s.Reached w n w') :
    (s.observeAll w' is).1 = is.map (fun i => (s.observe w i).1) ∧
      s.Reached w (n.later (s.stages w is)) (s.observeAll w' is).2 ∧
      (s.observeAll w' is).2.files.content (s.logPlace w) =
        w'.files.content (s.logPlace w) ++ is.flatMap fun i => (s.observe w i).1.added := by
  -- Each hook finds the machine in a stage, whatever the hooks before it were.
  induction is generalizing n w' with
  | nil => exact ⟨rfl, by rw [stages, List.foldr_nil, Stage.later_found]; exact hr, (List.append_nil _).symm⟩
  | cons i is ih =>
    obtain ⟨hi, hrest⟩ := List.forall_mem_cons.mp his
    obtain ⟨hleft, hcontent, -⟩ := left_of_reached h hi hr
    have hnow := observe_of_reached h hi hr
    have hfirst := observe_of_reached h hi (.found s w)
    obtain ⟨hobserved, hreached, hlog⟩ := ih hrest hleft
    simp only [observeAll, hnow, hfirst, List.map_cons, List.flatMap_cons]
    refine ⟨?_, ?_, ?_⟩
    · rw [hobserved]
    · rw [stages, List.foldr_cons, ← stages, ← Stage.later_assoc]
      exact hreached
    · rw [hlog, hcontent, List.append_assoc]

/-- In any order each hook answers, logs and sends what it would if it were the only one. The log grows by the same
lines in another order, and all other files but the session cache are the same in the end. -/
theorem order_shows_only_in_cache (s : Setting) {w : World} (h : s.Apart w) {is is' : List Invocation}
    (hperm : is.Perm is') (his : ∀ i ∈ is, i.Belongs s) :
    (s.observeAll w is).1 = is.map (fun i => (s.observe w i).1) ∧
      (s.observeAll w is').1 = is'.map (fun i => (s.observe w i).1) ∧
      (s.observeAll w is).2.files.content (s.logPlace w) =
        w.files.content (s.logPlace w) ++ is.flatMap (fun i => (s.observe w i).1.added) ∧
      (s.observeAll w is').2.files.content (s.logPlace w) =
        w.files.content (s.logPlace w) ++ is'.flatMap (fun i => (s.observe w i).1.added) ∧
      ∀ l, target w.directory (Path.ofText s.cache) ≠ l → s.logPlace w ≠ l →
        (s.observeAll w is).2.files.find? l = (s.observeAll w is').2.files.find? l := by
  have his' : ∀ i ∈ is', i.Belongs s := fun i hi => his i (hperm.mem_iff.mpr hi)
  obtain ⟨hobserved, hreached, hlog⟩ := observeAll_of_reached h his (.found s w)
  obtain ⟨hobserved', hreached', hlog'⟩ := observeAll_of_reached h his' (.found s w)
  rw [← s.stages_eq_of_perm w hperm] at hreached'
  refine ⟨hobserved, hobserved', hlog, hlog', fun l hcache hplace => ?_⟩
  exact hreached.find?_eq hreached' (not_mem_loose hcache hplace)

def environment (s : Setting) : Environment := fun name =>
  if name = "ATM_PROJECT_ROOT" then some s.root
  else if name = "ATM_SESSION_FILE" then some s.cache
  else if name = "ATM_HOME" then some s.home else none

def hookAt (s : Setting) (name stdin : String) : Invocation where
  arguments := [name]
  environment := s.environment
  stdin := stdin.toUTF8
  now := ⟨⟨2024, 1, 2⟩, 0, 0⟩
  processId := 1
  requestId := "r"

def ending (s : Setting) : Invocation := s.hookAt "session-end" "\x7b\"session_id\":\"s\"\x7d"

def starting (s : Setting) : Invocation := s.hookAt "session-start" "\x7b\x7d"

def joining (s : Setting) : Invocation :=
  s.hookAt "gate" "\x7b\"session_id\":\"s\",\"tool_input\":\x7b\"name\":\"n\",\"team_name\":\"t\"\x7d\x7d"

/-- A project at `/p` that greets, and a team whose lead is another session. -/
def greeted : World where
  files := ⟨[(["p"], .directory), (["p", ".atm.toml"], .file "[core]\nwelcome-message = \"hi\"\n".toUTF8),
    (["h"], .directory), (["h", ".claude"], .directory), (["h", ".claude", "daemon"], .directory),
    (["h", ".claude", "daemon", "hooks"], .directory), (["h", ".claude", "teams"], .directory),
    (["h", ".claude", "teams", "t"], .directory), (["h", ".claude", "teams", "t", "config.json"],
      .file "\x7b\"leadSessionId\":\"lead\"\x7d".toUTF8)]⟩
  directory := []
  sent := []

theorem grounded_greeted : greeted.Grounded := by
  refine ⟨isTree_of_entries ?_, rfl⟩
  simp [greeted, find?]

theorem opens_nothing {w : World} {path : String}
    (h : ∀ d ∈ parentWay w.directory (Path.ofText path), w.files.find? d ≠ none) (other : String) :
    ¬ w.Opens path other := by
  rintro ⟨d, hd, -, hmissing, -⟩
  exact h d hd hmissing

theorem belongs_hookAt {name : String} (command : Command) (stdin : String) (hhook : command.isHook = true)
    (hread : CommandLine.read (s.environment Invocation.rootVariable) [name] = .run ⟨some s.root, false, command⟩)
    (hhome : Locations.home s.environment = .ok s.home) (hcache : Locations.sessionCache s.environment = s.cache) :
    (s.hookAt name stdin).Belongs s :=
  ⟨⟨_, hread, hhook, rfl⟩, hhome, hcache⟩

def plain : Setting := ⟨"/h", "/p", "/c"⟩

/-- The marker is found only through a directory that is made on the way to the session cache. -/
def throughCache : Setting := ⟨"/h", "/new/../p", "/new/id"⟩

/-- The registry is found only through a directory that is made on the way to the log. -/
def throughLog : Setting := ⟨"/new/../h", "/p", "/c"⟩

theorem apart_plain : plain.Apart greeted := by
  have hcache (other : String) : ¬ greeted.Opens "/c" other := opens_nothing (by decide +kernel) other
  have hlog (other : String) : ¬ greeted.Opens plain.log other := opens_nothing (by decide +kernel) other
  exact ⟨⟨grounded_greeted, by decide +kernel, by decide +kernel⟩, hcache _, fun team _ => ⟨hcache _, hlog _⟩⟩

theorem order_shows_only_in_cache_swapped :
    plain.Apart greeted ∧ [plain.ending, plain.joining].Perm [plain.joining, plain.ending] ∧
      (∀ i ∈ [plain.ending, plain.joining], i.Belongs plain) ∧
      (plain.observeAll greeted [plain.ending, plain.joining]).1 =
        [(plain.observe greeted plain.ending).1, (plain.observe greeted plain.joining).1] ∧
      (plain.observeAll greeted [plain.joining, plain.ending]).1 =
        [(plain.observe greeted plain.joining).1, (plain.observe greeted plain.ending).1] := by
  have hhome : Locations.home plain.environment = .ok "/h" := by decide +kernel
  have hcache : Locations.sessionCache plain.environment = "/c" := by decide +kernel
  have hending : plain.ending.Belongs plain := belongs_hookAt .sessionEnd _ rfl (by decide +kernel) hhome hcache
  have hjoining : plain.joining.Belongs plain := belongs_hookAt .gate _ rfl (by decide +kernel) hhome hcache
  have hboth : ∀ i ∈ [plain.ending, plain.joining], i.Belongs plain :=
    List.forall_mem_cons.mpr ⟨hending, List.forall_mem_singleton.mpr hjoining⟩
  have hperm : [plain.ending, plain.joining].Perm [plain.joining, plain.ending] := .swap _ _ _
  obtain ⟨hfirst, hsecond, -⟩ := order_shows_only_in_cache plain apart_plain hperm hboth
  exact ⟨apart_plain, hperm, hboth, hfirst, hsecond⟩

/-- The order of two hooks shows, if the first makes a directory through which the second finds the marker, or through
which it finds the registry. -/
theorem exists_order_showing :
    (∃ (s : Setting) (w : World), s.Outside w ∧ s.ending.Belongs s ∧ s.starting.Belongs s ∧
      (s.observeAll w [s.starting, s.ending]).1.map (·.outcome.stdout) = ["", ""] ∧
      (s.observeAll w [s.ending, s.starting]).1.map (·.outcome.stdout) = ["", "Welcome: hi\n"]) ∧
    ∃ (s : Setting) (w : World), s.Outside w ∧ s.ending.Belongs s ∧ s.joining.Belongs s ∧
      (s.observeAll w [s.joining, s.ending]).1.map (·.outcome.status) = [0, 0] ∧
      (s.observeAll w [s.ending, s.joining]).1.map (·.outcome.status) = [0, 2] := by
  constructor
  · have hhome : Locations.home throughCache.environment = .ok "/h" := by decide +kernel
    have hcache : Locations.sessionCache throughCache.environment = "/new/id" := by decide +kernel
    have hending : throughCache.ending.Belongs throughCache :=
      belongs_hookAt .sessionEnd _ rfl (by decide +kernel) hhome hcache
    have hstarting : throughCache.starting.Belongs throughCache :=
      belongs_hookAt .sessionStart _ rfl (by decide +kernel) hhome hcache
    refine ⟨throughCache, greeted, ⟨grounded_greeted, ?_, ?_⟩, hending, hstarting, ?_, ?_⟩
    all_goals decide +kernel
  · have hhome : Locations.home throughLog.environment = .ok "/new/../h" := by decide +kernel
    have hcache : Locations.sessionCache throughLog.environment = "/c" := by decide +kernel
    have hending : throughLog.ending.Belongs throughLog :=
      belongs_hookAt .sessionEnd _ rfl (by decide +kernel) hhome hcache
    have hjoining : throughLog.joining.Belongs throughLog :=
      belongs_hookAt .gate _ rfl (by decide +kernel) hhome hcache
    refine ⟨throughLog, greeted, ⟨grounded_greeted, ?_, ?_⟩, hending, hjoining, ?_, ?_⟩
    all_goals decide +kernel

end Setting

end SpawnGate
