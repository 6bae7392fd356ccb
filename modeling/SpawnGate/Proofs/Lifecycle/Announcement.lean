import SpawnGate.Proofs.Lifecycle.Responses
import SpawnGate.Proofs.Lifecycle.Sources
import SpawnGate.Proofs.Writes

/-!
What the start of a session says on standard output. It depends on the input and on the config that is probed, however the
machine takes the writes in between, and the event that is logged holds what was said.
-/

namespace SpawnGate

open Json

/-- The facts that the start of a session is announced with. -/
structure Speech where
  session : Option (String × StartSource)
  team : Option String
  welcome : Option String

namespace Speech

def text (s : Speech) : String :=
  (match s.session with
    | some (id, .compact) => "SESSION_ID=" ++ id ++ " (returning from compact)\n"
    | some (id, .init) => "SESSION_ID=" ++ id ++ " (starting fresh)\n"
    | none => "") ++
  ((match s.team with
    | some team => "ATM team: " ++ team ++ "\n"
    | none => "") ++
  (match s.welcome with
    | some message => "Welcome: " ++ message ++ "\n"
    | none => ""))

/-- An object with a string at the key that is not blank and that trims to the other text. -/
def Given (input key t : String) : Prop :=
  ∃ v, Value.ofText? input = some v ∧ Hook.TextAt v [key] t

def of (payload : Value) (config : Option ProjectConfig) : Speech where
  session := (Hook.field? payload "session_id").map (·, .ofHook (Hook.field? payload "source"))
  team := config.bind (·.requiredTeam)
  welcome := config.bind (·.welcome)

variable {payload : Value} {config : Option ProjectConfig}

theorem announced_eq {i : Invocation} (hpayload : i.payload? = some payload) (config : Option ProjectConfig) :
    i.announced config = (of payload config).text := by
  have hgreeting : (config.map Invocation.greeting).getD "" =
      (match config.bind (·.requiredTeam) with
        | some team => "ATM team: " ++ team ++ "\n"
        | none => "") ++
      (match config.bind (·.welcome) with
        | some message => "Welcome: " ++ message ++ "\n"
        | none => "") := by
    cases config with
    | none => rfl
    | some config =>
      obtain ⟨team, identity, welcome, roles⟩ := config
      cases team <;> cases welcome <;> rfl
  unfold Invocation.announced text of
  simp only [hpayload, hgreeting]
  cases Hook.field? payload "session_id" with
  | none => rfl
  | some id => cases StartSource.ofHook (Hook.field? payload "source") <;> rfl

theorem given_iff (input key t : String) :
    Given input key t ↔ Hook.field? (Invocation.payloadOfText input) key = some t := by
  rw [Invocation.field?_payloadOfText, Option.bind_eq_some_iff]
  simp only [Hook.field?_eq_some_iff]
  rfl

theorem ofHook_field?_eq_compact_iff (v : Value) (key : String) :
    StartSource.ofHook (Hook.field? v key) = .compact ↔ Hook.field? v key = some "compact" := by
  cases hfield : Hook.field? v key with
  | none => exact iff_of_false nofun nofun
  | some t =>
    have htrim : Text.trim t = t :=
      ((Text.usable_eq_some_iff t t).mp ((Hook.field?_eq_some_iff v key t).mp hfield).usable).1
    rw [StartSource.ofHook, Option.map_some, htrim]
    split
    · rename_i h
      exact iff_of_true rfl h
    · rename_i h
      exact iff_of_false nofun h

theorem session_of_eq_some_iff (input : String) (config : Option ProjectConfig) (id : String) (source : StartSource) :
    (of (Invocation.payloadOfText input) config).session = some (id, source) ↔
      Given input "session_id" id ∧ (source = .compact ↔ Given input "source" "compact") := by
  rw [given_iff, given_iff, ← ofHook_field?_eq_compact_iff, of, Option.map_eq_some_iff]
  constructor
  · rintro ⟨id', hid, hsame⟩
    obtain ⟨rfl, rfl⟩ := Prod.mk.inj hsame
    exact ⟨hid, Iff.rfl⟩
  · rintro ⟨hid, hsource⟩
    refine ⟨id, hid, Prod.ext rfl ?_⟩
    generalize StartSource.ofHook _ = found at hsource ⊢
    cases source <;> cases found <;> simp_all

/-- The lines that were to be added to a file, and the file's path. -/
def attempts (deeds : List Responses.Deed) : List (String × ByteArray) :=
  deeds.filterMap Responses.Deed.append?

/-- A line that holds a session, how it starts and its team, null if there is none. -/
def Names (line id : String) (source : StartSource) (team : Option String) : Prop :=
  ∃ members, Tree.ofText? line = some (.object (Value.memberTrees members)) ∧ (members.map (·.1)).Nodup ∧
    Members.get? "session_id" members = some (.string id) ∧
    Members.get? "source" members = some (.string source.name) ∧
    Members.get? "team" members = some (Event.stringOrNull team)

theorem names_line {e : Event} {source : StartSource} (h : e.source = some source) :
    Names e.line e.sessionId source e.team := by
  refine ⟨e.fields, e.tree_line, e.nodup_keys_fields, ?_, ?_, ?_⟩
  · exact Event.get?_fields (by simp [Event.layout])
  · exact Event.get?_fields (by simp [Event.layout, h])
  · exact Event.get?_fields (by simp [Event.layout])

/-- What was said and what was to be logged, given the input and the config. -/
structure Agrees (i : Invocation) (input : String) (config : Option ProjectConfig) (deeds : List Responses.Deed)
    (s : Speech) : Prop where
  session : ∀ id source, s.session = some (id, source) ↔
    Given input "session_id" id ∧ (source = .compact ↔ Given input "source" "compact")
  team : s.team = config.bind (·.requiredTeam)
  welcome : s.welcome = config.bind (·.welcome)
  logged : ∀ home, i.home = .ok home → ∃ lines : List String,
    attempts deeds = lines.map (fun line => (Locations.eventLog home, (line ++ "\n").toUTF8)) ∧
    lines.length = (if s.session.isSome ∧ config.isSome then 1 else 0) ∧
    ∀ line ∈ lines, ∃ id source, s.session = some (id, source) ∧ Names line id source s.team
  homeless : (∀ home, i.home ≠ .ok home) → attempts deeds = []

theorem attempts_startDeeds (a : Responses) (i : Invocation) (root : String) (w : World) :
    attempts (a.startDeeds i root w) =
      (((a.config? i root w).bind (i.event? .sessionStart)).map fun e => attempts (Responses.relayDeeds i e)).getD [] := by
  have hrecord : attempts (i.sessionId?.map fun id => Responses.Deed.replace i.cache id.toUTF8).toList = [] := by
    cases i.sessionId? <;> rfl
  rw [Responses.startDeeds, attempts, List.filterMap_append, ← attempts, hrecord, List.nil_append]
  cases (a.config? i root w).bind (i.event? .sessionStart) <;> rfl

theorem attempts_relayDeeds {i : Invocation} {home : String} (hhome : i.home = .ok home) (e : Event) :
    attempts (Responses.relayDeeds i e) = [(Locations.eventLog home, (e.line ++ "\n").toUTF8)] := by
  simp only [Responses.relayDeeds, hhome]
  rfl

theorem attempts_of_homeless {i : Invocation} (h : ∀ home, i.home ≠ .ok home) (a : Responses) (root : String) (w : World) :
    attempts (a.startDeeds i root w) = [] := by
  rw [attempts_startDeeds]
  cases (a.config? i root w).bind (i.event? .sessionStart) with
  | none => rfl
  | some e =>
    rw [Option.map_some, Option.getD_some, Responses.relayDeeds]
    cases hhome : i.home with
    | ok home => exact absurd hhome (h home)
    | error => rfl

theorem agrees_startDeeds {i : Invocation} {input : String} (htext : String.fromUTF8? i.stdin = some input)
    (a : Responses) (root : String) (w : World) :
    Agrees i input (a.config? i root w) (a.startDeeds i root w)
      (of (Invocation.payloadOfText input) (a.config? i root w)) := by
  refine ⟨session_of_eq_some_iff input _, rfl, rfl, fun home hhome => ?_, fun h => attempts_of_homeless h a root w⟩
  have hpayload := Invocation.payload?_of_text htext
  have hsession := Invocation.sessionId?_eq hpayload
  simp only [attempts_startDeeds, attempts_relayDeeds hhome]
  cases hid : Hook.field? (Invocation.payloadOfText input) "session_id" with
  | none =>
    rw [hid] at hsession
    refine ⟨[], ?_, ?_, List.forall_mem_nil _⟩
    · simp only [Invocation.event?_of_sessionId?_eq_none hsession, Option.bind_fun_none]
      rfl
    · rw [of, hid]
      rfl
  | some id =>
    cases hconfig : a.config? i root w with
    | none =>
      refine ⟨[], rfl, ?_, List.forall_mem_nil _⟩
      rw [if_neg (by simp)]
      rfl
    | some config =>
      rw [Option.bind_some, Invocation.event?_eq hpayload hid]
      refine ⟨[(Invocation.configured config (Invocation.payloadOfText input)
        (.sessionStart id (.ofHook (Hook.field? (Invocation.payloadOfText input) "source")) i.now i.processId)).line],
        rfl, ?_, ?_⟩
      · rw [of, hid]
        rfl
      · intro line hline
        obtain rfl := List.mem_singleton.mp hline
        exact ⟨id, _, by rw [of, hid]; rfl, names_line rfl⟩

end Speech

namespace World

variable {w : World} {root cache : String}

theorem config?_recorded (hw : w.Grounded) (id : String) (h : ¬ w.Aliases cache (Locations.marker root)) :
    (w.recorded cache id).config? root = w.config? root := by
  rw [config?, text?_recorded hw.1 id h]
  rfl

/-- Recording an id elsewhere than at the marker leaves a config that was found before. -/
theorem config?_recorded_of_some (id : String) {config : ProjectConfig}
    (hne : FileSystem.target w.directory (Path.ofText cache) ≠
      FileSystem.target w.directory (Path.ofText (Locations.marker root)))
    (h : w.config? root = some config) : (w.recorded cache id).config? root = some config := by
  obtain ⟨text, htext, hconfig⟩ := Option.bind_eq_some_iff.mp h
  obtain ⟨bytes, hbytes, hutf⟩ := Option.bind_eq_some_iff.mp htext
  have hread : (w.recorded cache id).files.read? w.directory (Path.ofText (Locations.marker root)) = some bytes := by
    unfold recorded
    split
    · rw [files_replaced, FileSystem.replace]
      exact FileSystem.read?_write_of_read? rfl hne.symm hbytes
    · exact hbytes
  rw [config?, text?, directory_recorded, hread, Option.bind_some, hutf, Option.bind_some, hconfig]

end World

namespace Responses

/-- The start of a session ends well and says the id of its input and the team and the welcome of the config that it finds.
What it is to log says the same. Nothing but the input and that config has an influence on what is said, so a machine that
refuses every write hears the same; and the config is the one before the run, as long as the session cache does not alias
the marker. -/
theorem start_says_what_it_logs {i : Invocation} {r : Option String} {json : Bool} {input : String}
    (harguments : CommandLine.read (i.environment Invocation.rootVariable) i.arguments = .run ⟨r, json, .sessionStart⟩)
    (hinput : String.fromUTF8? i.stdin = some input) (w : World) :
    (∀ a : Responses, ∃ s : Speech, (a.watch i w).1 = ⟨0, s.text, ""⟩ ∧
      s.Agrees i input (a.config? i (r.getD "") w) (a.watch i w).2) ∧
    (∀ (a a' : Responses) (w' : World), a'.config? i (r.getD "") w' = a.config? i (r.getD "") w →
      (a'.watch i w').1 = (a.watch i w).1) ∧
    ((i.run : World.Run Outcome).run w).1 = (plain.watch i w).1 ∧
    (∀ config, w.config? (r.getD "") = some config →
      FileSystem.target w.directory (Path.ofText i.cache) ≠
        FileSystem.target w.directory (Path.ofText (Locations.marker (r.getD ""))) →
      plain.config? i (r.getD "") w = some config) ∧
    (w.Grounded → ¬ w.Aliases i.cache (Locations.marker (r.getD "")) →
      plain.config? i (r.getD "") w = w.config? (r.getD "") ∧
        ((i.run : World.Run Outcome).run w).1 = (refusing.watch i w).1) := by
  have hpayload := Invocation.payload?_of_text hinput
  have hsame : ∀ (a a' : Responses) (w' : World), a'.config? i (r.getD "") w' = a.config? i (r.getD "") w →
      (a'.watch i w').1 = (a.watch i w).1 := by
    intro a a' w' hconfig
    rw [watch_eq harguments hpayload, watch_eq harguments hpayload, hconfig]
  have hplain := watch_plain harguments hpayload w
  refine ⟨fun a => ?_, hsame, hplain.symm, ?_, ?_⟩
  · rw [watch_eq harguments hpayload]
    exact ⟨_, by rw [Speech.announced_eq hpayload], Speech.agrees_startDeeds hinput a _ w⟩
  · intro config hconfig hne
    rw [config?, recordedIn_plain, Invocation.recordedIn]
    cases i.sessionId? with
    | none => exact hconfig
    | some id => exact World.config?_recorded_of_some id hne hconfig
  · intro hw halias
    have hconfig : plain.config? i (r.getD "") w = w.config? (r.getD "") := by
      rw [config?, recordedIn_plain, Invocation.recordedIn]
      cases i.sessionId? with
      | none => rfl
      | some id => exact World.config?_recorded hw id halias
    refine ⟨hconfig, ?_⟩
    rw [← hplain]
    exact hsame refusing plain w (hconfig.trans (config?_refusing i _ w).symm)

def startedInput : String := "\x7b\"session_id\":\" s \",\"source\":\"compact\"\x7d"

def starting : Invocation :=
  { Invocation.ending startedInput with arguments := ["--root", "/p", "session-start"] }

/-- A session that goes on after its context was compacted, on a machine that takes nothing. -/
theorem start_says_what_it_logs_compacted :
    CommandLine.read (starting.environment Invocation.rootVariable) starting.arguments =
        .run ⟨some "/p", false, .sessionStart⟩ ∧
      String.fromUTF8? starting.stdin = some startedInput ∧
      (refusing.watch starting Invocation.orchestrated).1 =
        ⟨0, "SESSION_ID=s (returning from compact)\nATM team: t\n", ""⟩ ∧
      ∃ line, Speech.attempts (refusing.watch starting Invocation.orchestrated).2 =
          [(Locations.eventLog "/h", (line ++ "\n").toUTF8)] ∧
        Speech.Names line "s" .compact (some "t") := by
  have hread : CommandLine.read (starting.environment Invocation.rootVariable) starting.arguments =
      .run ⟨some "/p", false, .sessionStart⟩ := by decide +kernel
  have hinput : String.fromUTF8? starting.stdin = some startedInput := World.fromUTF8?_toUTF8 startedInput
  have hconfig : refusing.config? starting "/p" Invocation.orchestrated = some ⟨some "t", "a", none, []⟩ := by
    decide +kernel
  obtain ⟨hspoken, -⟩ := start_says_what_it_logs hread hinput Invocation.orchestrated
  obtain ⟨s, houtcome, hagrees⟩ := hspoken refusing
  rw [Option.getD_some, hconfig] at hagrees
  have hid : Speech.Given startedInput "session_id" "s" := (Speech.given_iff _ _ _).mpr (by decide +kernel)
  have hsource : Speech.Given startedInput "source" "compact" := (Speech.given_iff _ _ _).mpr (by decide +kernel)
  have hsession := (hagrees.session "s" .compact).mpr ⟨hid, iff_of_true rfl hsource⟩
  obtain ⟨lines, hattempts, hcount, hnames⟩ := hagrees.logged "/h" rfl
  have hboth : (s.session.isSome ∧ (some (⟨some "t", "a", none, []⟩ : ProjectConfig)).isSome) :=
    ⟨by rw [hsession]; rfl, rfl⟩
  rw [if_pos hboth] at hcount
  obtain ⟨line, rfl⟩ := List.length_eq_one_iff.mp hcount
  obtain ⟨id, source, hsame, hline⟩ := hnames line (List.mem_singleton_self line)
  obtain ⟨rfl, rfl⟩ := Prod.mk.inj (Option.some.inj (hsession.symm.trans hsame))
  have htext : s.text = "SESSION_ID=s (returning from compact)\nATM team: t\n" := by
    rw [Speech.text, hsession, hagrees.team, hagrees.welcome]
    rfl
  rw [hagrees.team] at hline
  rw [htext] at houtcome
  exact ⟨hread, hinput, houtcome, line, hattempts, hline⟩

end Responses

end SpawnGate
