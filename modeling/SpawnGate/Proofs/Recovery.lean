import SpawnGate.Proofs.Places
import SpawnGate.Proofs.Report
import SpawnGate.Proofs.SessionId
import SpawnGate.Proofs.Writes

/-!
The session cache over a whole history of hooks. It holds the id of the latest hook that was given one and could
write it, and a later process finds that id there.
-/

namespace SpawnGate

namespace World

def bytes? (w : World) (path : String) : Option ByteArray :=
  w.files.read? w.directory (Path.ofText path)

end World

/-- A run of the program on the machine that it finds. -/
structure Visit where
  found : World
  invocation : Invocation

namespace Visit

open Invocation

def left (v : Visit) : World :=
  ((v.invocation.run : World.Run Outcome).run v.found).2

/-- The id that a run stores: its input has one, and the cache can be written. -/
def stored? (v : Visit) : Option String :=
  v.invocation.givenId?.filter fun id =>
    (v.found.files.replace v.found.directory (Path.ofText v.invocation.cache) id.toUTF8).2

/-- A hook whose session cache is at a path that does not lead into the home's own directory. -/
structure Records (v : Visit) (cache : String) : Prop where
  hook : ∃ a, CommandLine.read (v.invocation.environment rootVariable) v.invocation.arguments = .run a ∧
    a.command.isHook = true
  cache_eq : v.invocation.cache = cache
  grounded : v.found.Grounded
  apart : ∀ home, v.invocation.home = .ok home →
    ¬ FileSystem.target v.found.directory (Path.ofText (Path.join home ".claude")) <+:
      FileSystem.target v.found.directory (Path.ofText cache)

variable {v : Visit} {cache : String}

theorem left_eq (h : v.Records cache) :
    ∃ a : Arguments, v.left = v.invocation.leftBehind a.command (a.root.getD "") v.found := by
  obtain ⟨a, harguments, hhook⟩ := h.hook
  exact ⟨a, run_hook harguments hhook v.found⟩

theorem directory_left (h : v.Records cache) : v.left.directory = v.found.directory := by
  obtain ⟨a, hleft⟩ := left_eq h
  rw [hleft, directory_leftBehind]

theorem target_ne_target_eventLog (h : v.Records cache) {home : String}
    (hhome : v.invocation.home = .ok home) :
    FileSystem.target v.found.directory (Path.ofText cache) ≠
      FileSystem.target v.found.directory (Path.ofText (Locations.eventLog home)) := by
  intro htarget
  have hinside := FileSystem.claude_prefix_target_eventLog v.found.directory home
  rw [← htarget] at hinside
  exact h.apart home hhome hinside

/-- A hook without an id leaves everything as it was. One with an id replaces the cache and then writes at most a log,
which lies elsewhere. -/
theorem left_cases (h : v.Records cache) :
    (v.invocation.givenId? = none ∧ v.left = v.found) ∨
      ∃ id fs, v.invocation.givenId? = some id ∧
        fs = (v.found.files.replace v.found.directory (Path.ofText cache) id.toUTF8).1 ∧
        (v.left.files = fs ∨ ∃ log bytes,
          FileSystem.target v.found.directory (Path.ofText cache) ≠ FileSystem.target v.found.directory log ∧
          v.left.files = (fs.append v.found.directory log bytes).1) := by
  obtain ⟨a, hleft⟩ := left_eq h
  rw [hleft]
  cases hid : v.invocation.givenId? with
  | none =>
    rw [← sessionId?_eq_givenId?] at hid
    exact .inl ⟨rfl, leftBehind_of_sessionId?_eq_none hid _ _ _⟩
  | some id =>
    have hrecorded : v.invocation.recordedIn v.found = v.found.replaced cache id.toUTF8 := by
      rw [recordedIn_eq_match, hid, h.cache_eq]
    refine .inr ⟨id, _, rfl, rfl, ?_⟩
    rw [files_leftBehind, hrecorded]
    cases hlogged : v.invocation.logged? a v.found with
    | none => exact .inl (World.files_replaced _ _ _)
    | some logged =>
      obtain ⟨home, hhome, hlog⟩ := eventLog_of_logged? hlogged
      have hfiles := World.files_appended (v.found.replaced cache id.toUTF8) logged.1 (logged.2.line ++ "\n").toUTF8
      rw [World.directory_replaced, World.files_replaced] at hfiles
      refine .inr ⟨_, _, ?_, hfiles⟩
      rw [hlog]
      exact target_ne_target_eventLog h hhome

theorem stored?_of_givenId? (h : v.Records cache) {id : String} (hid : v.invocation.givenId? = some id) :
    v.stored? =
      if (v.found.files.replace v.found.directory (Path.ofText cache) id.toUTF8).2 then some id else none := by
  rw [stored?, hid, h.cache_eq, Option.filter_some]

theorem bytes?_left_of_givenId? (h : v.Records cache) {id : String} (hid : v.invocation.givenId? = some id) :
    v.left.bytes? cache = (v.found.files.replace v.found.directory (Path.ofText cache) id.toUTF8).1.read?
      v.found.directory (Path.ofText cache) := by
  obtain ⟨htree, hstands⟩ := h.grounded
  rcases left_cases h with ⟨hno, -⟩ | ⟨id', fs, hid', hfs, hfiles⟩
  · rw [hno] at hid
    cases hid
  · obtain rfl : id = id' := Option.some.inj (hid.symm.trans hid')
    rw [World.bytes?, directory_left h, ← hfs]
    rcases hfiles with hfiles | ⟨log, bytes, hne, hfiles⟩
    · rw [hfiles]
    · rw [hfiles, hfs, FileSystem.append, FileSystem.read?_write_replace htree hstands _ rfl hne]

theorem left_of_no_givenId? (h : v.Records cache) (hid : v.invocation.givenId? = none) : v.left = v.found := by
  rcases left_cases h with ⟨-, hleft⟩ | ⟨id, fs, hid', -⟩
  · exact hleft
  · rw [hid'] at hid
    cases hid

theorem replace_of_stored? (h : v.Records cache) {id : String} (hstored : v.stored? = some id) :
    v.invocation.givenId? = some id ∧
      (v.found.files.replace v.found.directory (Path.ofText cache) id.toUTF8).2 = true := by
  obtain ⟨hid, hdone⟩ := Option.filter_eq_some_iff.mp hstored
  rw [h.cache_eq] at hdone
  exact ⟨hid, hdone⟩

theorem replace_of_not_stored? (h : v.Records cache) {id : String} (hid : v.invocation.givenId? = some id)
    (hstored : v.stored? = none) :
    (v.found.files.replace v.found.directory (Path.ofText cache) id.toUTF8).2 = false := by
  rw [← Bool.not_eq_true]
  intro hdone
  rw [stored?_of_givenId? h hid, if_pos hdone] at hstored
  cases hstored

theorem bytes?_left_of_stored? (h : v.Records cache) {id : String} (hstored : v.stored? = some id) :
    v.left.bytes? cache = some id.toUTF8 := by
  obtain ⟨hid, hdone⟩ := replace_of_stored? h hstored
  rw [bytes?_left_of_givenId? h hid, FileSystem.read?_of_replace hdone]

/-- A hook that cannot write its id brings no other file within reach of the cache's path: it has none, or there is room
for a new file, or the path does not leave a directory again that is missing. -/
def Steady (v : Visit) (cache : String) : Prop :=
  v.invocation.givenId? = none ∨ FileSystem.hasRoom v.found.directory (Path.ofText cache) = true ∨
    v.found.files.Settled v.found.directory (Path.ofText cache)

instance (v : Visit) (cache : String) : Decidable (v.Steady cache) := by
  unfold Steady; infer_instance

theorem bytes?_left (h : v.Records cache) (hsteady : v.Steady cache) :
    v.left.bytes? cache = (v.stored?.map String.toUTF8).or (v.found.bytes? cache) := by
  obtain ⟨htree, hstands⟩ := h.grounded
  cases hid : v.invocation.givenId? with
  | none =>
    rw [left_of_no_givenId? h hid, stored?, hid]
    rfl
  | some id =>
    cases hstored : v.stored? with
    | some stored => rw [bytes?_left_of_stored? h hstored, Option.map_some, Option.some_or]
    | none =>
      rw [bytes?_left_of_givenId? h hid, Option.map_none, Option.none_or]
      have hreach := hsteady.resolve_left (hid ▸ Option.some_ne_none id)
      exact FileSystem.read?_of_replace_fails htree hstands hreach (replace_of_not_stored? h hid hstored)

/-- The hook had an id that it could not write, and no later one can write it either: something is in the way, or there
is no room for a new file. -/
theorem blocked_or_open_left (h : v.Records cache) {id : String} (hid : v.invocation.givenId? = some id)
    (hstored : v.stored? = none) : FileSystem.Blocked v.left.files v.left.directory (Path.ofText cache) ∨
      FileSystem.hasRoom v.left.directory (Path.ofText cache) = false ∧
        ∀ d ∈ FileSystem.parentWay v.left.directory (Path.ofText cache), v.left.files.find? d = some .directory := by
  have hfails := FileSystem.blocked_or_open_of_replace_fails (replace_of_not_stored? h hid hstored)
  rw [directory_left h]
  rcases left_cases h with ⟨hno, -⟩ | ⟨id', fs, hid', hfs, hfiles⟩
  · rw [hno] at hid
    cases hid
  · obtain rfl : id = id' := Option.some.inj (hid.symm.trans hid')
    rw [← hfs] at hfails
    rcases hfiles with hfiles | ⟨log, bytes, -, hfiles⟩
    · rw [hfiles]
      exact hfails
    · rw [hfiles]
      refine hfails.imp (fun hblocked => hblocked.write rfl) fun ⟨hroom, hway⟩ => ⟨hroom, fun d hd => ?_⟩
      exact FileSystem.find?_directory_write fs v.found.directory log rfl (hway d hd)

/-- Running a hook once more with the id that the one before it had leaves the cache as it was. -/
theorem bytes?_left_again {v' : Visit} (h : v.Records cache) (h' : v'.Records cache) (hfound : v'.found = v.left)
    (hid : v'.invocation.givenId? = v.invocation.givenId?) : v'.left.bytes? cache = v.left.bytes? cache := by
  cases hgiven : v.invocation.givenId? with
  | none => rw [left_of_no_givenId? h' (hid.trans hgiven), hfound]
  | some id =>
    have hgiven' := hid.trans hgiven
    cases hstored : v.stored? with
    | some stored =>
      obtain ⟨hstoredId, hdone⟩ := replace_of_stored? h hstored
      obtain rfl : id = stored := Option.some.inj (hgiven.symm.trans hstoredId)
      have hsteady : v'.Steady cache := by
        rw [Steady, hfound, directory_left h]
        exact .inr (.inl (FileSystem.hasRoom_of_replace hdone))
      rw [bytes?_left h' hsteady, hfound, bytes?_left_of_stored? h hstored]
      cases hstored' : v'.stored? with
      | none => rfl
      | some id' =>
        obtain rfl : id = id' := Option.some.inj (hgiven'.symm.trans (replace_of_stored? h' hstored').1)
        rfl
    | none =>
      -- What kept the first hook from the cache still stands there, so the second cannot store the id either.
      rcases blocked_or_open_left h hgiven hstored with hblocked | ⟨hroom, hway⟩
      · rw [← hfound] at hblocked
        rw [bytes?_left_of_givenId? h' hgiven', hblocked.read?_replace h'.grounded.1 h'.grounded.2, World.bytes?,
          ← hfound]
      · rw [← hfound] at hroom hway
        have hnone : v'.stored? = none := by
          rw [Option.eq_none_iff_forall_ne_some]
          intro id' hstored'
          rw [FileSystem.hasRoom_of_replace (replace_of_stored? h' hstored').2] at hroom
          cases hroom
        rw [bytes?_left h' (.inr (.inr (FileSystem.settled_of_open hway))), hnone, hfound]
        rfl

end Visit

/-- Hooks one after another, from one machine to another. What happens between them changes nothing that is read at the
cache. -/
inductive History (cache : String) : World → List Visit → World → Prop
  | nil {w w'} : w'.bytes? cache = w.bytes? cache → History cache w [] w'
  | cons {w v visits w'} : v.found.bytes? cache = w.bytes? cache → v.Records cache → v.Steady cache →
      History cache v.left visits w' → History cache w (v :: visits) w'

namespace History

variable {cache : String} {w w' : World} {visits : List Visit}

/-- The cache holds the id of the latest hook that stored one. -/
theorem bytes?_eq (h : History cache w visits w') :
    w'.bytes? cache = ((visits.filterMap Visit.stored?).getLast?.map String.toUTF8).or (w.bytes? cache) := by
  -- The cache at the start changes from hook to hook, and the ids stored later win over it.
  induction h with
  | nil hsame => exact hsame
  | @cons w v visits w' hsame hrecords hsteady _ ih =>
    rw [ih, Visit.bytes?_left hrecords hsteady, hsame]
    cases hstored : v.stored? with
    | none => rw [List.filterMap_cons_none hstored, Option.map_none, Option.none_or]
    | some id =>
      rw [List.filterMap_cons_some hstored, List.getLast?_cons]
      cases (visits.filterMap Visit.stored?).getLast? with
      | none => rfl
      | some last => rfl

theorem usable_text? (h : History cache w visits w') :
    (w'.text? cache).bind Text.usable =
      (visits.filterMap Visit.stored?).getLast?.or ((w.text? cache).bind Text.usable) := by
  have hbytes := h.bytes?_eq
  cases hlast : (visits.filterMap Visit.stored?).getLast? with
  | none =>
    rw [hlast, Option.map_none, Option.none_or] at hbytes
    have htext : w'.text? cache = w.text? cache := congrArg (·.bind String.fromUTF8?) hbytes
    rw [htext, Option.none_or]
  | some id =>
    rw [hlast, Option.map_some, Option.some_or] at hbytes
    obtain ⟨v, -, hstored⟩ := List.mem_filterMap.mp (List.mem_of_getLast? hlast)
    have husable := Invocation.usable_of_givenId? (Option.filter_eq_some_iff.mp hstored).1
    have htext : w'.text? cache = String.fromUTF8? id.toUTF8 := congrArg (·.bind String.fromUTF8?) hbytes
    rw [htext, World.fromUTF8?_toUTF8, Option.bind_some, husable, Option.some_or]

end History

namespace Invocation

open Json

def holding (text : String) : World where
  files := ⟨[(["c"], .file text.toUTF8)]⟩
  directory := []
  sent := []

def cachedAt : Environment := fun name =>
  if name = "ATM_PROJECT_ROOT" then some "/p"
  else if name = "ATM_SESSION_FILE" then some "/c"
  else if name = "ATM_HOME" then some "/h" else none

def hooked (command stdin : String) : Invocation where
  arguments := [command]
  environment := cachedAt
  stdin := stdin.toUTF8
  now := ⟨⟨2024, 1, 2⟩, 0, 0⟩
  processId := 1
  requestId := "r"

def shown : Invocation :=
  { hooked "session" "" with arguments := ["session", "show", "--json"] }

theorem records_hooked {command stdin text : String} (hhook : ∃ a, CommandLine.read
    ((hooked command stdin).environment rootVariable) [command] = .run a ∧ a.command.isHook = true) :
    (Visit.mk (holding text) (hooked command stdin)).Records "/c" := by
  have hcache : Locations.sessionCache cachedAt = "/c" := by decide +kernel
  have hset : Locations.home cachedAt = .ok "/h" := by decide +kernel
  have hout : ¬ FileSystem.target [] (Path.ofText (Path.join "/h" ".claude")) <+:
      FileSystem.target [] (Path.ofText "/c") := by decide +kernel
  refine ⟨hhook, hcache, ⟨FileSystem.isTree_of_entries (by simp [holding, FileSystem.find?]), rfl⟩, ?_⟩
  intro home hhome
  obtain rfl : "/h" = home := Except.ok.inj (hset.symm.trans hhome)
  exact hout

def gateThenEnd : List Visit :=
  [⟨holding "old", hooked "gate" "\x7b\"session_id\":\" a \"\x7d"⟩, ⟨holding "a", hooked "session-end" "a"⟩]

def cachedFar : Environment := fun name =>
  if name = "ATM_SESSION_FILE" then some (Path.detour 2042) else cachedAt name

def endingFar : Visit where
  found := ⟨FileSystem.shelved, [], []⟩
  invocation := { hooked "session-end" "\x7b\"session_id\":\"s\"\x7d" with environment := cachedFar }

def shownFar : Invocation :=
  { endingFar.invocation with arguments := ["session", "show"] }

theorem sessionCache_cachedFar : Locations.sessionCache cachedFar = Path.detour 2042 := by
  have hne : Path.detour 2042 ≠ "" := by
    intro hempty
    have hlist := congrArg String.toList hempty
    rw [Path.detour, String.toList_ofList] at hlist
    cases hlist
  have hset : cachedFar "ATM_SESSION_FILE" = some (Path.detour 2042) := if_pos rfl
  have hkept : decide (Path.detour 2042 ≠ "") = true := decide_eq_true hne
  rw [Locations.sessionCache, Locations.nonEmpty, hset, Option.filter_some, if_pos hkept]
  rfl

theorem records_endingFar : endingFar.Records (Path.detour 2042) := by
  have hset : endingFar.invocation.home = .ok "/h" := by decide +kernel
  have hout : ¬ FileSystem.target [] (Path.ofText (Path.join "/h" ".claude")) <+:
      FileSystem.target [] FileSystem.farPath := by
    rw [FileSystem.farPath, Path.ofText_detour]
    decide +kernel
  refine ⟨⟨_, rfl, rfl⟩, sessionCache_cachedFar, ⟨FileSystem.shelved_isTree, rfl⟩, ?_⟩
  intro home hhome
  obtain rfl : "/h" = home := Except.ok.inj (hset.symm.trans hhome)
  exact hout

end Invocation

end SpawnGate
