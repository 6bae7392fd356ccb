import SpawnGate.Proofs.Differing
import SpawnGate.Proofs.Json.Padding
import SpawnGate.Proofs.Places
import SpawnGate.Proofs.SessionId
import SpawnGate.Proofs.Spawn.Entry
import SpawnGate.Proofs.Spawn.Roles
import SpawnGate.Proofs.Spawn.Unread

/-!
White space around the strings that a gate compares. The input, the marker and the registry may each have some: the gate
decides the same, says the same and leaves the same session cache.
-/

namespace SpawnGate

open Json Toml Hook FileSystem

namespace Hook

theorem textIn?_of_padsAt {path : List String} {t t' : Tree} (h : Tree.PadsAt path t t') (q : List String) :
    textIn? q t = textIn? q t' := by
  induction path generalizing t t' q with
  | nil =>
    obtain ⟨r, r', hr, hr', hpadded⟩ := h
    cases q with
    | nil => rw [textIn?, textIn?, hr, hr', Option.bind_some, Option.bind_some, hpadded.usable_eq]
    | cons k q =>
      obtain ⟨symbols, rfl, -⟩ := Tree.eq_string_of_string? hr
      obtain ⟨symbols', rfl, -⟩ := Tree.eq_string_of_string? hr'
      rfl
  | cons k path ih =>
    obtain ⟨members, members', rfl, rfl, hmembers⟩ := h
    cases q with
    | nil => rfl
    | cons k' q =>
      rw [textIn?, textIn?, Tree.get?_object, Tree.get?_object]
      rcases Tree.member?_alongside hmembers k' with hsame | ⟨u, u', hu, hu', hpads⟩
      · rw [hsame]
      · rw [hu, hu', Option.bind_some, Option.bind_some, ih hpads q]

end Hook

namespace SpawnRequest

theorem ofTree_of_padsAt {path : List String} {t t' : Tree} (h : Tree.PadsAt path t t') : ofTree t = ofTree t' := by
  simp only [ofTree, textIn?_of_padsAt h]

theorem readable_and_ofTree_of_pads {t t' : Tree} (h : t.Pads t') (room : Nat) :
    (t.ReadableWithin room ↔ t'.ReadableWithin room) ∧ ofTree t = ofTree t' := by
  induction h with
  | refl => exact ⟨Iff.rfl, rfl⟩
  | tail _ hlast ih =>
    obtain ⟨path, hpath⟩ := hlast
    exact ⟨ih.1.trans (hpath.readableWithin_iff room), ih.2.trans (ofTree_of_padsAt hpath)⟩

theorem ofText?_of_pads {s s' : String} {members members' : List (List Symbol × Tree)}
    (hs : (Tree.object members).Written s.toList) (hs' : (Tree.object members').Written s'.toList)
    (h : (Tree.object members).Pads (.object members')) : ofText? s = ofText? s' := by
  obtain ⟨hreadable, hsame⟩ := readable_and_ofTree_of_pads h Value.greatestDepth
  rw [ofText?_of_written hs, ofText?_of_written hs', hsame]
  simp only [hreadable]

end SpawnRequest

namespace Registry

/-- The lead in a registry entry, by its name or in its place, with white space around it. -/
inductive EntryPads : Tree → Tree → Prop
  | named {t t'} : Tree.PadsAt [leadField] t t' → EntryPads t t'
  | placed {t t'} : Tree.PadsAt [] t t' → EntryPads (.array [t]) (.array [t'])

def EntryTextPads (s s' : String) : Prop :=
  ∃ t t' : Tree, t.Written s.toList ∧ t'.Written s'.toList ∧ EntryPads t t'

theorem leadOfSlots_padded {t t' : Tree} (h : Tree.PadsAt [] t t') (team : String) :
    leadOfSlots team (some [.given t]) = leadOfSlots team (some [.given t']) := by
  obtain ⟨r, r', hr, hr', hpadded⟩ := h
  rw [leadOfSlots_given hr, leadOfSlots_given hr', hpadded.usable_eq]

theorem leadOfEntry_of_pads {s s' : String} (h : EntryTextPads s s') (team : String) :
    leadOfEntry team s = leadOfEntry team s' := by
  obtain ⟨t, t', hs, hs', hpads⟩ := h
  rw [leadOfEntry_eq, leadOfEntry_eq, (Tree.ofText?_eq_some_iff s t).mpr hs, (Tree.ofText?_eq_some_iff s' t').mpr hs',
    Option.bind_some, Option.bind_some]
  cases hpads with
  | placed hplaced => exact leadOfSlots_padded hplaced team
  | named hnamed =>
    obtain ⟨members, members', rfl, rfl, hmembers⟩ := hnamed
    rw [slots?_object, slots?_object]
    rcases Tree.namedMembers?_alongside hmembers with ⟨hnone, hnone'⟩ | ⟨named, named', hsome, hsome', halongside⟩
    · rw [hnone, hnone']
    · rw [hsome, hsome', Option.bind_some, Option.bind_some]
      rcases Tree.namedSlot?_alongside halongside leadField with hsame | ⟨u, u', hu, hu', hlead⟩
      · rw [hsame]
      · rw [hu, hu']
        exact leadOfSlots_padded hlead team

end Registry

namespace CoreSection

def NodePads (n n' : Node) : Prop :=
  ∃ r r', string? n = some r ∧ string? n' = some r' ∧ Text.Padded r r'

/-- The team in a `core` section, by its name or in its place, with white space around it. -/
inductive CorePads : Node → Node → Prop
  | named {origin es es'} : Alongside (· = "default_team") NodePads es es' →
      CorePads (.table origin es) (.table origin es')
  | placed {n n' items} : NodePads n n' → CorePads (.array (n :: items)) (.array (n' :: items))

/-- The team of a document's `core` section with white space around it. -/
def RootPads : Entries → Entries → Prop :=
  Alongside (· = "core") CorePads

theorem get?_alongside {k : String} {R : Node → Node → Prop} {es es' : Entries} (h : Alongside (· = k) R es es')
    (k' : String) :
    Entries.get? k' es = Entries.get? k' es' ∨
      k' = k ∧ ∃ n n', Entries.get? k' es = some n ∧ Entries.get? k' es' = some n' ∧ R n n' := by
  unfold Entries.get?
  induction h with
  | nil => exact .inl rfl
  | @cons m m' r r' hm _ ih =>
    obtain ⟨hkey, hvalue⟩ := hm
    rw [List.find?_cons, List.find?_cons, hkey]
    by_cases hk : m'.1 = k'
    · rw [decide_eq_true hk]
      rcases hvalue with heq | ⟨hat, hR⟩
      · exact .inl (by simp only [Option.map_some, heq])
      · exact .inr ⟨by rw [← hk, ← hkey, hat], m.2, m'.2, rfl, rfl, hR⟩
    · rw [decide_eq_false hk]
      exact ih

theorem get?_eq_of_ne {k k' : String} {R : Node → Node → Prop} {es es' : Entries} (h : Alongside (· = k) R es es')
    (hne : k' ≠ k) : Entries.get? k' es = Entries.get? k' es' :=
  (get?_alongside h k').resolve_right fun hat => hne hat.1

theorem othersReadable_alongside {k : String} {R : Node → Node → Prop} {es es' : Entries}
    (h : Alongside (· = k) R es es') {known : List String} (hk : k ∈ known) :
    othersReadable known es = othersReadable known es' := by
  have hothers := (h.filter fun key => !known.contains key).eq_of_forall_not fun m hm hkey => by
    have hunknown := (List.mem_filter.mp hm).2
    rw [hkey, Bool.not_eq_true', List.contains_eq_mem, decide_eq_false_iff_not] at hunknown
    exact hunknown hk
  rw [othersReadable, othersReadable, hothers]

theorem map_ofFields?_padded {n n' : Node} (h : NodePads n n') (identity welcome roles : Option Node) :
    (ofFields? (some n) identity welcome roles).map ProjectConfig.ofCore =
      (ofFields? (some n') identity welcome roles).map ProjectConfig.ofCore := by
  obtain ⟨r, r', hr, hr', hpadded⟩ := h
  simp only [ofFields?, field?, hr, hr', Option.map_eq_map, Option.map_some, Option.bind_eq_bind, Option.bind_some,
    Option.map_bind, Option.pure_def, Function.comp_def, ProjectConfig.ofCore, hpadded.usable_eq]

theorem map_ofNode?_padded {n n' : Node} (h : CorePads n n') :
    (ofNode? n).map ProjectConfig.ofCore = (ofNode? n').map ProjectConfig.ofCore := by
  cases h with
  | placed hplaced => exact map_ofFields?_padded hplaced _ _ _
  | named hnamed =>
    rw [ofNode?, ofNode?, othersReadable_alongside hnamed (by decide),
      get?_eq_of_ne hnamed (by decide : "identity" ≠ _), get?_eq_of_ne hnamed (by decide : "welcome-message" ≠ _),
      get?_eq_of_ne hnamed (by decide : "orchestrator-roles" ≠ _)]
    split
    · rcases get?_alongside hnamed "default_team" with hsame | ⟨-, u, u', hu, hu', hpads⟩
      · rw [hsame]
      · rw [hu, hu', map_ofFields?_padded hpads]
    · rfl

theorem map_ofDocument?_padded {root root' : Entries} (h : RootPads root root') :
    (ofDocument? root).map ProjectConfig.ofCore = (ofDocument? root').map ProjectConfig.ofCore := by
  rw [ofDocument?, ofDocument?, othersReadable_alongside h (by decide)]
  split
  · rcases get?_alongside h "core" with hsame | ⟨-, n, n', hn, hn', hpads⟩
    · rw [hsame]
    · rw [hn, hn']
      exact map_ofNode?_padded hpads
  · rfl

end CoreSection

namespace ProjectConfig

def MarkerPads (s s' : String) : Prop :=
  ∃ root root', Document.ofText? s = some root ∧ Document.ofText? s' = some root' ∧ CoreSection.RootPads root root'

theorem ofText?_of_pads {s s' : String} (h : MarkerPads s s') : ofText? s = ofText? s' := by
  obtain ⟨root, root', hs, hs', hpads⟩ := h
  rw [ofText?_eq, ofText?_eq, hs, hs', Option.bind_some, Option.bind_some, CoreSection.map_ofDocument?_padded hpads]

end ProjectConfig

namespace Invocation

/-- A file before and after white space was put around what it names: a project's marker or a team's registry entry. -/
inductive FilePads (i : Invocation) (root : String) (current l : Location) (bytes bytes' : ByteArray) : Prop
  | marker {s s'} : l = target current (Path.ofText (Locations.marker root)) →
      String.fromUTF8? bytes = some s → String.fromUTF8? bytes' = some s' → ProjectConfig.MarkerPads s s' →
      FilePads i root current l bytes bytes'
  | entry {s s' home team} : i.home = .ok home → Locations.isTeamName team = true →
      l = target current (Path.ofText (Locations.teamConfig home team)) →
      String.fromUTF8? bytes = some s → String.fromUTF8? bytes' = some s' → Registry.EntryTextPads s s' →
      FilePads i root current l bytes bytes'

theorem target_marker_ne_teamConfig (current : Location) (root home : String) {team : String}
    (hteam : Locations.isTeamName team = true) :
    target current (Path.ofText (Locations.marker root)) ≠
      target current (Path.ofText (Locations.teamConfig home team)) := by
  intro h
  have hlast := congrArg List.getLast? h
  rw [target_marker, target_teamConfig current home hteam, List.getLast?_append, List.getLast?_append] at hlast
  exact absurd hlast (by simp)

theorem givenId?_given_congr (i : Invocation) {s s' : String} (h : SpawnRequest.ofText? s = SpawnRequest.ofText? s') :
    (i.given s).givenId? = (i.given s').givenId? := by
  have hs := request_given i s
  have hs' := (request_given i s').trans h.symm
  cases hrequest : SpawnRequest.ofText? s with
  | none =>
    rw [hrequest] at hs hs'
    rw [givenId?_of_no_request hs, givenId?_of_no_request hs']
  | some r =>
    rw [hrequest] at hs hs'
    rw [← usable_callerId hs, usable_callerId hs']

section Machines

variable {i : Invocation} {root : String} {w w' : World} {R : Location → ByteArray → ByteArray → Prop}
  (hdirectory : w.directory = w'.directory) (hfiles : Differ R w.files w'.files)
  (hR : ∀ {l bytes bytes'}, R l bytes bytes' → i.FilePads root w.directory l bytes bytes')
include hdirectory hfiles

theorem differ_replaced (path : String) (bytes : ByteArray) :
    (w.files.replace w.directory (Path.ofText path) bytes).2 =
        (w'.files.replace w'.directory (Path.ofText path) bytes).2 ∧
      Differ R (w.replaced path bytes).files (w'.replaced path bytes).files := by
  rw [World.files_replaced, World.files_replaced, ← hdirectory]
  refine hfiles.write (uniform_replacement _ bytes bytes) ?_
  intro e e' new new' hnew hnew'
  exact .inl ((eq_of_replacement hnew).2.trans (eq_of_replacement hnew').2.symm)

theorem differ_recorded (cache id : String) :
    Differ R (w.recorded cache id).files (w'.recorded cache id).files := by
  unfold World.recorded
  cases Text.usable id with
  | none => exact hfiles
  | some id => exact (differ_replaced hdirectory hfiles cache id.toUTF8).2

include hR

theorem config?_of_padded : w.config? root = w'.config? root := by
  unfold World.config? World.text?
  rw [← hdirectory]
  rcases hfiles.read? w.directory (Path.ofText (Locations.marker root)) with hsame | ⟨old, new, hold, hnew, hpads⟩
  · rw [hsame]
  · rw [hold, hnew, Option.bind_some, Option.bind_some]
    cases hR hpads with
    | marker _ hs hs' hmarker => rw [hs, hs', Option.bind_some, Option.bind_some, ProjectConfig.ofText?_of_pads hmarker]
    | entry _ hteam htarget => exact absurd htarget (target_marker_ne_teamConfig _ _ _ hteam)

theorem leadIn_of_padded : i.leadIn w = i.leadIn w' := by
  funext team
  unfold leadIn
  cases hhome : i.home with
  | error => rfl
  | ok home =>
    cases hteam : (Text.usable team).filter Locations.isTeamName with
    | none => rfl
    | some name =>
      have hname := (Option.filter_eq_some_iff.mp hteam).2
      simp only [Option.bind_some]
      unfold World.text?
      rw [← hdirectory]
      rcases hfiles.read? w.directory (Path.ofText (Locations.teamConfig home name)) with
        hsame | ⟨old, new, hold, hnew, hpads⟩
      · rw [hsame]
      · rw [hold, hnew, Option.bind_some, Option.bind_some]
        cases hR hpads with
        | marker htarget => exact absurd htarget.symm (target_marker_ne_teamConfig _ _ _ hname)
        | entry _ _ _ hs hs' hentry =>
          rw [hs, hs', Option.bind_some, Option.bind_some, Registry.leadOfEntry_of_pads hentry]

theorem run_gate_of_padded {s s' : String} (hrequest : SpawnRequest.ofText? s = SpawnRequest.ofText? s') :
    (((i.given s).gate root : World.Run Outcome).run w).1 = (((i.given s').gate root : World.Run Outcome).run w').1 ∧
      Differ R (((i.given s).gate root : World.Run Outcome).run w).2.files
        (((i.given s').gate root : World.Run Outcome).run w').2.files := by
  rw [← gate_given i hrequest]
  cases hr : SpawnRequest.ofText? s with
  | none =>
    have hnone := (request_given i s).trans hr
    rw [run_gate_of_none root w hnone, run_gate_of_none root w' hnone]
    exact ⟨rfl, hfiles⟩
  | some r =>
    have hsome := (request_given i s).trans hr
    have hrecorded := differ_recorded hdirectory hfiles i.cache r.callerId
    have hplace : (w.recorded i.cache r.callerId).directory = (w'.recorded i.cache r.callerId).directory := by
      rw [World.directory_recorded, World.directory_recorded, hdirectory]
    have hpads {l bytes bytes'} (h : R l bytes bytes') :
        i.FilePads root (w.recorded i.cache r.callerId).directory l bytes bytes' := by
      rw [World.directory_recorded]
      exact hR h
    have hconfig : (w.recorded i.cache r.callerId).config? root = (w'.recorded i.cache r.callerId).config? root :=
      config?_of_padded hplace hrecorded hpads
    have hleads : i.leadIn (w.recorded i.cache r.callerId) = i.leadIn (w'.recorded i.cache r.callerId) :=
      leadIn_of_padded hplace hrecorded hpads
    have hrun (w : World) : ((i.given s).gate root : World.Run Outcome).run w =
        (outcomeOf (Policy.decide (i.leadIn (w.recorded i.cache r.callerId))
          ((w.recorded i.cache r.callerId).config? root) r), w.recorded i.cache r.callerId) :=
      run_gate_of_some root w hsome
    rw [hrun, hrun, hleads, hconfig]
    exact ⟨rfl, hrecorded⟩

end Machines

theorem text?_replaced_of_done {w : World} {path id : String}
    (h : (w.files.replace w.directory (Path.ofText path) id.toUTF8).2 = true) :
    (w.replaced path id.toUTF8).text? path = some id := by
  obtain ⟨bytes, hbytes, -, hread⟩ := read?_of_write rfl h
  obtain ⟨-, rfl⟩ := eq_of_replacement hbytes
  apply World.text?_of_read?
  rw [World.directory_replaced]
  exact hread

theorem run_eq_gate {i : Invocation} {a : Arguments}
    (harguments : CommandLine.read (i.environment rootVariable) i.arguments = .run a) (hgate : a.command = .gate)
    (s : String) : ((i.given s).run : World.Run Outcome) = (i.given s).gate (a.root.getD "") := by
  have hread : CommandLine.read ((i.given s).environment rootVariable) (i.given s).arguments = .run a := harguments
  simp only [run, hread, perform, hgate]

/-- White space around the strings of the input, the team of the marker and the leads of the registry changes nothing of
what a gate says and returns, and nothing of what the session cache holds after it. Only a cache that is itself one of
those files is another one before the run; it, too, holds the id once that was recorded. -/
theorem gate_ignores_padding {i : Invocation} {a : Arguments}
    (harguments : CommandLine.read (i.environment rootVariable) i.arguments = .run a) (hgate : a.command = .gate)
    {s s' : String} {members members' : List (List Symbol × Tree)} (hs : (Tree.object members).Written s.toList)
    (hs' : (Tree.object members').Written s'.toList) (hinput : (Tree.object members).Pads (.object members'))
    {w w' : World} (hdirectory : w.directory = w'.directory)
    (hfiles : Differ (i.FilePads (a.root.getD "") w.directory) w.files w'.files) :
    let after := ((i.given s).run : World.Run Outcome).run w
    let after' := ((i.given s').run : World.Run Outcome).run w'
    after.1 = after'.1 ∧
      (w.files.find? (target w.directory (Path.ofText i.cache)) =
          w'.files.find? (target w.directory (Path.ofText i.cache)) →
        after.2.files.read? w.directory (Path.ofText i.cache) =
          after'.2.files.read? w.directory (Path.ofText i.cache)) ∧
      ∀ id, (i.given s).givenId? = some id →
        (w.files.replace w.directory (Path.ofText i.cache) id.toUTF8).2 = true →
        after.2.text? i.cache = some id ∧ after'.2.text? i.cache = some id := by
  have hrequest := SpawnRequest.ofText?_of_pads hs hs' hinput
  rw [run_eq_gate harguments hgate, run_eq_gate harguments hgate]
  obtain ⟨houtcome, hdiffer⟩ := run_gate_of_padded hdirectory hfiles.restrict And.left hrequest
  refine ⟨houtcome, ?_, ?_⟩
  · intro hbefore
    -- Where the machines were the same before, nothing may differ after either.
    apply hdiffer.read?_eq_of_find?
    rcases hdiffer (target w.directory (Path.ofText i.cache)) with hsame | ⟨_, _, -, -, -, hno⟩
    · exact hsame
    · exact absurd hbefore hno
  · intro id hid hdone
    have hid' : (i.given s').givenId? = some id := (givenId?_given_congr i hrequest).symm.trans hid
    have hdone' := (differ_replaced hdirectory hfiles i.cache id.toUTF8).1.symm.trans hdone
    rw [run_gate, run_gate, recordedIn_eq_match, recordedIn_eq_match, hid, hid']
    exact ⟨text?_replaced_of_done hdone, text?_replaced_of_done hdone'⟩

def joiningMembers (caller team : String) : List (List Symbol × Tree) :=
  [(symbolsOf "session_id", .string (symbolsOf caller)),
    (symbolsOf "tool_input",
      .object [(symbolsOf "name", .string (symbolsOf "n")), (symbolsOf "team_name", .string (symbolsOf team))])]

def joiningText (caller team : String) : String :=
  "\x7b\"session_id\":\"" ++ caller ++ "\",\"tool_input\":\x7b\"name\":\"n\",\"team_name\":\"" ++ team ++ "\"\x7d\x7d"

theorem pads_joiningMembers :
    (Tree.object (joiningMembers "s" "t")).Pads
      (.object (joiningMembers "\ts\u3000" " t")) := by
  have hcaller : Tree.PadsAt [] (.string (symbolsOf "s")) (.string (symbolsOf "\ts\u3000")) :=
    ⟨"s", "\ts\u3000", text?_symbolsOf _, text?_symbolsOf _, ['\t'], ['\u3000'], by decide, by decide, by decide⟩
  have hteam : Tree.PadsAt [] (.string (symbolsOf "t")) (.string (symbolsOf " t")) :=
    ⟨"t", " t", text?_symbolsOf _, text?_symbolsOf _, [' '], [], by decide, by decide, by decide⟩
  have hfirst : Tree.PadsAt ["session_id"] (.object (joiningMembers "s" "t"))
      (.object (joiningMembers "\ts\u3000" "t")) :=
    ⟨_, _, rfl, rfl, .cons ⟨rfl, .inr ⟨text?_symbolsOf _, hcaller⟩⟩ (.cons ⟨rfl, .inl rfl⟩ .nil)⟩
  have hsecond : Tree.PadsAt ["tool_input", "team_name"] (.object (joiningMembers "\ts\u3000" "t"))
      (.object (joiningMembers "\ts\u3000" " t")) := by
    refine ⟨_, _, rfl, rfl, .cons ⟨rfl, .inl rfl⟩ (.cons ⟨rfl, .inr ⟨text?_symbolsOf _, _, _, rfl, rfl, ?_⟩⟩ .nil)⟩
    exact .cons ⟨rfl, .inl rfl⟩ (.cons ⟨rfl, .inr ⟨text?_symbolsOf _, hteam⟩⟩ .nil)
  exact (Relation.ReflTransGen.single ⟨_, hfirst⟩).tail ⟨_, hsecond⟩

def bindingMarker (team : String) : String := "[core]\ndefault_team = \"" ++ team ++ "\"\n"

theorem markerPads_binding : ProjectConfig.MarkerPads (bindingMarker "t") (bindingMarker " t\\u2003") := by
  have hteam : Text.Padded "t" " t\u2003" := ⟨[' '], ['\u2003'], by decide, by decide, by decide⟩
  refine ⟨[("core", .table .header [("default_team", .scalar (.string "t"))])],
    [("core", .table .header [("default_team", .scalar (.string " t\u2003"))])], rfl, rfl, ?_⟩
  refine .cons ⟨rfl, .inr ⟨rfl, .named ?_⟩⟩ .nil
  exact .cons ⟨rfl, .inr ⟨rfl, _, _, rfl, rfl, hteam⟩⟩ .nil

def leadingEntry (lead : String) : String := "\x7b\"leadSessionId\":\"" ++ lead ++ "\"\x7d"

theorem entryTextPads_leading :
    Registry.EntryTextPads (leadingEntry "lead") (leadingEntry "\\nlead ") := by
  have hlead : Tree.PadsAt [] (.string (symbolsOf "lead")) (.string (symbolsOf "\nlead ")) :=
    ⟨"lead", "\nlead ", text?_symbolsOf _, text?_symbolsOf _, ['\n'], [' '], by decide, by decide, by decide⟩
  refine ⟨.object [(symbolsOf "leadSessionId", .string (symbolsOf "lead"))],
    .object [(symbolsOf "leadSessionId", .string (symbolsOf "\nlead "))], Token.spells_of_scan (by decide +kernel),
    Token.spells_of_scan (by decide +kernel), .named ⟨_, _, rfl, rfl, ?_⟩⟩
  exact .cons ⟨rfl, .inr ⟨text?_symbolsOf _, hlead⟩⟩ .nil

def boundTeam : World where
  files := (ledTeam.files.set [".atm.toml"] (.file (bindingMarker "t").toUTF8)).set
    ["h", ".claude", "teams", "t", "config.json"] (.file (leadingEntry "lead").toUTF8)
  directory := []
  sent := []

def boundTeamPadded : World where
  files := (boundTeam.files.set [".atm.toml"] (.file (bindingMarker " t\\u2003").toUTF8)).set
    ["h", ".claude", "teams", "t", "config.json"] (.file (leadingEntry "\\nlead ").toUTF8)
  directory := []
  sent := []

theorem differ_boundTeam : Differ (joiningTeam.FilePads "" []) boundTeam.files boundTeamPadded.files := by
  have hmarker : joiningTeam.FilePads "" [] [".atm.toml"] (bindingMarker "t").toUTF8
      (bindingMarker " t\\u2003").toUTF8 :=
    .marker (by decide +kernel) (World.fromUTF8?_toUTF8 _) (World.fromUTF8?_toUTF8 _) markerPads_binding
  have hentry : joiningTeam.FilePads "" [] ["h", ".claude", "teams", "t", "config.json"] (leadingEntry "lead").toUTF8
      (leadingEntry "\\nlead ").toUTF8 :=
    .entry (by decide : joiningTeam.home = .ok "/h") (by decide : Locations.isTeamName "t" = true)
      (by decide +kernel) (World.fromUTF8?_toUTF8 _) (World.fromUTF8?_toUTF8 _) entryTextPads_leading
  exact ((Differ.refl _ boundTeam.files).set_right (by decide) rfl hmarker).set_right (by decide) rfl hentry

theorem gate_ignores_padding_boundTeam :
    CommandLine.read (joiningTeam.environment rootVariable) joiningTeam.arguments = .run ⟨none, false, .gate⟩ ∧
      (Tree.object (joiningMembers "s" "t")).Pads
        (.object (joiningMembers "\ts\u3000" " t")) ∧
      Differ (joiningTeam.FilePads "" []) boundTeam.files boundTeamPadded.files ∧
      (((joiningTeam.given (joiningText "\\ts\u3000" " t")).run : World.Run Outcome).run boundTeamPadded).1 =
        .blocked (.leadOnly "t") ∧
      (((joiningTeam.given (joiningText "\\ts\u3000" " t")).run : World.Run Outcome).run boundTeamPadded).2.text?
        joiningTeam.cache = some "s" := by
  have harguments : CommandLine.read (joiningTeam.environment rootVariable) joiningTeam.arguments =
      .run ⟨none, false, .gate⟩ := by decide +kernel
  have hs : (Tree.object (joiningMembers "s" "t")).Written (joiningText "s" "t").toList :=
    Token.spells_of_scan (by decide +kernel)
  have hs' : (Tree.object (joiningMembers "\ts\u3000" " t")).Written
      (joiningText "\\ts\u3000" " t").toList := Token.spells_of_scan (by decide +kernel)
  have hplain : (((joiningTeam.given (joiningText "s" "t")).run : World.Run Outcome).run boundTeam).1 =
      .blocked (.leadOnly "t") := by decide +kernel
  have hid : (joiningTeam.given (joiningText "s" "t")).givenId? = some "s" := by decide +kernel
  have hdone : (boundTeam.files.replace boundTeam.directory (Path.ofText joiningTeam.cache) "s".toUTF8).2 = true := by
    decide +kernel
  have hdirectory : boundTeam.directory = boundTeamPadded.directory := rfl
  obtain ⟨houtcome, -, hcache⟩ :=
    gate_ignores_padding harguments rfl hs hs' pads_joiningMembers hdirectory differ_boundTeam
  exact ⟨harguments, pads_joiningMembers, differ_boundTeam, houtcome.symm.trans hplain, (hcache "s" hid hdone).2⟩

end Invocation

end SpawnGate
