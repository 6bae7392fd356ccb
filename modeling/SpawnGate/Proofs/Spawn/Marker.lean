import SpawnGate.Proofs.Spawn.Roles

/-!
Of a marker file four keys of the `core` section matter, and each must have the type that is asked for. What they give is
never blank, and trimmed but for the roles; so a request without an agent kind has none of the roles. Whatever stands beside
the four keys can do one thing only: a number out of range makes the whole marker count as missing.
-/

namespace SpawnGate

open Toml

namespace Toml

/-- A number that is out of range: an integer that no word of 128 bits holds, or a float that overflows. -/
inductive Scalar.OutOfRange : Scalar → Prop
  | digits : OutOfRange (.integer none)
  | integer {n : Int} : n < -2 ^ 127 ∨ 2 ^ 128 ≤ n → OutOfRange (.integer (some n))
  | float : OutOfRange (.float false)

theorem Scalar.isReadable_iff (s : Scalar) : s.isReadable = true ↔ ¬ s.OutOfRange := by
  cases s with
  | integer n =>
    cases n with
    | none => exact iff_of_false (by decide) fun h => h .digits
    | some n =>
      have hbounds : (Scalar.integer (some n)).isReadable = true ↔ -2 ^ 127 ≤ n ∧ n < 2 ^ 128 := by
        simp [isReadable]
      rw [hbounds]
      constructor
      · rintro ⟨hlow, hhigh⟩ (_ | hout | _)
        omega
      · intro h
        by_contra hout
        exact h (.integer (by omega))
  | float inRange =>
    cases inRange with
    | false => exact iff_of_false (by decide) fun h => h .float
    | true => exact iff_of_true rfl (by rintro ⟨⟩)
  | _ => exact iff_of_true rfl (by rintro ⟨⟩)

namespace Node

@[elab_as_elim]
theorem induction {motive : Node → Prop} (scalar : ∀ s, motive (.scalar s))
    (array : ∀ items, (∀ n ∈ items, motive n) → motive (.array items))
    (table : ∀ origin entries, (∀ e ∈ entries, motive e.2) → motive (.table origin entries))
    (tables : ∀ elements, (∀ n ∈ elements, motive n) → motive (.tables elements)) (n : Node) : motive n :=
  Node.rec (motive_1 := motive) (motive_2 := fun items => ∀ n ∈ items, motive n)
    (motive_3 := fun entries => ∀ e ∈ entries, motive e.2) (motive_4 := fun e => motive e.2)
    scalar array table tables
    (by simp) (fun _ _ hn hr => List.forall_mem_cons.mpr ⟨hn, hr⟩)
    (by simp) (fun _ _ he hr => List.forall_mem_cons.mpr ⟨he, hr⟩) (fun _ _ hn => hn) n

/-- A number out of range stands somewhere in a value. -/
inductive HasOverflow : Node → Prop
  | scalar {s} : s.OutOfRange → HasOverflow (.scalar s)
  | item {items n} : n ∈ items → HasOverflow n → HasOverflow (.array items)
  | entry {origin entries e} : e ∈ entries → HasOverflow e.2 → HasOverflow (.table origin entries)
  | element {elements n} : n ∈ elements → HasOverflow n → HasOverflow (.tables elements)

theorem areReadable_iff (ns : List Node) : areReadable ns = true ↔ ∀ n ∈ ns, n.isReadable = true := by
  induction ns with
  | nil => simp [areReadable]
  | cons n ns ih => rw [areReadable, Bool.and_eq_true, ih, List.forall_mem_cons]

theorem haveReadable_iff (es : Entries) : haveReadable es = true ↔ ∀ e ∈ es, e.2.isReadable = true := by
  induction es with
  | nil => simp [haveReadable]
  | cons e es ih => rw [haveReadable, Bool.and_eq_true, ih, List.forall_mem_cons]

theorem isReadable_iff (n : Node) : n.isReadable = true ↔ ¬ n.HasOverflow := by
  induction n using Node.induction with
  | scalar s =>
    rw [isReadable, Scalar.isReadable_iff]
    exact not_congr ⟨.scalar, fun | .scalar hs => hs⟩
  | array items ih =>
    rw [isReadable, areReadable_iff]
    constructor
    · rintro h (_ | ⟨hn, hover⟩)
      exact (ih _ hn).mp (h _ hn) hover
    · exact fun h n hn => (ih n hn).mpr fun hover => h (.item hn hover)
  | table origin entries ih =>
    rw [isReadable, haveReadable_iff]
    constructor
    · rintro h (_ | _ | ⟨he, hover⟩)
      exact (ih _ he).mp (h _ he) hover
    · exact fun h e he => (ih e he).mpr fun hover => h (.entry he hover)
  | tables elements ih =>
    rw [isReadable, areReadable_iff]
    constructor
    · rintro h (_ | _ | _ | ⟨hn, hover⟩)
      exact (ih _ hn).mp (h _ hn) hover
    · exact fun h n hn => (ih n hn).mpr fun hover => h (.element hn hover)

instance (n : Node) : Decidable n.HasOverflow :=
  decidable_of_iff (n.isReadable = false) (by rw [← Bool.not_eq_true, isReadable_iff, not_not])

end Node

end Toml

namespace CoreSection

/-- The `core` section of a document is a table with these entries. A section that is left out is empty. -/
inductive HasCore (root : Entries) : Entries → Prop
  | absent : Entries.get? "core" root = none → HasCore root []
  | table {origin es} : Entries.get? "core" root = some (.table origin es) → HasCore root es

/-- A number out of range stands in another section of a document, or at another key of its `core` section. -/
def OverflowBeside (root core : Entries) : Prop :=
  (∃ e ∈ root, e.1 ≠ "core" ∧ e.2.HasOverflow) ∨ ∃ e ∈ core, e.1 ∉ keys ∧ e.2.HasOverflow

/-- The values that a key may have. -/
inductive Typed : String → Node → Prop
  | text {key s} : key ∈ ["default_team", "identity", "welcome-message"] → Typed key (.scalar (.string s))
  | texts (ss : List String) : Typed "orchestrator-roles" (.array (ss.map fun s => .scalar (.string s)))

def Mistyped (key : String) (es : Entries) : Prop :=
  ∃ n, Entries.get? key es = some n ∧ ¬ Typed key n

/-- Two sections agree on a key if both lack it, if both give it the same value of the right type, or if neither value has
the right type. -/
structure AgreeAt (key : String) (es es' : Entries) : Prop where
  lacking : Entries.get? key es = none ↔ Entries.get? key es' = none
  typed : ∀ n, Typed key n → (Entries.get? key es = some n ↔ Entries.get? key es' = some n)

theorem AgreeAt.of_eq {key : String} {es es' : Entries} (h : Entries.get? key es = Entries.get? key es') :
    AgreeAt key es es' := by
  constructor
  · rw [h]
  · intro n _
    rw [h]

theorem string?_eq_some_iff (n : Node) (s : String) : string? n = some s ↔ n = .scalar (.string s) := by
  constructor
  · intro h
    unfold string? at h
    split at h
    · rw [Option.some.inj h]
    · cases h
  · rintro rfl
    rfl

theorem mapM_string?_eq_some_iff (items : List Node) (ss : List String) :
    items.mapM string? = some ss ↔ items = ss.map fun s => .scalar (.string s) := by
  induction items generalizing ss with
  | nil => cases ss <;> simp
  | cons n items ih =>
    simp only [List.mapM_cons, Option.bind_eq_bind, Option.bind_eq_some_iff, Option.pure_def, Option.some.injEq,
      string?_eq_some_iff, ih]
    constructor
    · rintro ⟨s, rfl, rest, rfl, rfl⟩
      rfl
    · intro h
      cases ss with
      | nil => cases h
      | cons s ss =>
        obtain ⟨rfl, rfl⟩ := List.cons.inj h
        exact ⟨s, rfl, ss, rfl, rfl⟩

theorem strings?_eq_some_iff (n : Node) (ss : List String) :
    strings? n = some ss ↔ n = .array (ss.map fun s => .scalar (.string s)) := by
  cases n <;> simp [strings?, mapM_string?_eq_some_iff]

theorem typed_iff_string? {key : String} (hkey : key ∈ ["default_team", "identity", "welcome-message"]) (n : Node) :
    Typed key n ↔ (string? n).isSome = true := by
  simp only [Option.isSome_iff_exists, string?_eq_some_iff]
  constructor
  · intro h
    cases h with
    | text => exact ⟨_, rfl⟩
    | texts ss => exact absurd hkey (by decide)
  · rintro ⟨s, rfl⟩
    exact .text hkey

theorem typed_iff_strings? (n : Node) : Typed "orchestrator-roles" n ↔ (strings? n).isSome = true := by
  simp only [Option.isSome_iff_exists, strings?_eq_some_iff]
  constructor
  · generalize hkey : "orchestrator-roles" = key
    intro h
    cases h with
    | text hmem => exact absurd (hkey ▸ hmem) (by decide)
    | texts ss => exact ⟨ss, rfl⟩
  · rintro ⟨ss, rfl⟩
    exact .texts ss

section Fields

variable {α : Type} {read : Node → Option α} {key : String} (hread : ∀ n, Typed key n ↔ (read n).isSome = true)
include hread

theorem field?_eq_none_iff (es : Entries) : field? read (Entries.get? key es) = none ↔ Mistyped key es := by
  unfold Mistyped
  simp only [hread]
  cases Entries.get? key es with
  | none => simp [field?]
  | some n => cases hn : read n <;> simp [field?, hn]

theorem field?_congr {es es' : Entries} (h : AgreeAt key es es') :
    field? read (Entries.get? key es) = field? read (Entries.get? key es') := by
  cases hn : Entries.get? key es with
  | none => rw [h.lacking.mp hn]
  | some n =>
    by_cases htyped : Typed key n
    · rw [(h.typed n htyped).mp hn]
    · -- Neither value has the right type: if the other had, it would stand here as well.
      have hmistyped : Mistyped key es' := by
        cases hn' : Entries.get? key es' with
        | none =>
          rw [h.lacking.mpr hn'] at hn
          cases hn
        | some n' =>
          refine ⟨n', hn', fun htyped' => htyped ?_⟩
          obtain rfl := Option.some.inj (hn.symm.trans ((h.typed n' htyped').mpr hn'))
          exact htyped'
      rw [← hn, (field?_eq_none_iff hread es).mpr ⟨n, hn, htyped⟩, (field?_eq_none_iff hread es').mpr hmistyped]

end Fields

theorem othersReadable_iff (known : List String) (es : Entries) :
    othersReadable known es = true ↔ ¬ ∃ e ∈ es, e.1 ∉ known ∧ e.2.HasOverflow := by
  simp only [othersReadable, Node.haveReadable_iff, List.mem_filter, Node.isReadable_iff, Bool.not_eq_true',
    List.contains_eq_mem, decide_eq_false_iff_not, not_exists, not_and, and_imp]

/-- What the four keys of a section give. -/
def ofFour? (core : Entries) : Option CoreSection :=
  ofFields? (Entries.get? "default_team" core) (Entries.get? "identity" core) (Entries.get? "welcome-message" core)
    (Entries.get? "orchestrator-roles" core)

theorem ofDocument?_of_hasCore {root core : Entries} (h : HasCore root core) :
    ofDocument? root =
      if othersReadable ["core"] root = true ∧ othersReadable keys core = true then ofFour? core else none := by
  unfold ofDocument?
  by_cases hroot : othersReadable ["core"] root = true
  · rw [if_pos hroot]
    cases h with
    | absent hcore =>
      rw [hcore]
      exact (if_pos ⟨hroot, rfl⟩).symm
    | table hcore =>
      simp only [hcore, hroot, true_and]
      rfl
  · rw [if_neg hroot, if_neg fun hboth => hroot hboth.1]

theorem ofDocument?_of_clear {root core : Entries} (h : HasCore root core) (hclear : ¬ OverflowBeside root core) :
    ofDocument? root = ofFour? core := by
  obtain ⟨hroot, hcore⟩ := not_or.mp hclear
  rw [ofDocument?_of_hasCore h, if_pos]
  rw [othersReadable_iff, othersReadable_iff]
  simp only [List.mem_singleton]
  exact ⟨hroot, hcore⟩

theorem ofDocument?_of_overflow {root core : Entries} (h : HasCore root core) (hover : OverflowBeside root core) :
    ofDocument? root = none := by
  rw [ofDocument?_of_hasCore h, if_neg]
  rw [othersReadable_iff, othersReadable_iff]
  simp only [List.mem_singleton]
  rintro ⟨hroot, hcore⟩
  exact hover.elim hroot hcore

theorem ofFields?_eq_none_iff (team identity welcome roles : Option Node) :
    ofFields? team identity welcome roles = none ↔ field? string? team = none ∨ field? string? identity = none ∨
      field? string? welcome = none ∨ field? strings? roles = none := by
  unfold ofFields?
  cases field? string? team <;> cases field? string? identity <;> cases field? string? welcome <;>
    cases field? strings? roles <;> simp

theorem ofFour?_eq_none_iff (core : Entries) : ofFour? core = none ↔ ∃ key ∈ keys, Mistyped key core := by
  rw [ofFour?, ofFields?_eq_none_iff, field?_eq_none_iff (typed_iff_string? (by decide)),
    field?_eq_none_iff (typed_iff_string? (by decide)), field?_eq_none_iff (typed_iff_string? (by decide)),
    field?_eq_none_iff typed_iff_strings?]
  simp [keys]

theorem ofFour?_congr {core core' : Entries} (hagree : ∀ key ∈ keys, AgreeAt key core core') :
    ofFour? core = ofFour? core' := by
  have hstring {key : String} (hkey : key ∈ ["default_team", "identity", "welcome-message"]) (hread : key ∈ keys) :
      field? string? (Entries.get? key core) = field? string? (Entries.get? key core') :=
    field?_congr (typed_iff_string? hkey) (hagree key hread)
  rw [ofFour?, ofFour?, ofFields?, ofFields?, hstring (by decide) (by decide), hstring (by decide) (by decide),
    hstring (by decide) (by decide), field?_congr typed_iff_strings? (hagree _ (by decide))]

end CoreSection

namespace ProjectConfig

/-- Texts are trimmed, and only the identity may be empty; roles are not trimmed, but none is blank. -/
structure Clean (c : ProjectConfig) : Prop where
  team : ∀ t, c.requiredTeam = some t → Text.Neat t
  welcome : ∀ t, c.welcome = some t → Text.Neat t
  identity : Text.trim c.identity = c.identity
  roles : ∀ r ∈ c.roles, ¬ Text.Blank r.toList

theorem clean_ofCore (core : CoreSection) : (ofCore core).Clean where
  team t ht := by
    obtain ⟨raw, -, hraw⟩ := Option.bind_eq_some_iff.mp ht
    exact Text.neat_of_usable hraw
  welcome t ht := by
    obtain ⟨raw, -, hraw⟩ := Option.bind_eq_some_iff.mp ht
    exact Text.neat_of_usable hraw
  identity := Text.trim_trim _
  roles r hr := by
    obtain ⟨-, husable⟩ := List.mem_filter.mp hr
    obtain ⟨t, ht⟩ := Option.isSome_iff_exists.mp husable
    exact ((Text.usable_eq_some_iff_not_blank r t).mp ht).1

theorem Clean.not_isOrchestrator {c : ProjectConfig} (h : c.Clean) : Policy.isOrchestrator "" (some c) = false := by
  rw [← Bool.not_eq_true, Policy.isOrchestrator_iff]
  rintro (hbuiltin | ⟨c', hc', hlisted⟩)
  · exact absurd hbuiltin (by decide)
  · obtain rfl := Option.some.inj hc'
    exact h.roles "" hlisted (by simp [Text.Blank])

theorem Clean.rule_ne_namedTeammate {c : ProjectConfig} (h : c.Clean) {r : SpawnRequest} (hkind : r.agentKind = "")
    {leads : String → Option String} {v : Violation} (hblock : Policy.decide leads (some c) r = .block v) :
    v.rule ≠ .namedTeammate := by
  intro hrule
  have hviolates := Policy.violates_of_decide leads _ _ hblock
  rw [hrule] at hviolates
  have hrole := hviolates.2
  rw [hkind, h.not_isOrchestrator] at hrole
  cases hrole

open CoreSection

/-- The marker of a project is a valid document with this root, whose `core` section is a table with these entries. -/
structure IsMarked (w : World) (place : String) (root core : Entries) : Prop where
  document : (w.text? (Locations.marker place)).bind Document.ofText? = some root
  core : HasCore root core

def probed (w : World) (place : String) : Option ProjectConfig :=
  ((probe place : World.Run (Option ProjectConfig)).run w).1

theorem probed_of_isMarked {w : World} {place : String} {root core : Entries} (h : IsMarked w place root core) :
    probed w place = (ofDocument? root).map ofCore := by
  obtain ⟨text, htext, hroot⟩ := Option.bind_eq_some_iff.mp h.document
  rw [probed, World.run_probe, World.config?, htext, Option.bind_some, ofText?_eq, hroot, Option.bind_some]

/-- What a marker gives: the config of its four keys if no number is out of range elsewhere in it, and otherwise none. -/
structure Gives (w : World) (place : String) (root core : Entries) (config : Option ProjectConfig) : Prop where
  clear : ¬ OverflowBeside root core → probed w place = config
  overflow : OverflowBeside root core → probed w place = none

theorem gives_ofFour? {w : World} {place : String} {root core : Entries} (h : IsMarked w place root core) :
    Gives w place root core ((ofFour? core).map ofCore) := by
  constructor
  · intro hclear
    rw [probed_of_isMarked h, ofDocument?_of_clear h.core hclear]
  · intro hover
    rw [probed_of_isMarked h, ofDocument?_of_overflow h.core hover, Option.map_none]

/-- Valid markers that agree on four keys of their `core` tables give the same config, whatever else they hold, or none if a
number beside the four keys is out of range. Else there is none exactly if one of the four has the wrong type. Every config
is clean, so that a request without an agent kind is never blocked for having no name. -/
theorem probe_reads_four_keys {w w' : World} {place place' : String} {root root' core core' : Entries}
    (hmarked : IsMarked w place root core) (hmarked' : IsMarked w' place' root' core')
    (hagree : ∀ key ∈ keys, AgreeAt key core core') :
    ∃ config : Option ProjectConfig, Gives w place root core config ∧ Gives w' place' root' core' config ∧
      (config = none ↔ ∃ key ∈ keys, Mistyped key core) ∧
      ∀ c, config = some c → c.Clean ∧
        ∀ (r : SpawnRequest) (leads : String → Option String) (v : Violation), r.agentKind = "" →
          Policy.decide leads (some c) r = .block v → v.rule ≠ .namedTeammate := by
  refine ⟨(ofFour? core).map ofCore, gives_ofFour? hmarked, ?_, ?_, ?_⟩
  · rw [ofFour?_congr hagree]
    exact gives_ofFour? hmarked'
  · rw [Option.map_eq_none_iff, ofFour?_eq_none_iff]
  · intro c hc
    obtain ⟨part, -, rfl⟩ := Option.map_eq_some_iff.mp hc
    exact ⟨clean_ofCore part, fun r leads v hkind => (clean_ofCore part).rule_ne_namedTeammate hkind⟩

def marked (marker : String) : World where
  files := ⟨[([".atm.toml"], .file marker.toUTF8)]⟩
  directory := []
  sent := []

theorem text?_marked (marker : String) : (marked marker).text? (Locations.marker "") = some marker := by
  have hpath : Path.ofText (Locations.marker "") = ⟨[".atm.toml"]⟩ := by decide +kernel
  apply World.text?_of_read?
  rw [hpath]
  rfl

theorem isMarked_marked {marker : String} {root core : Entries} (hroot : Document.ofText? marker = some root)
    (hcore : HasCore root core) : IsMarked (marked marker) "" root core where
  document := by rw [text?_marked, Option.bind_some, hroot]
  core := hcore

def ownMarker : String :=
  "[core]\ndefault_team = \" t \"\norchestrator-roles = [\"pilot\", \" \"]\n"

def ownCore : Entries :=
  [("default_team", .scalar (.string " t ")),
    ("orchestrator-roles", .array [.scalar (.string "pilot"), .scalar (.string " ")])]

def ownRoot : Entries := [("core", .table .header ownCore)]

/-- The same settings in braces, among those of other tools. -/
def sharedMarker : String :=
  "core = \x7borchestrator-roles = [\"pilot\", \" \"], default_team = \" t \"\x7d\n[[ci]]\nidentity = 5\n"

def sharedCore : Entries :=
  [("orchestrator-roles", .array [.scalar (.string "pilot"), .scalar (.string " ")]),
    ("default_team", .scalar (.string " t "))]

def sharedRoot : Entries :=
  [("core", .table .inline sharedCore), ("ci", .tables [.table .header [("identity", .scalar (.integer (some 5)))]])]

/-- The same settings, with a number out of range in a section of another tool. -/
def overflowMarker : String :=
  "[core]\ndefault_team = \" t \"\norchestrator-roles = [\"pilot\", \" \"]\n[x]\ny = 1e400\n"

def overflowRoot : Entries :=
  [("core", .table .header ownCore), ("x", .table .header [("y", .scalar (.float (Scalar.isInRange 1 400)))])]

theorem isMarked_ownMarker : IsMarked (marked ownMarker) "" ownRoot ownCore :=
  isMarked_marked rfl (.table rfl)

theorem isMarked_sharedMarker : IsMarked (marked sharedMarker) "" sharedRoot sharedCore :=
  isMarked_marked rfl (.table rfl)

theorem isMarked_overflowMarker : IsMarked (marked overflowMarker) "" overflowRoot ownCore :=
  isMarked_marked rfl (.table rfl)

theorem not_overflowBeside_sharedRoot : ¬ OverflowBeside sharedRoot sharedCore := by
  unfold OverflowBeside
  decide

theorem overflowBeside_overflowRoot : OverflowBeside overflowRoot ownCore := by
  unfold OverflowBeside
  decide +kernel

theorem agreeAt_ownCore : ∀ key ∈ keys, AgreeAt key ownCore sharedCore := by
  intro key hkey
  simp only [keys, List.mem_cons, List.not_mem_nil, or_false] at hkey
  rcases hkey with rfl | rfl | rfl | rfl <;> exact .of_eq rfl

theorem probed_ownMarker : probed (marked ownMarker) "" = some ⟨some "t", "", none, ["pilot"]⟩ := by
  rw [probed, World.run_probe, World.config?, text?_marked, Option.bind_some]
  decide +kernel

theorem probe_reads_four_keys_shared :
    IsMarked (marked ownMarker) "" ownRoot ownCore ∧ IsMarked (marked sharedMarker) "" sharedRoot sharedCore ∧
      IsMarked (marked overflowMarker) "" overflowRoot ownCore ∧ (∀ key ∈ keys, AgreeAt key ownCore sharedCore) ∧
      probed (marked sharedMarker) "" = some ⟨some "t", "", none, ["pilot"]⟩ ∧
      probed (marked overflowMarker) "" = none ∧
      ∀ (leads : String → Option String) (v : Violation),
        Policy.decide leads (some ⟨some "t", "", none, ["pilot"]⟩) ⟨"", none, some "t", "s"⟩ = .block v →
          v.rule ≠ .namedTeammate := by
  obtain ⟨config, hown, hshared, -, hclean⟩ :=
    probe_reads_four_keys isMarked_ownMarker isMarked_sharedMarker agreeAt_ownCore
  obtain ⟨_, -, hoverflow, -⟩ :=
    probe_reads_four_keys isMarked_ownMarker isMarked_overflowMarker fun _ _ => .of_eq rfl
  have hconfig : config = some ⟨some "t", "", none, ["pilot"]⟩ := by
    rw [← hown.clear (by unfold OverflowBeside; decide), probed_ownMarker]
  refine ⟨isMarked_ownMarker, isMarked_sharedMarker, isMarked_overflowMarker, agreeAt_ownCore,
    (hshared.clear not_overflowBeside_sharedRoot).trans hconfig, hoverflow.overflow overflowBeside_overflowRoot,
    fun leads v => ?_⟩
  exact (hclean _ hconfig).2 _ leads v rfl

/-- What other tools write into the marker may take the config away. -/
theorem exists_marker_hiding_config :
    ¬ ∀ (w w' : World) (place place' : String) (root root' core core' : Entries), IsMarked w place root core →
      IsMarked w' place' root' core' → (∀ key ∈ keys, AgreeAt key core core') → probed w place = probed w' place' := by
  intro h
  have hsame := h _ _ _ _ _ _ _ _ isMarked_ownMarker isMarked_overflowMarker fun _ _ => .of_eq rfl
  rw [probed_ownMarker, probed_of_isMarked isMarked_overflowMarker,
    ofDocument?_of_overflow isMarked_overflowMarker.core overflowBeside_overflowRoot] at hsame
  cases hsame

end ProjectConfig

end SpawnGate
