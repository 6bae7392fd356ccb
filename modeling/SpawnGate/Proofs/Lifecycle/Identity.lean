import SpawnGate.Proofs.Lifecycle.Sources
import SpawnGate.Proofs.Spawn.Reading

/-!
The team and the agent that an idle teammate's event names. Each is looked for at five places in order, in the input, the
environment and the marker, and the first place with a usable text decides alone.
-/

namespace SpawnGate

open Json

/-- The text of the first place that offers one, if any does. -/
inductive First {α β : Type} (offers : α → β → Prop) : List α → Option β → Prop
  | missing : First offers [] none
  | here {a as b} : offers a b → First offers (a :: as) (some b)
  | later {a as b} : (∀ t, ¬ offers a t) → First offers as b → First offers (a :: as) b

namespace First

variable {α β : Type} {offers : α → β → Prop} {f : α → Option β}

theorem of_findSome? (h : ∀ a b, f a = some b ↔ offers a b) (as : List α) : First offers as (as.findSome? f) := by
  induction as with
  | nil => exact .missing
  | cons a as ih =>
    rw [List.findSome?_cons]
    cases ha : f a with
    | none =>
      refine .later (fun t ht => ?_) ih
      rw [(h a t).mpr ht] at ha
      cases ha
    | some b => exact .here ((h a b).mp ha)

/-- A place decides if those before it offer nothing, whatever the places after it offer. -/
theorem eq_some_of_split (hone : ∀ a b b', offers a b → offers a b' → b = b') {before after : List α} {a : α}
    {t : β} {b : Option β} (hbefore : ∀ x ∈ before, ∀ u, ¬ offers x u) (ha : offers a t)
    (h : First offers (before ++ a :: after) b) : b = some t := by
  induction before with
  | nil =>
    cases h with
    | here hb => rw [hone a _ _ hb ha]
    | later hnone => exact absurd ha (hnone t)
  | cons x before ih =>
    obtain ⟨hx, hrest⟩ := List.forall_mem_cons.mp hbefore
    cases h with
    | here hb => exact absurd hb (hx _)
    | later _ hlater => exact ih hrest hlater

end First

inductive NameKind where
  | team
  | agent

/-- Where a name may stand. -/
inductive NameOrigin where
  | input (path : List String)
  | inherited (name : String)
  | marker
deriving DecidableEq

namespace NameKind

def key : NameKind → String
  | team => "team"
  | agent => "agent"

def ofEvent : NameKind → Event → Option String
  | team, e => e.team
  | agent, e => e.agent

def ofConfig : NameKind → ProjectConfig → Option String
  | team, config => config.requiredTeam
  | agent, config => some config.identity

/-- Where the name of an idle teammate is looked for, in order. -/
def origins : NameKind → List NameOrigin
  | team => [.input ["team_name"], .input ["tool_input", "team_name"], .input ["team"], .inherited "ATM_TEAM", .marker]
  | agent => [.input ["name"], .input ["agent"], .input ["tool_input", "name"], .inherited "ATM_IDENTITY", .marker]

theorem get?_key_fields (k : NameKind) (e : Event) :
    Members.get? k.key e.fields = some (Event.stringOrNull (k.ofEvent e)) := by
  apply Event.get?_fields
  cases k with
  | team => simp [key, ofEvent, Event.layout]
  | agent => simp [key, ofEvent, Event.layout]

theorem exists_origins_eq (k : NameKind) : ∃ before, k.origins = before ++ [.marker] ∧ .marker ∉ before := by
  cases k with
  | team => exact ⟨_, List.dropLast_append_getLast (by decide) |>.symm, by decide⟩
  | agent => exact ⟨_, List.dropLast_append_getLast (by decide) |>.symm, by decide⟩

end NameKind

/-- All that a name may be taken from. -/
structure NameContext where
  environment : Environment
  payload : Value
  config : ProjectConfig

namespace NameContext

/-- A text is usable if it is not blank, and it is used without the white space around it. -/
def Offers (c : NameContext) (k : NameKind) : NameOrigin → String → Prop
  | .input path, t => Hook.TextAt c.payload path t
  | .inherited name, t => ∃ raw, c.environment name = some raw ∧ Text.trim raw = t ∧ t ≠ ""
  | .marker, t => ∃ raw, k.ofConfig c.config = some raw ∧ Text.trim raw = t ∧ t ≠ ""

def offer? (c : NameContext) (k : NameKind) : NameOrigin → Option String
  | .input path => Hook.textAt? path c.payload
  | .inherited name => (c.environment name).bind Text.usable
  | .marker => (k.ofConfig c.config).bind Text.usable

theorem offer?_eq_some_iff (c : NameContext) (k : NameKind) (origin : NameOrigin) (t : String) :
    c.offer? k origin = some t ↔ c.Offers k origin t := by
  cases origin with
  | input path => exact Hook.textAt?_eq_some_iff path c.payload t
  | inherited name =>
    simp only [offer?, Offers, Option.bind_eq_some_iff, Text.usable_eq_some_iff]
  | marker =>
    simp only [offer?, Offers, Option.bind_eq_some_iff, Text.usable_eq_some_iff]

theorem offers_unique (c : NameContext) (k : NameKind) (origin : NameOrigin) (t u : String)
    (ht : c.Offers k origin t) (hu : c.Offers k origin u) : t = u := by
  rw [← offer?_eq_some_iff] at ht hu
  exact Option.some.inj (ht.symm.trans hu)

theorem findSome?_of_marker_only {c : NameContext} {k : NameKind}
    (h : ∀ origin ∈ k.origins, origin ≠ .marker → ∀ t, ¬ c.Offers k origin t) :
    k.origins.findSome? (c.offer? k) = c.offer? k .marker := by
  obtain ⟨before, horigins, hmarker⟩ := k.exists_origins_eq
  have hbefore : before.findSome? (c.offer? k) = none := by
    rw [List.findSome?_eq_none_iff]
    intro origin hmem
    have hne : origin ≠ .marker := fun heq => hmarker (heq ▸ hmem)
    have hnothing := h origin (by rw [horigins]; exact List.mem_append_left _ hmem) hne
    simp only [← offer?_eq_some_iff] at hnothing
    exact Option.eq_none_iff_forall_ne_some.mpr hnothing
  rw [horigins, List.findSome?_append, hbefore, Option.none_or, List.findSome?_singleton]

end NameContext

theorem Text.bind_usable_of_neat {found : Option String} (h : ∀ t ∈ found, Neat t) : found.bind usable = found := by
  cases found with
  | none => rfl
  | some t => rw [Option.bind_some, (neat_iff t).mp (h t rfl)]

theorem Hook.neat_textAt? (path : List String) (v : Value) : ∀ t ∈ Hook.textAt? path v, Text.Neat t :=
  fun t ht => (Text.neat_iff t).mpr ((Hook.textAt?_eq_some_iff path v t).mp ht).usable

namespace Invocation

variable {i : Invocation} {payload : Value} {config : ProjectConfig} {e : Event}

/-- All that an invocation takes the names of an event from. -/
def nameContext (i : Invocation) (payload : Value) (config : ProjectConfig) : NameContext :=
  ⟨i.environment, payload, config⟩

theorem usable_identity (config : ProjectConfig) :
    (NameKind.agent.ofConfig config).bind Text.usable = config.agentName := by
  rw [NameKind.ofConfig, Option.bind_some, ProjectConfig.agentName]

theorem idleTeam_eq (i : Invocation) (payload : Value) (config : ProjectConfig) :
    idleTeam i.environment config payload =
      NameKind.team.origins.findSome? ((i.nameContext payload config).offer? .team) := by
  simp only [idleTeam, firstUsable, Hook.field?_eq_textAt?, Hook.nested?_eq_textAt?, List.findSome?_cons,
    List.findSome?_nil, Text.bind_usable_of_neat (Hook.neat_textAt? _ payload), NameKind.origins,
    NameContext.offer?, nameContext, NameKind.ofConfig, teamVariable]

theorem idleAgent_eq (i : Invocation) (payload : Value) (config : ProjectConfig) :
    idleAgent i.environment config payload =
      NameKind.agent.origins.findSome? ((i.nameContext payload config).offer? .agent) := by
  have hmarker : config.agentName.bind Text.usable = (NameKind.agent.ofConfig config).bind Text.usable := by
    rw [Text.bind_usable_of_neat config.neat_agentName, usable_identity]
  simp only [idleAgent, firstUsable, Hook.field?_eq_textAt?, Hook.nested?_eq_textAt?, List.findSome?_cons,
    List.findSome?_nil, Text.bind_usable_of_neat (Hook.neat_textAt? _ payload), hmarker, NameKind.origins,
    NameContext.offer?, nameContext, identityVariable]

theorem ofEvent_idle (hpayload : i.payload? = some payload) (h : i.event? .teammateIdle config = some e)
    (k : NameKind) : k.ofEvent e = k.origins.findSome? ((i.nameContext payload config).offer? k) := by
  simp only [event?, hpayload, Option.bind_eq_bind, Option.bind_some, Option.bind_eq_some_iff] at h
  obtain ⟨id, -, hevent⟩ := h
  obtain rfl := Option.some.inj hevent
  cases k with
  | team => exact i.idleTeam_eq payload config
  | agent => exact i.idleAgent_eq payload config

theorem first_ofEvent (hpayload : i.payload? = some payload) (h : i.event? .teammateIdle config = some e)
    (k : NameKind) : First ((i.nameContext payload config).Offers k) k.origins (k.ofEvent e) := by
  rw [ofEvent_idle hpayload h k]
  exact First.of_findSome? ((i.nameContext payload config).offer?_eq_some_iff k) k.origins

/-- On a machine with the config, a run of the command leaves the event in the log and with the daemon. -/
def Relays (i : Invocation) (command : Command) (config : ProjectConfig) (e : Event) : Prop :=
  ∀ (root : Option String) (json : Bool) (w : World) (home : String),
    CommandLine.read (i.environment rootVariable) i.arguments = .run ⟨root, json, command⟩ →
    i.home = .ok home → (i.recordedIn w).config? (root.getD "") = some config →
    ((i.run : World.Run Outcome).run w).2 = (i.recordedIn w).relayed home e i.requestId

theorem relays_of_event? {command : Command} (hhook : command.isLifecycle = true)
    (h : i.event? command config = some e) : i.Relays command config e := by
  intro root json w home harguments hhome hconfig
  have hrun : (i.run : World.Run Outcome) = i.perform ⟨root, json, command⟩ := by
    simp only [run, harguments]
  have hleft : ((i.perform ⟨root, json, command⟩ : World.Run Outcome).run w).2 =
      i.leftBehind command (root.getD "") w := run_perform hhook w
  rw [hrun, hleft]
  unfold leftBehind
  simp only [hconfig, Option.bind_some, h, relayedIn, hhome]

theorem names_configured (config : ProjectConfig) (payload : Value) (e : Event) :
    (configured config payload e).team = config.requiredTeam ∧ (configured config payload e).agent = config.agentName := by
  simp only [configured, Event.withIdentity, Event.withPayload, and_self]

/-- The two other hooks name what the config holds. -/
theorem ofEvent_configured {text : String} (hprobed : ProjectConfig.ofText? text = some config) {command : Command}
    (hcommand : command = .sessionStart ∨ command = .sessionEnd) (h : i.event? command config = some e)
    (k : NameKind) : k.ofEvent e = (k.ofConfig config).bind Text.usable := by
  have hteam := Text.bind_usable_of_neat (ProjectConfig.neat_requiredTeam hprobed)
  simp only [event?, Option.bind_eq_bind, Option.bind_eq_some_iff] at h
  obtain ⟨payload, -, id, -, hevent⟩ := h
  have hnames : e.team = config.requiredTeam ∧ e.agent = config.agentName := by
    rcases hcommand with rfl | rfl
    · obtain rfl := Option.some.inj hevent
      exact names_configured config payload _
    · obtain rfl := Option.some.inj hevent
      exact names_configured config payload _
  cases k with
  | team => rw [NameKind.ofEvent, NameKind.ofConfig, hteam, hnames.1]
  | agent => rw [NameKind.ofEvent, usable_identity, hnames.2]

/-- The team and the agent of an idle teammate are the text of the first place that offers one. What stands after that
place has no influence, and what is not usable before it has none either. Where only the marker offers a name, the hooks at
the start and at the end of a session name the same. -/
theorem idle_names_first_offered {id text : String} (hpayload : i.payload? = some payload)
    (hid : Hook.field? payload "session_id" = some id) (hprobed : ProjectConfig.ofText? text = some config) :
    ∃ idle, i.event? .teammateIdle config = some idle ∧ i.Relays .teammateIdle config idle ∧ ∀ k : NameKind,
      Members.get? k.key idle.fields = some (Event.stringOrNull (k.ofEvent idle)) ∧
      First ((i.nameContext payload config).Offers k) k.origins (k.ofEvent idle) ∧
      (∀ before origin after t, k.origins = before ++ origin :: after →
        (∀ o ∈ before, ∀ u, ¬ (i.nameContext payload config).Offers k o u) →
        (i.nameContext payload config).Offers k origin t →
        ∀ (i' : Invocation) payload' config' idle', i'.payload? = some payload' →
          i'.event? .teammateIdle config' = some idle' →
          (∀ o ∈ before, ∀ u, ¬ (i'.nameContext payload' config').Offers k o u) →
          (i'.nameContext payload' config').Offers k origin t →
          k.ofEvent idle' = some t ∧ k.ofEvent idle' = k.ofEvent idle) ∧
      ((∀ origin ∈ k.origins, origin ≠ .marker → ∀ t, ¬ (i.nameContext payload config).Offers k origin t) →
        ∀ (i' : Invocation) command e', command = .sessionStart ∨ command = .sessionEnd →
          i'.event? command config = some e' → i'.Relays command config e' ∧ k.ofEvent idle = k.ofEvent e') := by
  obtain ⟨idle, hidle⟩ : ∃ idle, i.event? .teammateIdle config = some idle :=
    ⟨_, event?_eq hpayload hid .teammateIdle config⟩
  refine ⟨idle, hidle, relays_of_event? rfl hidle, fun k => ?_⟩
  refine ⟨k.get?_key_fields _, first_ofEvent hpayload hidle k, ?_, ?_⟩
  · intro before origin after t horigins hbefore horigin i' payload' config' idle' hpayload' hidle' hbefore' horigin'
    have hname := first_ofEvent hpayload hidle k
    have hname' := first_ofEvent hpayload' hidle' k
    rw [horigins] at hname hname'
    replace hname := hname.eq_some_of_split (NameContext.offers_unique _ k) hbefore horigin
    replace hname' := hname'.eq_some_of_split (NameContext.offers_unique _ k) hbefore' horigin'
    exact ⟨hname', hname'.trans hname.symm⟩
  · intro honly i' command e' hcommand hevent
    constructor
    · apply relays_of_event? _ hevent
      rcases hcommand with rfl | rfl
      · rfl
      · rfl
    · rw [ofEvent_idle hpayload hidle, NameContext.findSome?_of_marker_only honly,
        ofEvent_configured hprobed hcommand hevent]
      rfl

/-- A teammate without a name, in a team that a mistyped value hides. -/
def resting : Value :=
  .object [("name", .string " "), ("session_id", .string "s"),
    ("team_name", .boolean true), ("tool_input", .object [("team_name", .string " u ")])]

def restingTree : Tree :=
  .object [("name".toList.map .plain, .string (" ".toList.map .plain)),
    ("session_id".toList.map .plain, .string ("s".toList.map .plain)), ("tool_input".toList.map .plain, .object
      [("team_name".toList.map .plain, .string (" u ".toList.map .plain))]),
    ("team_name".toList.map .plain, .boolean true)]

def restingText : String :=
  "\x7b\"name\":\" \",\"session_id\":\"s\",\"tool_input\":\x7b\"team_name\":\" u \"\x7d,\"team_name\":true\x7d"

theorem ofText?_resting : Value.ofText? restingText = some resting :=
  (Value.ofText?_of_written (t := restingTree) (Token.spells_of_scan (by decide +kernel))).trans rfl

def idling : Invocation :=
  { ending restingText with
    arguments := ["--root", "/p", "teammate-idle"]
    environment := fun name => if name = "ATM_TEAM" then some "env" else (ending restingText).environment name }

theorem payload?_idling : idling.payload? = some resting :=
  payload?_ending ofText?_resting

def markerText : String := "[core]\ndefault_team = \"t\"\nidentity = \"a\"\n"

theorem ofText?_markerText : ProjectConfig.ofText? markerText = some ⟨some "t", "a", none, []⟩ := by
  decide +kernel

/-- The nested team goes before the variable's, and the agent is the one that the project is configured with. -/
theorem idle_names_first_offered_idling :
    idling.payload? = some resting ∧ Hook.field? resting "session_id" = some "s" ∧
      ProjectConfig.ofText? markerText = some ⟨some "t", "a", none, []⟩ ∧
      ∃ idle finish, idling.event? .teammateIdle ⟨some "t", "a", none, []⟩ = some idle ∧
        idling.event? .sessionEnd ⟨some "t", "a", none, []⟩ = some finish ∧ idle.team = some "u" ∧
        idle.agent = finish.agent := by
  have hid : Hook.field? resting "session_id" = some "s" := by decide +kernel
  obtain ⟨idle, hidle, -, hnames⟩ := idle_names_first_offered payload?_idling hid ofText?_markerText
  obtain ⟨-, -, hteam, -⟩ := hnames .team
  obtain ⟨-, -, -, hagent⟩ := hnames .agent
  have hfinish := event?_eq payload?_idling hid .sessionEnd ⟨some "t", "a", none, []⟩
  refine ⟨payload?_idling, hid, ofText?_markerText, idle, _, hidle, hfinish, ?_, ?_⟩
  · have hfirst : ∀ o ∈ [NameOrigin.input ["team_name"]], ∀ u,
        ¬ (idling.nameContext resting ⟨some "t", "a", none, []⟩).Offers .team o u := by
      intro o ho u
      obtain rfl := List.mem_singleton.mp ho
      rw [← NameContext.offer?_eq_some_iff]
      exact nofun
    have hnested : (idling.nameContext resting ⟨some "t", "a", none, []⟩).Offers .team
        (.input ["tool_input", "team_name"]) "u" := by
      rw [← NameContext.offer?_eq_some_iff]
      decide +kernel
    exact (hteam _ _ _ "u" rfl hfirst hnested idling resting _ idle payload?_idling hidle hfirst hnested).1
  · refine (hagent ?_ idling .sessionEnd _ (.inr rfl) hfinish).2
    intro origin horigin hne t
    rw [← NameContext.offer?_eq_some_iff]
    have hnothing : ∀ origin ∈ NameKind.agent.origins, origin ≠ .marker →
        (idling.nameContext resting ⟨some "t", "a", none, []⟩).offer? .agent origin = none := by decide +kernel
    rw [hnothing origin horigin hne]
    exact nofun

end Invocation

end SpawnGate
