import SpawnGate.Spawn.Request
import SpawnGate.Proofs.Json.Readable
import SpawnGate.Proofs.Trimming

/-!
How a spawn request reads the fields of a hook's input: each one is the trimmed text of a string that
is not blank, and whatever else stands at its place counts as nothing.
-/

namespace SpawnGate

open Json

namespace Hook

/-- A path of keys leads to a string that is not blank and that trims to the text. -/
def TextAt : Value → List String → String → Prop
  | v, [], s => ∃ raw, v = .string raw ∧ Text.trim raw = s ∧ s ≠ ""
  | v, k :: path, s => ∃ inner, v.get? k = some inner ∧ TextAt inner path s

/-- The text at the first of some paths that has one, and the empty text if none has. -/
inductive FirstText (v : Value) : List (List String) → String → Prop
  | missing : FirstText v [] ""
  | here {path paths s} : TextAt v path s → FirstText v (path :: paths) s
  | later {path paths s} : (∀ t, ¬ TextAt v path t) → FirstText v paths s →
      FirstText v (path :: paths) s

theorem TextAt.usable {v : Value} {path : List String} {s : String} (h : TextAt v path s) :
    Text.usable s = some s := by
  induction path generalizing v with
  | nil =>
    obtain ⟨raw, -, hraw, hs⟩ := h
    exact Text.usable_of_usable ((Text.usable_eq_some_iff raw s).mpr ⟨hraw, hs⟩)
  | cons k path ih =>
    obtain ⟨inner, -, hinner⟩ := h
    exact ih hinner

theorem usable_string_iff (v : Value) (s : String) :
    v.string?.bind Text.usable = some s ↔ TextAt v [] s := by
  cases v <;> simp [Value.string?, TextAt, Text.usable_eq_some_iff]

/-- The usable text that a path of keys leads to. -/
def textAt? : List String → Value → Option String
  | [], v => v.string?.bind Text.usable
  | k :: path, v => (v.get? k).bind (textAt? path)

theorem textAt?_eq_some_iff (path : List String) (v : Value) (s : String) :
    textAt? path v = some s ↔ TextAt v path s := by
  induction path generalizing v with
  | nil => exact usable_string_iff v s
  | cons k path ih =>
    rw [textAt?, Option.bind_eq_some_iff]
    simp only [ih]
    rfl

theorem field?_eq_textAt? (v : Value) (key : String) : field? v key = textAt? [key] v :=
  Option.bind_assoc _ _ _

theorem nested?_eq_textAt? (v : Value) (outer key : String) : nested? v outer key = textAt? [outer, key] v := by
  simp only [nested?, field?_eq_textAt?]
  rfl

theorem field?_eq_some_iff (v : Value) (key s : String) : field? v key = some s ↔ TextAt v [key] s := by
  rw [field?_eq_textAt?, textAt?_eq_some_iff]

theorem nested?_eq_some_iff (v : Value) (outer key s : String) :
    nested? v outer key = some s ↔ TextAt v [outer, key] s := by
  rw [nested?_eq_textAt?, textAt?_eq_some_iff]

theorem firstText_nil_iff (v : Value) (s : String) : FirstText v [] s ↔ s = "" := by
  constructor
  · rintro ⟨⟩
    rfl
  · rintro rfl
    exact .missing

theorem firstText_cons_iff {v : Value} {path : List String} {paths : List (List String)}
    {found : Option String} (hfound : ∀ s, found = some s ↔ TextAt v path s) (s : String) :
    FirstText v (path :: paths) s ↔ found = some s ∨ (found = none ∧ FirstText v paths s) := by
  constructor
  · intro h
    cases h with
    | here h => exact .inl ((hfound s).mpr h)
    | later hnone h =>
      refine .inr ⟨?_, h⟩
      cases hf : found with
      | none => rfl
      | some t => exact absurd ((hfound t).mp hf) (hnone t)
  · rintro (h | ⟨hnone, h⟩)
    · exact .here ((hfound s).mp h)
    · refine .later (fun t ht => ?_) h
      rw [hnone] at hfound
      cases (hfound t).mpr ht

/-- The text in a tree's string at a path of keys. -/
def textIn? : List String → Tree → Option String
  | [], t => t.string?.bind Text.usable
  | k :: path, t => (t.get? k).bind (textIn? path)

theorem field?_of_ofTree? {room : Nat} {t : Tree} {v : Value} (h : Value.ofTree? room t = some v)
    (k : String) : field? v k = textIn? [k] t := by
  rw [field?, Value.get?_of_ofTree? h]
  simp only [textIn?]
  cases t.get? k with
  | none => rfl
  | some inner => exact congrArg (Option.bind · Text.usable) (Value.string?_ofTree? _ inner)

theorem nested?_of_ofTree? {room : Nat} {members : List (List Symbol × Tree)} {v : Value}
    (h : Value.ofTree? room (.object members) = some v) (outer k : String) :
    nested? v outer k = textIn? [outer, k] (.object members) := by
  rw [nested?, Value.get?_of_ofTree? h]
  simp only [textIn?, Tree.get?_object]
  cases hinner : Tree.member? outer members with
  | none => rfl
  | some inner =>
    have hreadable := (Value.isSome_ofTree?_iff room _).mp (by rw [h]; rfl)
    cases room with
    | zero => cases h
    | succ room =>
      obtain ⟨m, hm, rfl⟩ := Tree.mem_of_member?_eq_some hinner
      have hmember := ((Tree.readableWithin_object_iff room members).mp hreadable m hm).2
      obtain ⟨w, hw⟩ := Option.isSome_iff_exists.mp ((Value.isSome_ofTree?_iff room m.2).mpr hmember)
      have hfield := field?_of_ofTree? hw k
      simp only [textIn?] at hfield
      rw [Option.bind_some, Nat.add_sub_cancel, hw, Option.bind_some, hfield, Option.bind_some]

end Hook

namespace SpawnRequest

open Hook

theorem agentKind_ofValue_iff (v : Value) (k : String) :
    (ofValue v).agentKind = k ↔
      FirstText v [["tool_input", "subagent_type"], ["tool_input", "agent_kind"]] k := by
  rw [firstText_cons_iff (nested?_eq_some_iff v _ _), firstText_cons_iff (nested?_eq_some_iff v _ _),
    firstText_nil_iff]
  simp only [ofValue, toolField]
  cases nested? v "tool_input" "subagent_type" with
  | some s => simp
  | none => cases nested? v "tool_input" "agent_kind" <;> simp [eq_comm]

theorem callerId_ofValue_iff (v : Value) (c : String) :
    (ofValue v).callerId = c ↔ FirstText v [["session_id"]] c := by
  rw [firstText_cons_iff (field?_eq_some_iff v _), firstText_nil_iff]
  simp only [ofValue]
  cases field? v "session_id" <;> simp [eq_comm]

theorem teammate_ofValue_eq_some_iff (v : Value) (n : String) :
    (ofValue v).teammate = some n ↔ TextAt v ["tool_input", "name"] n :=
  nested?_eq_some_iff v _ _ n

theorem teammate_ofValue_eq_none_iff (v : Value) :
    (ofValue v).teammate = none ↔ ∀ n, ¬ TextAt v ["tool_input", "name"] n := by
  simp only [← teammate_ofValue_eq_some_iff, Option.eq_none_iff_forall_ne_some, ne_eq]

theorem team_ofValue_eq_some_iff (v : Value) (t : String) :
    (ofValue v).team = some t ↔ TextAt v ["tool_input", "team_name"] t :=
  nested?_eq_some_iff v _ _ t

theorem ofText?_eq_some_iff (s : String) (r : SpawnRequest) :
    ofText? s = some r ↔ ∃ members, Value.ofText? s = some (.object members) ∧ r = ofValue (.object members) := by
  rw [ofText?, Option.bind_eq_some_iff]
  constructor
  · rintro ⟨v, hv, hr⟩
    cases v with
    | object members => exact ⟨members, hv, by simpa [Value.isObject, eq_comm] using hr⟩
    | _ => simp [Value.isObject] at hr
  · rintro ⟨members, hv, rfl⟩
    exact ⟨_, hv, rfl⟩

/-- The request that a tree makes, wherever it can be read. -/
def ofTree (t : Tree) : SpawnRequest where
  agentKind :=
    (textIn? [toolField, "subagent_type"] t <|> textIn? [toolField, "agent_kind"] t).getD ""
  teammate := textIn? [toolField, "name"] t
  team := textIn? [toolField, "team_name"] t
  callerId := (textIn? ["session_id"] t).getD ""

theorem ofText?_of_written {s : String} {members : List (List Symbol × Tree)}
    (h : (Tree.object members).Written s.toList) :
    ofText? s = if (Tree.object members).ReadableWithin Value.greatestDepth then
      some (ofTree (.object members)) else none := by
  have hsome := Value.isSome_ofTree?_iff Value.greatestDepth (.object members)
  rw [ofText?, Value.ofText?_of_written h]
  cases hv : Value.ofTree? Value.greatestDepth (.object members) with
  | none =>
    rw [hv] at hsome
    rw [if_neg fun hreadable => absurd (hsome.mpr hreadable) (by decide)]
    rfl
  | some v =>
    rw [hv] at hsome
    obtain ⟨named, rfl⟩ := Value.object_of_ofTree? hv
    rw [if_pos (hsome.mp rfl), Option.bind_some]
    simp only [Value.isObject, if_true, ofValue, ofTree, nested?_of_ofTree? hv, field?_of_ofTree? hv]

end SpawnRequest

end SpawnGate
