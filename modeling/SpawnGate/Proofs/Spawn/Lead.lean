import SpawnGate.Registry
import SpawnGate.Proofs.Json.Readable
import SpawnGate.Proofs.Trimming

/-!
When a registry entry names a lead: its text is an object with exactly one member at the lead's key, or an array of that
one field alone, and the value there is a string that is not blank.
-/

namespace SpawnGate

namespace Json

variable {name : String} {members : List (List Symbol × Tree)}

/-- The members with a name, however their keys are escaped. -/
def membersAt (name : String) (members : List (List Symbol × Tree)) : List (List Symbol × Tree) :=
  members.filter fun m => text? m.1 = some name

theorem membersAt_append (name : String) (before after : List (List Symbol × Tree)) :
    membersAt name (before ++ after) = membersAt name before ++ membersAt name after := by
  rw [membersAt, List.filter_append]
  rfl

theorem membersAt_cons_self {m : List Symbol × Tree} (h : text? m.1 = some name)
    (members : List (List Symbol × Tree)) : membersAt name (m :: members) = m :: membersAt name members := by
  rw [membersAt, List.filter_cons_of_pos (by simpa using h)]
  rfl

theorem membersAt_cons_of_ne {m : List Symbol × Tree} (h : text? m.1 ≠ some name)
    (members : List (List Symbol × Tree)) : membersAt name (m :: members) = membersAt name members := by
  rw [membersAt, List.filter_cons_of_neg (by simpa using h)]
  rfl

theorem exists_namedMembers? (h : ∀ m ∈ members, (text? m.1).isSome = true) :
    ∃ named, namedMembers? members = some named ∧
      ∀ name, named.filter (·.1 = name) = (membersAt name members).map fun m => (name, m.2) := by
  induction members with
  | nil => exact ⟨[], rfl, fun _ => rfl⟩
  | cons m r ih =>
    obtain ⟨hm, hr⟩ := List.forall_mem_cons.mp h
    obtain ⟨key, hkey⟩ := Option.isSome_iff_exists.mp hm
    obtain ⟨named, hnamed, hfilter⟩ := ih hr
    refine ⟨(key, m.2) :: named, ?_, fun name => ?_⟩
    · simp only [namedMembers?, hkey, hnamed, Option.bind_eq_bind, Option.bind_some, Option.pure_def]
    · by_cases hname : key = name
      · rw [membersAt_cons_self (hkey.trans (congrArg some hname)), List.filter_cons_of_pos (by simpa using hname),
          hfilter, List.map_cons, hname]
      · have hother : text? m.1 ≠ some name := fun h => hname (Option.some.inj (hkey.symm.trans h))
        rw [membersAt_cons_of_ne hother, List.filter_cons_of_neg (by simpa using hname), hfilter]

theorem forall_isSome_of_namedMembers? (h : (namedMembers? members).isSome = true) :
    ∀ m ∈ members, (text? m.1).isSome = true := by
  induction members with
  | nil => simp
  | cons m r ih =>
    obtain ⟨named, hnamed⟩ := Option.isSome_iff_exists.mp h
    simp only [namedMembers?, Option.bind_eq_bind, Option.bind_eq_some_iff] at hnamed
    obtain ⟨key, hkey, rest, hrest, -⟩ := hnamed
    refine List.forall_mem_cons.mpr ⟨?_, ih ?_⟩
    · rw [hkey]
      rfl
    · rw [hrest]
      rfl

theorem slots?_object (members : List (List Symbol × Tree)) (name : String) :
    slots? [name] (.object members) =
      (namedMembers? members).bind fun named => (namedSlot? named name).map fun slot => [slot] := by
  rw [slots?]
  cases namedMembers? members with
  | none => rfl
  | some named =>
    simp only [Option.bind_eq_bind, Option.bind_some, List.mapM_cons, List.mapM_nil, Option.pure_def]
    cases namedSlot? named name <;> rfl

theorem slots?_object_of_keys (h : ∀ m ∈ members, (text? m.1).isSome = true) (name : String) :
    slots? [name] (.object members) =
      match membersAt name members with
      | [] => some [.unnamed]
      | [m] => some [.given m.2]
      | _ => none := by
  obtain ⟨named, hnamed, hfilter⟩ := exists_namedMembers? h
  rw [slots?_object, hnamed, Option.bind_some, namedSlot?, hfilter]
  match membersAt name members with
  | [] => rfl
  | [_] => rfl
  | _ :: _ :: _ => rfl

end Json

namespace Registry

open Json

variable {s : String} {members : List (List Symbol × Tree)}

/-- What the slots of a registry entry say of a team's lead. -/
def leadOfSlots (team : String) : Option (List Slot) → Except Failure String
  | some [lead] =>
    match lead.defaulted (Slot.nullable Tree.string?) none with
    | none => .error .malformed
    | some lead =>
      match lead.bind Text.usable with
      | some id => .ok id
      | none => .error (.noLead team)
  | _ => .error .malformed

theorem leadOfEntry_eq (team text : String) :
    leadOfEntry team text = leadOfSlots team ((Tree.ofText? text).bind (slots? [leadField])) := rfl

theorem leadOfEntry_of_written {t : Tree} (h : t.Written s.toList) (team : String) :
    leadOfEntry team s = leadOfSlots team (slots? [leadField] t) := by
  rw [leadOfEntry_eq, (Tree.ofText?_eq_some_iff s t).mpr h, Option.bind_some]

theorem leadOfSlots_given {t : Tree} {r : String} (h : t.string? = some r) (team : String) :
    leadOfSlots team (some [.given t]) =
      match Text.usable r with
      | some id => .ok id
      | none => .error (.noLead team) := by
  obtain ⟨symbols, rfl, htext⟩ := Tree.eq_string_of_string? h
  simp only [leadOfSlots, Slot.defaulted, Slot.nullable, h, Option.map_eq_map, Option.map_some, Option.bind_some]

theorem toOption_leadOfSlots_given (team : String) (t : Tree) :
    (leadOfSlots team (some [.given t])).toOption = t.string?.bind Text.usable := by
  cases hstring : t.string? with
  | none =>
    cases t with
    | string symbols =>
      simp only [leadOfSlots, Slot.defaulted, Slot.nullable, hstring, Option.map_eq_map, Option.map_none]
      rfl
    | _ => rfl
  | some raw =>
    rw [leadOfSlots_given hstring, Option.bind_some]
    cases Text.usable raw <;> rfl

/-- The text is a JSON object with these members, and each of their keys is a text. -/
structure IsEntry (s : String) (members : List (List Symbol × Tree)) : Prop where
  written : (Tree.object members).Written s.toList
  keys : ∀ m ∈ members, (text? m.1).isSome = true

/-- Of the members exactly one has the lead's key, and its value is a string of which `id` is left after trimming. -/
def Names (members : List (List Symbol × Tree)) (id : String) : Prop :=
  ∃ m raw, membersAt leadField members = [m] ∧ m.2.string? = some raw ∧ ¬ Text.Blank raw.toList ∧ Text.trim raw = id

theorem toOption_leadOfEntry_eq_some_iff (h : IsEntry s members) (team id : String) :
    (leadOfEntry team s).toOption = some id ↔ Names members id := by
  rw [leadOfEntry_of_written h.written, slots?_object_of_keys h.keys]
  unfold Names
  match membersAt leadField members with
  | [] =>
    refine iff_of_false (by rintro ⟨⟩) ?_
    rintro ⟨m, raw, ⟨⟩, -⟩
  | [m] =>
    simp only [toOption_leadOfSlots_given, Option.bind_eq_some_iff, Text.usable_eq_some_iff_not_blank]
    constructor
    · rintro ⟨raw, hraw, hlead⟩
      exact ⟨m, raw, rfl, hraw, hlead⟩
    · rintro ⟨n, raw, hsingle, hraw, hlead⟩
      obtain rfl := List.singleton_inj.mp hsingle
      exact ⟨raw, hraw, hlead⟩
  | _ :: _ :: _ =>
    refine iff_of_false (by rintro ⟨⟩) ?_
    rintro ⟨m, raw, ⟨⟩, -⟩

/-- The text names a lead: it is an object that does, or an array with such a string and nothing else. -/
inductive TextNames (s id : String) : Prop
  | object {entry} : IsEntry s entry → Names entry id → TextNames s id
  | array {item raw} : (Tree.array [item]).Written s.toList → item.string? = some raw → ¬ Text.Blank raw.toList →
      Text.trim raw = id → TextNames s id

theorem leadOfEntry_array_eq_some_iff {items : List Tree} (h : (Tree.array items).Written s.toList) (team id : String) :
    (leadOfEntry team s).toOption = some id ↔
      ∃ item raw, items = [item] ∧ item.string? = some raw ∧ ¬ Text.Blank raw.toList ∧ Text.trim raw = id := by
  rw [leadOfEntry_of_written h]
  match items with
  | [] =>
    refine iff_of_false (by rintro ⟨⟩) ?_
    rintro ⟨item, raw, ⟨⟩, -⟩
  | [item] =>
    have hslots : slots? [leadField] (.array [item]) = some [.given item] := rfl
    rw [hslots, toOption_leadOfSlots_given]
    simp only [Option.bind_eq_some_iff, Text.usable_eq_some_iff_not_blank, List.cons.injEq, and_true]
    constructor
    · rintro ⟨raw, hraw⟩
      exact ⟨item, raw, rfl, hraw⟩
    · rintro ⟨_, raw, rfl, hraw⟩
      exact ⟨raw, hraw⟩
  | _ :: _ :: _ =>
    refine iff_of_false (by rintro ⟨⟩) ?_
    rintro ⟨item, raw, ⟨⟩, -⟩

/-- The lookup reads exactly the lead that an entry's text names. -/
theorem toOption_leadOfEntry_iff_textNames (team s id : String) :
    (leadOfEntry team s).toOption = some id ↔ TextNames s id := by
  constructor
  · intro h
    cases htree : Tree.ofText? s with
    | none =>
      rw [leadOfEntry_eq, htree] at h
      cases h
    | some t =>
      have hwritten := (Tree.ofText?_eq_some_iff s t).mp htree
      have hslots := h
      rw [leadOfEntry_of_written hwritten] at hslots
      cases t with
      | object members =>
        have hkeys : ∀ m ∈ members, (text? m.1).isSome = true := by
          rw [slots?_object] at hslots
          apply forall_isSome_of_namedMembers?
          cases hnamed : namedMembers? members with
          | none =>
            rw [hnamed] at hslots
            cases hslots
          | some named => rfl
        exact .object ⟨hwritten, hkeys⟩ ((toOption_leadOfEntry_eq_some_iff ⟨hwritten, hkeys⟩ team id).mp h)
      | array items =>
        obtain ⟨item, raw, rfl, hraw, hblank, htrim⟩ := (leadOfEntry_array_eq_some_iff hwritten team id).mp h
        exact .array hwritten hraw hblank htrim
      | _ => cases hslots
  · rintro (⟨hentry, hnames⟩ | ⟨hwritten, hraw, hblank, htrim⟩)
    · exact (toOption_leadOfEntry_eq_some_iff hentry team id).mpr hnames
    · exact (leadOfEntry_array_eq_some_iff hwritten team id).mpr ⟨_, _, rfl, hraw, hblank, htrim⟩

end Registry

end SpawnGate
