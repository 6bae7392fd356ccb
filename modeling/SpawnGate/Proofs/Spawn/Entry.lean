import Mathlib.Logic.Relation
import SpawnGate.Proofs.Spawn.Lead
import SpawnGate.Proofs.Spawn.Lookup

/-!
A registry entry belongs to other tools and holds much besides the lead. Of an entry that is an object only the members
with the lead's key matter; all others may come, go and change places, whatever is in them.
-/

namespace SpawnGate

namespace Json

variable {name : String} {members members' : List (List Symbol × Tree)}

/-- One change to an object that concerns other names: a member comes, which may be a copy of one that is there, a member
goes, or two neighbours change places. -/
inductive EditBeside (name : String) : List (List Symbol × Tree) → List (List Symbol × Tree) → Prop
  | insert (before after) {m} : text? m.1 ≠ some name → EditBeside name (before ++ after) (before ++ m :: after)
  | delete (before after) {m} : text? m.1 ≠ some name → EditBeside name (before ++ m :: after) (before ++ after)
  | swap (before after) {m n} : text? m.1 ≠ some name ∨ text? n.1 ≠ some name →
      EditBeside name (before ++ m :: n :: after) (before ++ n :: m :: after)

def EditsBeside (name : String) : List (List Symbol × Tree) → List (List Symbol × Tree) → Prop :=
  Relation.ReflTransGen (EditBeside name)

theorem EditBeside.symm (h : EditBeside name members members') : EditBeside name members' members := by
  cases h with
  | insert before after hm => exact .delete before after hm
  | delete before after hm => exact .insert before after hm
  | swap before after hmn => exact .swap before after hmn.symm

theorem EditBeside.cons (m : List Symbol × Tree) (h : EditBeside name members members') :
    EditBeside name (m :: members) (m :: members') := by
  cases h with
  | insert before after hn => exact .insert (m :: before) after hn
  | delete before after hn => exact .delete (m :: before) after hn
  | swap before after hmn => exact .swap (m :: before) after hmn

theorem EditBeside.membersAt_eq (h : EditBeside name members members') :
    membersAt name members = membersAt name members' := by
  cases h with
  | insert before after hm => rw [membersAt_append, membersAt_append, membersAt_cons_of_ne hm]
  | delete before after hm => rw [membersAt_append, membersAt_append, membersAt_cons_of_ne hm]
  | swap before after hmn =>
    rw [membersAt_append, membersAt_append]
    congr 1
    rcases hmn with hm | hn
    · simp only [membersAt, List.filter_cons, hm, decide_false, Bool.false_eq_true, if_false]
    · simp only [membersAt, List.filter_cons, hn, decide_false, Bool.false_eq_true, if_false]

theorem EditsBeside.symm (h : EditsBeside name members members') : EditsBeside name members' members := by
  induction h with
  | refl => exact .refl
  | tail _ hlast ih => exact .head hlast.symm ih

theorem EditsBeside.cons (m : List Symbol × Tree) (h : EditsBeside name members members') :
    EditsBeside name (m :: members) (m :: members') := by
  induction h with
  | refl => exact .refl
  | tail _ hlast ih => exact ih.tail (hlast.cons m)

theorem editsBeside_membersAt (name : String) (members : List (List Symbol × Tree)) :
    EditsBeside name members (membersAt name members) := by
  induction members with
  | nil => exact .refl
  | cons m r ih =>
    by_cases hm : text? m.1 = some name
    · rw [membersAt_cons_self hm]
      exact ih.cons m
    · rw [membersAt_cons_of_ne hm]
      exact .head (.delete [] r hm) ih

/-- Such changes lead exactly to the objects with the same members at the name. -/
theorem editsBeside_iff : EditsBeside name members members' ↔ membersAt name members = membersAt name members' := by
  constructor
  · intro h
    induction h with
    | refl => rfl
    | tail _ hlast ih => exact ih.trans hlast.membersAt_eq
  · intro h
    have hclear := editsBeside_membersAt name members
    rw [h] at hclear
    exact hclear.trans (editsBeside_membersAt name members').symm

end Json

namespace Registry

open Json Locations

variable {s s' : String} {members members' : List (List Symbol × Tree)}

theorem names_congr (h : EditsBeside leadField members members') (id : String) :
    Names members id ↔ Names members' id := by
  unfold Names
  rw [editsBeside_iff.mp h]

def found (home team : String) (w : World) : Option String :=
  ((lead? home team : World.Run (Option String)).run w).1

theorem found_eq_some_iff {home team : String} (hteam : Plain (Text.trim team)) {w : World}
    (hfile : w.text? (teamConfig home (Text.trim team)) = some s) (h : IsEntry s members) (id : String) :
    found home team w = some id ↔ Names members id := by
  rw [found, World.run_lead?, filter_usable_eq, if_pos hteam, Option.bind_some, hfile, Option.bind_some]
  exact toOption_leadOfEntry_eq_some_iff h (Text.trim team) id

/-- Where the entry of a plainly named team is an object, a lookup finds the trimmed lead if exactly one member has the
lead's key and its value is a string that is not blank, and nothing otherwise. Changes to members with other keys do not
change what it finds. -/
theorem lookup_reads_lead_alone {home team : String} (hteam : Plain (Text.trim team)) {w : World}
    (hfile : w.text? (teamConfig home (Text.trim team)) = some s) (h : IsEntry s members) :
    (∀ id, found home team w = some id ↔ Names members id) ∧
    (found home team w = none ↔ ∀ id, ¬ Names members id) ∧
    ∀ {w' : World} {s' : String} {members' : List (List Symbol × Tree)},
      w'.text? (teamConfig home (Text.trim team)) = some s' → IsEntry s' members' →
      EditsBeside leadField members members' → found home team w' = found home team w := by
  have hfound := found_eq_some_iff hteam hfile h
  refine ⟨hfound, ?_, ?_⟩
  · simp only [Option.eq_none_iff_forall_ne_some, ne_eq, hfound]
  · intro w' s' members' hfile' h' hedits
    apply Option.ext
    intro id
    rw [found_eq_some_iff hteam hfile' h', hfound, names_congr hedits]

def entered (entry : String) : World :=
  { ledBy "" with files := (ledBy "").files.set ["h", ".claude", "teams", "t", "config.json"] (.file entry.toUTF8) }

theorem text?_entered (entry : String) : (entered entry).text? (teamConfig "/h" (Text.trim " t ")) = some entry := by
  have hpath : Path.ofText (teamConfig "/h" (Text.trim " t ")) =
      ⟨["", "h", ".claude", "teams", "t", "config.json"]⟩ := by decide +kernel
  apply World.text?_of_read?
  rw [hpath]
  rfl

/-- The lead's key with its capital escaped. -/
def escapedKey : List Symbol :=
  "lead".toList.map .plain ++ .unit ⟨0x53, by decide⟩ :: "essionId".toList.map .plain

def spareMembers : List (List Symbol × Tree) :=
  [("members".toList.map .plain, .array []), (escapedKey, .string (" lead ".toList.map .plain)),
    ("name".toList.map .plain, .string ("t".toList.map .plain))]

def spareEntry : String :=
  "\x7b\"members\":[],\"lead\\u0053essionId\":\" lead \",\"name\":\"t\"\x7d"

/-- Another name, with half of a surrogate pair and a number out of range in it, and no list of members. -/
def crowdedMembers : List (List Symbol × Tree) :=
  [(escapedKey, .string (" lead ".toList.map .plain)), ("name".toList.map .plain, .string ("t".toList.map .plain)),
    ("name".toList.map .plain, .object [([.unit ⟨0xd800, by decide⟩],
      .array [.number ⟨false, Decimal.digits 1, [], some (false, Decimal.digits 999)⟩])])]

def crowdedEntry : String :=
  "\x7b\"lead\\u0053essionId\":\" lead \",\"name\":\"t\",\"name\":\x7b\"\\ud800\":[1e999]\x7d\x7d"

theorem isEntry_spareEntry : IsEntry spareEntry spareMembers where
  written := Token.spells_of_scan (by decide +kernel)
  keys := by decide

theorem isEntry_crowdedEntry : IsEntry crowdedEntry crowdedMembers where
  written := Token.spells_of_scan (by decide +kernel)
  keys := by decide

theorem lookup_reads_lead_alone_crowded :
    Plain (Text.trim " t ") ∧ IsEntry spareEntry spareMembers ∧ IsEntry crowdedEntry crowdedMembers ∧
      EditsBeside leadField spareMembers crowdedMembers ∧ found "/h" " t " (entered spareEntry) = some "lead" ∧
      found "/h" " t " (entered crowdedEntry) = some "lead" := by
  have hplain : Plain (Text.trim " t ") := by decide +kernel
  have hedits : EditsBeside leadField spareMembers crowdedMembers := editsBeside_iff.mpr rfl
  obtain ⟨hfound, -, hsame⟩ := lookup_reads_lead_alone hplain (text?_entered spareEntry) isEntry_spareEntry
  have hlead : found "/h" " t " (entered spareEntry) = some "lead" :=
    (hfound "lead").mpr ⟨_, " lead ", rfl, rfl, by decide, by decide⟩
  exact ⟨hplain, isEntry_spareEntry, isEntry_crowdedEntry, hedits, hlead,
    (hsame (text?_entered crowdedEntry) isEntry_crowdedEntry hedits).trans hlead⟩

end Registry

end SpawnGate
