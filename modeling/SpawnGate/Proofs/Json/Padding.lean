import Mathlib.Data.List.Forall2
import Mathlib.Logic.Relation
import SpawnGate.Proofs.Json.Readable
import SpawnGate.Proofs.Trimming

/-!
White space around strings of a JSON tree: the tree stays readable or not, has the same members, and its strings trim
to the same texts.
-/

namespace SpawnGate

section Alongside

variable {κ α : Type} {isAt : κ → Prop} {R : α → α → Prop}

/-- Lists of members with the same keys in the same order and the same values, but for those of some keys. -/
def Alongside (isAt : κ → Prop) (R : α → α → Prop) : List (κ × α) → List (κ × α) → Prop :=
  List.Forall₂ fun m m' => m.1 = m'.1 ∧ (m.2 = m'.2 ∨ isAt m.1 ∧ R m.2 m'.2)

namespace Alongside

theorem refl (members : List (κ × α)) : Alongside isAt R members members :=
  List.forall₂_same.mpr fun _ _ => ⟨rfl, .inl rfl⟩

theorem filter {members members' : List (κ × α)} (h : Alongside isAt R members members') (keep : κ → Bool) :
    Alongside isAt R (members.filter fun m => keep m.1) (members'.filter fun m => keep m.1) := by
  refine List.rel_filter ?_ h
  rintro m m' ⟨hkey, -⟩
  simp only [hkey]

theorem eq_of_forall_not {members members' : List (κ × α)} (h : Alongside isAt R members members')
    (hnone : ∀ m ∈ members, ¬ isAt m.1) : members = members' := by
  induction h with
  | nil => rfl
  | cons hm _ ih =>
    obtain ⟨hkey, hvalue⟩ := hm
    obtain ⟨hfirst, hrest⟩ := List.forall_mem_cons.mp hnone
    rw [Prod.ext hkey (hvalue.resolve_right fun hat => hfirst hat.1), ih hrest]

end Alongside

end Alongside

namespace Json

namespace Tree

/-- White space is put around the string that a path of keys leads to; of members with one key, around that of any. -/
def PadsAt : List String → Tree → Tree → Prop
  | [], t, t' => ∃ r r', t.string? = some r ∧ t'.string? = some r' ∧ Text.Padded r r'
  | k :: path, t, t' => ∃ members members', t = .object members ∧ t' = .object members' ∧
      Alongside (fun key => text? key = some k) (PadsAt path) members members'

/-- White space is put around any of the strings that keys lead to. -/
def Pads : Tree → Tree → Prop :=
  Relation.ReflTransGen fun t t' => ∃ path, PadsAt path t t'

theorem readableWithin_of_string? {t : Tree} {r : String} (h : t.string? = some r) (room : Nat) :
    t.ReadableWithin room := by
  obtain ⟨symbols, rfl, htext⟩ := eq_string_of_string? h
  exact ⟨Nat.zero_le room, by rw [representable, htext, Option.isSome_some]⟩

theorem PadsAt.readableWithin_iff {path : List String} {t t' : Tree} (h : PadsAt path t t') (room : Nat) :
    t.ReadableWithin room ↔ t'.ReadableWithin room := by
  induction path generalizing t t' room with
  | nil =>
    obtain ⟨r, r', hr, hr', -⟩ := h
    exact iff_of_true (readableWithin_of_string? hr room) (readableWithin_of_string? hr' room)
  | cons k path ih =>
    obtain ⟨members, members', rfl, rfl, hmembers⟩ := h
    cases room with
    | zero => exact iff_of_false (not_readableWithin_zero members) (not_readableWithin_zero members')
    | succ room =>
      rw [readableWithin_object_iff, readableWithin_object_iff]
      induction hmembers with
      | nil => rfl
      | cons hm _ ihmembers =>
        obtain ⟨hkey, hvalue⟩ := hm
        have hsame : (_ : Tree).ReadableWithin room ↔ _ :=
          hvalue.elim (fun heq => heq ▸ Iff.rfl) fun hat => ih hat.2 room
        rw [List.forall_mem_cons, List.forall_mem_cons, hkey, hsame, ihmembers]

theorem member?_alongside {k : String} {R : Tree → Tree → Prop} {members members' : List (List Symbol × Tree)}
    (h : Alongside (fun key => text? key = some k) R members members') (k' : String) :
    member? k' members = member? k' members' ∨
      ∃ t t', member? k' members = some t ∧ member? k' members' = some t' ∧ R t t' := by
  induction h with
  | nil => exact .inl rfl
  | @cons m m' r r' hm _ ih =>
    obtain ⟨hkey, hvalue⟩ := hm
    rcases ih with hsame | ⟨t, t', ht, ht', hR⟩
    · rw [member?, member?, hsame, hkey]
      cases hlater : member? k' r' with
      | some t => exact .inl rfl
      | none =>
        by_cases hk : text? m'.1 = some k'
        · rw [if_pos hk, if_pos hk]
          rcases hvalue with heq | ⟨-, hR⟩
          · exact .inl (by rw [heq])
          · exact .inr ⟨m.2, m'.2, rfl, rfl, hR⟩
        · rw [if_neg hk, if_neg hk]
          exact .inl rfl
    · rw [member?, member?, ht, ht']
      exact .inr ⟨t, t', rfl, rfl, hR⟩

theorem namedMembers?_alongside {k : String} {R : Tree → Tree → Prop} {members members' : List (List Symbol × Tree)}
    (h : Alongside (fun key => text? key = some k) R members members') :
    (namedMembers? members = none ∧ namedMembers? members' = none) ∨
      ∃ named named', namedMembers? members = some named ∧ namedMembers? members' = some named' ∧
        Alongside (· = k) R named named' := by
  induction h with
  | nil => exact .inr ⟨[], [], rfl, rfl, .refl []⟩
  | @cons m m' r r' hm _ ih =>
    obtain ⟨hkey, hvalue⟩ := hm
    simp only [namedMembers?, hkey]
    cases htext : text? m'.1 with
    | none => exact .inl ⟨rfl, rfl⟩
    | some key =>
      rcases ih with ⟨hnone, hnone'⟩ | ⟨named, named', hnamed, hnamed', hrest⟩
      · exact .inl ⟨by rw [hnone]; rfl, by rw [hnone']; rfl⟩
      · refine .inr ⟨(key, m.2) :: named, (key, m'.2) :: named', by rw [hnamed]; rfl, by rw [hnamed']; rfl, ?_⟩
        refine .cons ⟨rfl, hvalue.imp_right fun hat => ⟨?_, hat.2⟩⟩ hrest
        exact Option.some.inj (htext.symm.trans (hkey ▸ hat.1))

theorem namedSlot?_alongside {k : String} {R : Tree → Tree → Prop} {named named' : List (String × Tree)}
    (h : Alongside (· = k) R named named') (name : String) :
    namedSlot? named name = namedSlot? named' name ∨
      ∃ t t', namedSlot? named name = some (.given t) ∧ namedSlot? named' name = some (.given t') ∧ R t t' := by
  have hfilter := h.filter fun key => decide (key = name)
  unfold namedSlot?
  generalize named.filter (fun m => decide (m.1 = name)) = found at hfilter ⊢
  generalize named'.filter (fun m => decide (m.1 = name)) = found' at hfilter ⊢
  cases hfilter with
  | nil => exact .inl rfl
  | @cons m m' r r' hm hrest =>
    obtain ⟨-, hvalue⟩ := hm
    cases hrest with
    | nil =>
      rcases hvalue with heq | ⟨-, hR⟩
      · exact .inl (by simp only [heq])
      · exact .inr ⟨m.2, m'.2, rfl, rfl, hR⟩
    | cons => exact .inl rfl

end Tree

end Json

end SpawnGate
