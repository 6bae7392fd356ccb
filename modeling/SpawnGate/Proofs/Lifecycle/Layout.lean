import Mathlib.Data.List.Perm.Basic
import SpawnGate.Event
import SpawnGate.Proofs.Json.Writing

/-!
A record is written field by field, and a field without a value may be left out. Its members, in any order,
give each field's slot back, and from the slot the field is read as it was.
-/

namespace SpawnGate

open Json Event

/-- Fields in order, each with a value or left out. -/
abbrev Layout := List (String × Option Value)

namespace Layout

def fields (row : Layout) : List (String × Value) :=
  row.flatMap fun m => present m.1 m.2

/-- What a record has for a field that was written with a value or left out. -/
def slotOf : Option Value → Slot
  | some v => .given v.tree
  | none => .unnamed

theorem eq_of_mem_present {name : String} {v : Option Value} {m : String × Value}
    (h : m ∈ present name v) : m.1 = name := by
  simp only [present, Option.mem_toList, Option.map_eq_some_iff] at h
  obtain ⟨w, -, rfl⟩ := h
  rfl

theorem filter_present_self (name : String) (v : Option Value) :
    (present name v).filter (·.1 = name) = present name v := by
  apply List.filter_eq_self.mpr
  intro m hm
  rw [decide_eq_true_eq]
  exact eq_of_mem_present hm

theorem filter_fields_of_not_mem {row : Layout} {name : String} (h : name ∉ row.map (·.1)) :
    row.fields.filter (·.1 = name) = [] := by
  rw [List.filter_eq_nil_iff]
  intro m hm
  obtain ⟨n, hn, hm⟩ := List.mem_flatMap.mp hm
  rw [decide_eq_true_eq, eq_of_mem_present hm]
  rintro rfl
  exact h (List.mem_map_of_mem hn)

theorem filter_fields {row : Layout} (hrow : (row.map (·.1)).Nodup) {name : String} {v : Option Value}
    (h : (name, v) ∈ row) : row.fields.filter (·.1 = name) = present name v := by
  induction row with
  | nil => cases h
  | cons m row ih =>
    rw [List.map_cons, List.nodup_cons] at hrow
    rw [fields, List.flatMap_cons, List.filter_append]
    rcases List.mem_cons.mp h with rfl | h
    · rw [filter_present_self]
      have hrest := filter_fields_of_not_mem hrow.1
      rw [fields] at hrest
      rw [hrest, List.append_nil]
    · have hother : (present m.1 m.2).filter (·.1 = name) = [] := by
        rw [List.filter_eq_nil_iff]
        intro n hn
        rw [decide_eq_true_eq, eq_of_mem_present hn]
        intro hname
        exact hrow.1 (List.mem_map.mpr ⟨(name, v), h, hname.symm⟩)
      rw [hother, List.nil_append]
      exact ih hrow.2 h

theorem get?_fields {row : Layout} (hrow : (row.map (·.1)).Nodup) {name : String} {v : Option Value}
    (h : (name, v) ∈ row) : Members.get? name row.fields = v := by
  rw [Members.get?, ← List.head?_filter, filter_fields hrow h]
  cases v <;> rfl

theorem keys_fields_sublist (row : Layout) : (row.fields.map (·.1)).Sublist (row.map (·.1)) := by
  induction row with
  | nil => exact .slnil
  | cons m row ih =>
    obtain ⟨name, v⟩ := m
    cases v with
    | none => exact ih.cons name
    | some v => exact ih.cons_cons name

theorem namedMembers?_memberTrees (members : List (String × Value)) :
    namedMembers? (Value.memberTrees members) = some (members.map fun m => (m.1, m.2.tree)) := by
  induction members with
  | nil => rfl
  | cons m r ih =>
    simp only [Value.memberTrees, namedMembers?, text?_symbolsOf, ih, Option.bind_eq_bind, Option.bind_some,
      Option.pure_def, List.map_cons]

theorem filter_of_perm {row : Layout} (hrow : (row.map (·.1)).Nodup) {members : List (String × Value)}
    (hperm : members.Perm row.fields) {name : String} {v : Option Value} (h : (name, v) ∈ row) :
    members.filter (·.1 = name) = present name v := by
  have hfilter := hperm.filter (·.1 = name)
  rw [filter_fields hrow h] at hfilter
  cases v with
  | none => exact hfilter.eq_nil
  | some v => exact List.perm_singleton.mp hfilter

theorem namedSlot?_of_perm {row : Layout} (hrow : (row.map (·.1)).Nodup) {members : List (String × Value)}
    (hperm : members.Perm row.fields) {name : String} {v : Option Value} (h : (name, v) ∈ row) :
    namedSlot? (members.map fun m => (m.1, m.2.tree)) name = some (slotOf v) := by
  have hfilter : (members.map fun m => (m.1, m.2.tree)).filter (·.1 = name) =
      (members.filter (·.1 = name)).map fun m => (m.1, m.2.tree) := List.filter_map
  rw [namedSlot?, hfilter, filter_of_perm hrow hperm h]
  cases v <;> rfl

theorem mapM_eq_some_map {α β γ : Type} {f : α → Option β} {g : γ → α} {k : γ → β} {row : List γ}
    (h : ∀ m ∈ row, f (g m) = some (k m)) : (row.map g).mapM f = some (row.map k) := by
  induction row with
  | nil => rfl
  | cons m row ih =>
    obtain ⟨hm, hrow⟩ := List.forall_mem_cons.mp h
    rw [List.map_cons, List.mapM_cons, hm, ih hrow]
    rfl

/-- The order of the members does not matter to the slots. -/
theorem slots?_of_perm {row : Layout} (hrow : (row.map (·.1)).Nodup) {members : List (String × Value)}
    (hperm : members.Perm row.fields) :
    slots? (row.map (·.1)) (.object (Value.memberTrees members)) = some (row.map fun m => slotOf m.2) := by
  rw [slots?, namedMembers?_memberTrees, Option.bind_eq_bind, Option.bind_some]
  apply mapM_eq_some_map
  intro m hm
  exact namedSlot?_of_perm hrow hperm hm

theorem string?_tree (s : String) : (Value.string s).tree.string? = some s := by
  rw [Value.tree, Tree.string?, text?_symbolsOf]

theorem alternative?_tree (s : String) : (Value.string s).tree.alternative? = some s := by
  rw [Value.tree, Tree.alternative?, text?_symbolsOf]

theorem natBelow?_tree {limit n : ℕ} (h : n < limit) :
    (Value.number (.integer n)).tree.natBelow? limit = some n := by
  have hnumeral : (Number.integer n).numeral = ⟨false, Decimal.digits n, [], none⟩ := rfl
  rw [Value.tree, hnumeral, Tree.natBelow?, Numeral.natBelow?, Decimal.ofDigits_digits]
  simp [Numeral.isWhole, h]

variable {α β : Type}

theorem required_slotOf (read : Tree → Option α) (v : Value) :
    (slotOf (some v)).required read = read v.tree := rfl

theorem nullable_tree (read : Tree → Option α) {v : Value} (h : v ≠ .null) :
    Slot.nullable read v.tree = some <$> read v.tree := by
  cases v with
  | null => exact absurd rfl h
  | _ => rfl

theorem optional_stringOrNull (s : Option String) :
    (slotOf (some (stringOrNull s))).optional Tree.string? = some s := by
  cases s with
  | none => rfl
  | some s =>
    have hnull : Value.string s ≠ .null := by simp
    have hread := nullable_tree Tree.string? hnull
    rw [string?_tree] at hread
    exact hread

/-- A field that is left out for no value is read back as it was. -/
theorem defaulted_slotOf {read : Tree → Option β} {toValue : α → Value} {f : α → β}
    (hnull : ∀ a, toValue a ≠ .null) (hread : ∀ a, read (toValue a).tree = some (f a)) (x : Option α) :
    (slotOf (x.map toValue)).defaulted (Slot.nullable read) none = some (x.map f) := by
  cases x with
  | none => rfl
  | some a =>
    have hgiven := nullable_tree read (hnull a)
    rw [hread] at hgiven
    exact hgiven

end Layout

end SpawnGate
