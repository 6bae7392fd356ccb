import SpawnGate.Proofs.Json.Grammar
import SpawnGate.Json.Record

/-!
Which trees are read as values: those whose nesting has room, whose numbers are in range and whose
strings are texts. An object is then read member by member.
-/

namespace SpawnGate.Json

namespace Tree

mutual

/-- The number of arrays and objects around the innermost part of a tree. -/
def depth : Tree → Nat
  | .array items => itemDepth items + 1
  | .object members => memberDepth members + 1
  | _ => 0

def itemDepth : List Tree → Nat
  | [] => 0
  | t :: r => max (depth t) (itemDepth r)

def memberDepth : List (List Symbol × Tree) → Nat
  | [] => 0
  | (_, t) :: r => max (depth t) (memberDepth r)

end

mutual

/-- All numbers are in range and all strings, also those of keys, are texts. -/
def representable : Tree → Bool
  | .number n => (Number.ofNumeral? n).isSome
  | .string s => (text? s).isSome
  | .array items => itemsRepresentable items
  | .object members => membersRepresentable members
  | _ => true

def itemsRepresentable : List Tree → Bool
  | [] => true
  | t :: r => representable t && itemsRepresentable r

def membersRepresentable : List (List Symbol × Tree) → Bool
  | [] => true
  | (k, t) :: r => (text? k).isSome && representable t && membersRepresentable r

end

/-- A tree that fits into so many levels. -/
def ReadableWithin (room : Nat) (t : Tree) : Prop :=
  t.depth ≤ room ∧ t.representable = true

instance (room : Nat) (t : Tree) : Decidable (t.ReadableWithin room) :=
  inferInstanceAs (Decidable (_ ∧ _))

theorem itemDepth_le_iff (items : List Tree) (n : Nat) :
    itemDepth items ≤ n ↔ ∀ t ∈ items, t.depth ≤ n := by
  induction items with
  | nil => simp [itemDepth]
  | cons t r ih => simp only [itemDepth, Nat.max_le, ih, List.forall_mem_cons]

theorem memberDepth_le_iff (members : List (List Symbol × Tree)) (n : Nat) :
    memberDepth members ≤ n ↔ ∀ m ∈ members, m.2.depth ≤ n := by
  induction members with
  | nil => simp [memberDepth]
  | cons m r ih => simp only [memberDepth, Nat.max_le, ih, List.forall_mem_cons]

theorem itemsRepresentable_iff (items : List Tree) :
    itemsRepresentable items = true ↔ ∀ t ∈ items, t.representable = true := by
  induction items with
  | nil => simp [itemsRepresentable]
  | cons t r ih => simp only [itemsRepresentable, Bool.and_eq_true, ih, List.forall_mem_cons]

theorem membersRepresentable_iff (members : List (List Symbol × Tree)) :
    membersRepresentable members = true ↔
      ∀ m ∈ members, (text? m.1).isSome = true ∧ m.2.representable = true := by
  induction members with
  | nil => simp [membersRepresentable]
  | cons m r ih => simp only [membersRepresentable, Bool.and_eq_true, ih, List.forall_mem_cons]

theorem readableWithin_array_iff (room : Nat) (items : List Tree) :
    (array items).ReadableWithin (room + 1) ↔ ∀ t ∈ items, t.ReadableWithin room := by
  simp only [ReadableWithin, depth, representable, Nat.add_le_add_iff_right, itemDepth_le_iff,
    itemsRepresentable_iff, ← forall₂_and]

theorem readableWithin_object_iff (room : Nat) (members : List (List Symbol × Tree)) :
    (object members).ReadableWithin (room + 1) ↔
      ∀ m ∈ members, (text? m.1).isSome = true ∧ m.2.ReadableWithin room := by
  simp only [ReadableWithin, depth, representable, Nat.add_le_add_iff_right, memberDepth_le_iff,
    membersRepresentable_iff, ← forall₂_and]
  exact forall₂_congr fun m _ => and_left_comm

theorem not_readableWithin_zero (members : List (List Symbol × Tree)) : ¬ (object members).ReadableWithin 0 := by
  rintro ⟨hdepth, -⟩
  cases hdepth

/-- The last member with a key. -/
def member? (k : String) : List (List Symbol × Tree) → Option Tree
  | [] => none
  | m :: r => (member? k r).or (if text? m.1 = some k then some m.2 else none)

def get? (k : String) : Tree → Option Tree
  | .object members => member? k members
  | _ => none

theorem get?_object (k : String) (members : List (List Symbol × Tree)) :
    (object members).get? k = member? k members := rfl

theorem mem_of_member?_eq_some {k : String} {members : List (List Symbol × Tree)} {t : Tree}
    (h : member? k members = some t) : ∃ m ∈ members, m.2 = t := by
  induction members with
  | nil => cases h
  | cons m r ih =>
    rw [member?, Option.or_eq_some_iff] at h
    rcases h with h | ⟨-, h⟩
    · obtain ⟨n, hn, hnt⟩ := ih h
      exact ⟨n, List.mem_cons_of_mem m hn, hnt⟩
    · split at h
      · exact ⟨m, List.mem_cons_self, Option.some.inj h⟩
      · cases h

theorem member?_map {k : String} {f : List Symbol × Tree → List Symbol × Tree} {g : Tree → Tree}
    (hkey : ∀ m, (f m).1 = m.1) (hf : ∀ m, text? m.1 = some k → (f m).2 = g m.2)
    (members : List (List Symbol × Tree)) :
    member? k (members.map f) = (member? k members).map g := by
  induction members with
  | nil => rfl
  | cons m r ih =>
    rw [List.map_cons, member?, member?, ih, hkey, Option.map_or]
    by_cases hk : text? m.1 = some k
    · rw [if_pos hk, if_pos hk, hf m hk, Option.map_some]
    · rw [if_neg hk, if_neg hk, Option.map_none]

theorem eq_string_of_string? {t : Tree} {r : String} (h : t.string? = some r) :
    ∃ symbols, t = .string symbols ∧ text? symbols = some r := by
  cases t with
  | string symbols => exact ⟨symbols, rfl, h⟩
  | _ => cases h

end Tree

namespace Members

variable {α : Type}

theorem get?_ofList (k : String) (members : List (String × α)) :
    get? k (ofList members) = get? k members.reverse := by
  have hconcat (m : String × α) (r : List (String × α)) : ofList (r ++ [m]) = put m.1 m.2 (ofList r) := by
    simp only [ofList, List.foldl_append, List.foldl_cons, List.foldl_nil]
  induction members using List.reverseRecOn with
  | nil => rfl
  | append_singleton r m ih =>
    rw [hconcat, get?_put, ih, List.reverse_append, List.reverse_singleton, List.singleton_append]
    by_cases h : m.1 = k <;> simp [get?, h]

end Members

namespace Value

theorem isSome_ofItems?_iff (room : Nat) (items : List Tree) :
    (ofItems? room items).isSome = true ↔ ∀ t ∈ items, (ofTree? room t).isSome = true := by
  induction items with
  | nil => simp [ofItems?]
  | cons t r ih =>
    rw [List.forall_mem_cons, ← ih, ofItems?]
    cases ofTree? room t <;> cases ofItems? room r <;> simp

theorem isSome_ofMembers?_iff (room : Nat) (members : List (List Symbol × Tree)) :
    (ofMembers? room members).isSome = true ↔
      ∀ m ∈ members, (text? m.1).isSome = true ∧ (ofTree? room m.2).isSome = true := by
  induction members with
  | nil => simp [ofMembers?]
  | cons m r ih =>
    rw [List.forall_mem_cons, ← ih, ofMembers?]
    cases text? m.1 <;> cases ofTree? room m.2 <;> cases ofMembers? room r <;> simp

theorem isSome_ofTree?_iff (room : Nat) (t : Tree) :
    (ofTree? room t).isSome = true ↔ t.ReadableWithin room := by
  induction t using Tree.induction generalizing room with
  | null => simp [ofTree?, Tree.ReadableWithin, Tree.depth, Tree.representable]
  | boolean b => simp [ofTree?, Tree.ReadableWithin, Tree.depth, Tree.representable]
  | number n => simp [ofTree?, Tree.ReadableWithin, Tree.depth, Tree.representable]
  | string s => simp [ofTree?, Tree.ReadableWithin, Tree.depth, Tree.representable]
  | array items ih =>
    cases room with
    | zero => simp [ofTree?, Tree.ReadableWithin, Tree.depth]
    | succ room =>
      rw [ofTree?, Option.map_eq_map, Option.isSome_map, isSome_ofItems?_iff,
        Tree.readableWithin_array_iff]
      exact forall₂_congr fun t ht => ih t ht room
  | object members ih =>
    cases room with
    | zero => simp [ofTree?, Tree.ReadableWithin, Tree.depth]
    | succ room =>
      rw [ofTree?, Option.map_eq_map, Option.isSome_map, isSome_ofMembers?_iff,
        Tree.readableWithin_object_iff]
      exact forall₂_congr fun m hm => and_congr_right fun _ => ih m hm room

theorem ofText?_of_written {s : String} {t : Tree} (h : t.Written s.toList) :
    ofText? s = ofTree? greatestDepth t := by
  rw [ofText?, (Tree.ofText?_eq_some_iff s t).mpr h, Option.bind_some]

theorem object_of_ofTree? {room : Nat} {members : List (List Symbol × Tree)} {v : Value}
    (h : ofTree? room (.object members) = some v) : ∃ named, v = .object named := by
  cases room with
  | zero => cases h
  | succ room =>
    rw [ofTree?, Option.map_eq_map, Option.map_eq_some_iff] at h
    obtain ⟨named, -, rfl⟩ := h
    exact ⟨_, rfl⟩

theorem get?_of_ofMembers? {room : Nat} {members : List (List Symbol × Tree)}
    {named : List (String × Value)} (h : ofMembers? room members = some named) (k : String) :
    Members.get? k named.reverse = (Tree.member? k members).bind (ofTree? room) := by
  induction members generalizing named with
  | nil =>
    obtain rfl := Option.some.inj h
    rfl
  | cons m r ih =>
    simp only [ofMembers?, Option.bind_eq_bind, Option.pure_def, Option.bind_eq_some_iff,
      Option.some.injEq] at h
    obtain ⟨key, hkey, v, hv, rest, hrest, rfl⟩ := h
    have hlast : Members.get? k [(key, v)] =
        (if text? m.1 = some k then some m.2 else none).bind (ofTree? room) := by
      rw [hkey]
      by_cases hk : key = k <;> simp [Members.get?, hk, hv]
    have happend : Members.get? k ((key, v) :: rest).reverse =
        (Members.get? k rest.reverse).or (Members.get? k [(key, v)]) := by
      simp only [Members.get?, List.reverse_cons, List.find?_append, Option.map_or]
    rw [happend, ih hrest, hlast, Tree.member?]
    cases hr : Tree.member? k r with
    | none => rfl
    | some t =>
      obtain ⟨n, hn, rfl⟩ := Tree.mem_of_member?_eq_some hr
      have hread := (isSome_ofMembers?_iff room r).mp (by rw [hrest]; rfl) n hn
      obtain ⟨w, hw⟩ := Option.isSome_iff_exists.mp hread.2
      rw [Option.some_or, Option.bind_some, hw, Option.some_or]

theorem get?_of_ofTree? {room : Nat} {t : Tree} {v : Value} (h : ofTree? room t = some v)
    (k : String) : v.get? k = (t.get? k).bind (ofTree? (room - 1)) := by
  cases t with
  | object members =>
    cases room with
    | zero => cases h
    | succ room =>
      rw [ofTree?, Option.map_eq_map, Option.map_eq_some_iff] at h
      obtain ⟨named, hnamed, rfl⟩ := h
      exact (Members.get?_ofList k named).trans (get?_of_ofMembers? hnamed k)
  | array items =>
    cases room with
    | zero => cases h
    | succ room =>
      rw [ofTree?, Option.map_eq_map, Option.map_eq_some_iff] at h
      obtain ⟨values, -, rfl⟩ := h
      rfl
  | number n =>
    rw [ofTree?, Option.map_eq_map, Option.map_eq_some_iff] at h
    obtain ⟨x, -, rfl⟩ := h
    rfl
  | string s =>
    rw [ofTree?, Option.map_eq_map, Option.map_eq_some_iff] at h
    obtain ⟨x, -, rfl⟩ := h
    rfl
  | null =>
    obtain rfl := Option.some.inj h
    rfl
  | boolean b =>
    obtain rfl := Option.some.inj h
    rfl

theorem string?_ofTree? (room : Nat) (t : Tree) : (ofTree? room t).bind string? = t.string? := by
  cases t with
  | object members =>
    cases room with
    | zero => rfl
    | succ room => simp [ofTree?, Tree.string?, string?]
  | array items =>
    cases room with
    | zero => rfl
    | succ room => simp [ofTree?, Tree.string?, string?]
  | number n => simp [ofTree?, Tree.string?, string?]
  | string s =>
    rw [ofTree?, Tree.string?]
    cases text? s <;> rfl
  | null => rfl
  | boolean b => rfl

end Value

end SpawnGate.Json
