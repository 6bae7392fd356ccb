import Mathlib.Data.String.Basic
import SpawnGate.Proofs.Json.Writing

/-!
A value with its members in order is read back from what is written for it, wherever it has room, up to its numbers:
each of them becomes what its literal is read as.
-/

namespace SpawnGate.Json

namespace Members

variable {α : Type}

/-- The keys ascend, so none comes twice. -/
def Ascending (members : List (String × α)) : Prop :=
  members.Pairwise fun m n => m.1 < n.1

instance (members : List (String × α)) : Decidable (Ascending members) := by
  unfold Ascending; infer_instance

theorem put_of_forall_lt {k : String} {v : α} {members : List (String × α)}
    (h : ∀ m ∈ members, m.1 < k) : put k v members = members ++ [(k, v)] := by
  induction members with
  | nil => rfl
  | cons m r ih =>
    obtain ⟨hm, hr⟩ := List.forall_mem_cons.mp h
    rw [put, if_neg hm.ne', if_neg hm.asymm, ih hr, List.cons_append]

theorem ofList_of_ascending {members : List (String × α)} (h : Ascending members) :
    ofList members = members := by
  induction members using List.reverseRecOn with
  | nil => rfl
  | append_singleton r m ih =>
    obtain ⟨hr, -, hlast⟩ := List.pairwise_append.mp h
    have hput := put_of_forall_lt (v := m.2) fun n hn => hlast n hn m (List.mem_singleton.mpr rfl)
    rw [ofList, List.foldl_append, ← ofList, ih hr]
    exact hput

theorem ascending_put {k : String} (v : α) {members : List (String × α)} (h : Ascending members) :
    Ascending (put k v members) := by
  induction members with
  | nil => exact List.pairwise_singleton _ _
  | cons m r ih =>
    obtain ⟨hm, hr⟩ := List.pairwise_cons.mp h
    rw [put]
    split
    · rename_i hk
      subst hk
      exact List.pairwise_cons.mpr ⟨hm, hr⟩
    · rename_i hne
      split
      · rename_i hlt
        refine List.pairwise_cons.mpr ⟨List.forall_mem_cons.mpr ⟨hlt, fun n hn => ?_⟩, h⟩
        exact hlt.trans (hm n hn)
      · rename_i hnlt
        refine List.pairwise_cons.mpr ⟨fun n hn => ?_, ih hr⟩
        rcases mem_of_mem_put hn with rfl | hn
        · exact lt_of_le_of_ne (not_lt.mp hnlt) (Ne.symm hne)
        · exact hm n hn

theorem ascending_ofList (members : List (String × α)) : Ascending (ofList members) := by
  induction members using List.reverseRecOn with
  | nil => exact List.Pairwise.nil
  | append_singleton r m ih =>
    rw [ofList, List.foldl_append, ← ofList]
    exact ascending_put m.2 ih

theorem eq_of_perm {members members' : List (String × α)} (h : Ascending members) (h' : Ascending members')
    (hperm : members.Perm members') : members = members' :=
  hperm.eq_of_pairwise (fun _ _ _ _ hlt hgt => absurd hgt hlt.asymm) h h'

theorem put_perm {k : String} (v : α) {members : List (String × α)} (h : k ∉ members.map (·.1)) :
    (put k v members).Perm ((k, v) :: members) := by
  induction members with
  | nil => exact .refl _
  | cons m r ih =>
    rw [List.map_cons, List.mem_cons, not_or] at h
    obtain ⟨hm, hr⟩ := h
    rw [put, if_neg hm]
    split
    · exact .refl _
    · exact ((ih hr).cons m).trans (.swap (k, v) m r)

/-- Members with different keys are only put in order. -/
theorem ofList_perm {members : List (String × α)} (h : (members.map (·.1)).Nodup) :
    (ofList members).Perm members := by
  induction members using List.reverseRecOn with
  | nil => exact .refl _
  | append_singleton r m ih =>
    rw [List.map_append, List.map_singleton, List.nodup_append] at h
    obtain ⟨hr, -, hlast⟩ := h
    have hsorted := ih hr
    have hnew : m.1 ∉ (ofList r).map (·.1) := by
      intro hmem
      exact hlast m.1 ((hsorted.map (·.1)).mem_iff.mp hmem) m.1 List.mem_cons_self rfl
    rw [ofList, List.foldl_append, ← ofList]
    exact ((put_perm m.2 hnew).trans (hsorted.cons m)).trans (List.perm_append_singleton m r).symm

end Members

namespace Number

/-- What the number becomes when it is written and read. -/
def reread (n : Number) : Number :=
  (ofNumeral? n.numeral).getD n

theorem ofNumeral?_numeral {n : Number} (h : n.InRange) : ofNumeral? n.numeral = some n.reread := by
  obtain ⟨m, hm⟩ := exists_ofNumeral?_numeral h
  rw [reread, hm, Option.getD_some]

theorem reread_eq_self {n : Number} (h : ofNumeral? n.numeral = some n) : n.reread = n := by
  rw [reread, h, Option.getD_some]

end Number

namespace Value

/-- In every object the keys ascend. -/
inductive Ordered : Value → Prop
  | null : Ordered .null
  | boolean b : Ordered (.boolean b)
  | number n : Ordered (.number n)
  | string s : Ordered (.string s)
  | array {items} : (∀ v ∈ items, Ordered v) → Ordered (.array items)
  | object {members} : Members.Ascending members → (∀ m ∈ members, Ordered m.2) →
      Ordered (.object members)

inductive AllNumbers (P : Number → Prop) : Value → Prop
  | null : AllNumbers P .null
  | boolean b : AllNumbers P (.boolean b)
  | number {n} : P n → AllNumbers P (.number n)
  | string s : AllNumbers P (.string s)
  | array {items} : (∀ v ∈ items, AllNumbers P v) → AllNumbers P (.array items)
  | object {members} : (∀ m ∈ members, AllNumbers P m.2) → AllNumbers P (.object members)

theorem ordered_of_ofTree? {room : Nat} {t : Tree} {v : Value} (h : ofTree? room t = some v) : v.Ordered := by
  apply ofTree?_induction (motive := fun _ v => v.Ordered) _ _ _ _ _ _ h
  · intro _
    exact .null
  · intro _ b
    exact .boolean b
  · intro _ _ x _
    exact .number x
  · intro _ s
    exact .string s
  · intro _ values ih
    exact .array ih
  · intro _ named ih
    apply Ordered.object (Members.ascending_ofList named)
    intro m hm
    exact ih m (Members.mem_of_mem_ofList hm)

mutual

/-- The value with each of its numbers replaced. -/
def mapNumbers (f : Number → Number) : Value → Value
  | .null => .null
  | .boolean b => .boolean b
  | .number n => .number (f n)
  | .string s => .string s
  | .array items => .array (mapItemNumbers f items)
  | .object members => .object (mapMemberNumbers f members)

def mapItemNumbers (f : Number → Number) : List Value → List Value
  | [] => []
  | v :: r => mapNumbers f v :: mapItemNumbers f r

def mapMemberNumbers (f : Number → Number) : List (String × Value) → List (String × Value)
  | [] => []
  | (k, v) :: r => (k, mapNumbers f v) :: mapMemberNumbers f r

end

theorem mapItemNumbers_eq_map (f : Number → Number) (items : List Value) :
    mapItemNumbers f items = items.map (mapNumbers f) := by
  induction items with
  | nil => rfl
  | cons v r ih => rw [mapItemNumbers, ih, List.map_cons]

theorem mapMemberNumbers_eq_map (f : Number → Number) (members : List (String × Value)) :
    mapMemberNumbers f members = members.map fun m => (m.1, m.2.mapNumbers f) := by
  induction members with
  | nil => rfl
  | cons m r ih => rw [mapMemberNumbers, ih, List.map_cons]

theorem ascending_mapMemberNumbers (f : Number → Number) {members : List (String × Value)}
    (h : Members.Ascending members) : Members.Ascending (mapMemberNumbers f members) := by
  rw [mapMemberNumbers_eq_map]
  exact List.pairwise_map.mpr h

/-- Exactly the values all of whose numbers stay as they are stay as they are. -/
theorem mapNumbers_eq_self_iff (f : Number → Number) (v : Value) :
    v.mapNumbers f = v ↔ v.AllNumbers fun n => f n = n := by
  induction v using Value.induction with
  | null => exact iff_of_true rfl .null
  | boolean b => exact iff_of_true rfl (.boolean b)
  | number n =>
    rw [mapNumbers, number.injEq]
    constructor
    · intro h
      exact .number h
    · intro h
      cases h with
      | number h => exact h
  | string s => exact iff_of_true rfl (.string s)
  | array items ih =>
    have hmap : items.map (mapNumbers f) = items ↔ ∀ v ∈ items, v.mapNumbers f = v := by
      nth_rewrite 2 [← List.map_id items]
      exact List.map_inj_left
    rw [mapNumbers, mapItemNumbers_eq_map, array.injEq, hmap]
    constructor
    · intro h
      apply AllNumbers.array
      intro v hv
      exact (ih v hv).mp (h v hv)
    · intro h v hv
      cases h with
      | array h => exact (ih v hv).mpr (h v hv)
  | object members ih =>
    have hmap : members.map (fun m => (m.1, m.2.mapNumbers f)) = members ↔
        ∀ m ∈ members, (m.1, m.2.mapNumbers f) = m := by
      nth_rewrite 2 [← List.map_id members]
      exact List.map_inj_left
    rw [mapNumbers, mapMemberNumbers_eq_map, object.injEq, hmap]
    constructor
    · intro h
      apply AllNumbers.object
      intro m hm
      exact (ih m hm).mp (Prod.mk.inj (h m hm)).2
    · intro h m hm
      cases h with
      | object h => exact Prod.ext rfl ((ih m hm).mpr (h m hm))

/-- What the value becomes when it is written and read. -/
def reread (v : Value) : Value :=
  v.mapNumbers Number.reread

theorem ofItems?_itemTrees {items : List Value} {room : Nat}
    (h : ∀ v ∈ items, ofTree? room v.tree = some v.reread) :
    ofItems? room (itemTrees items) = some (mapItemNumbers Number.reread items) := by
  induction items with
  | nil => rfl
  | cons v r ih =>
    obtain ⟨hv, hr⟩ := List.forall_mem_cons.mp h
    simp only [itemTrees, ofItems?, hv, ih hr, Option.bind_eq_bind, Option.bind_some, Option.pure_def]
    rfl

theorem ofMembers?_memberTrees {members : List (String × Value)} {room : Nat}
    (h : ∀ m ∈ members, ofTree? room m.2.tree = some m.2.reread) :
    ofMembers? room (memberTrees members) = some (mapMemberNumbers Number.reread members) := by
  induction members with
  | nil => rfl
  | cons m r ih =>
    obtain ⟨hm, hr⟩ := List.forall_mem_cons.mp h
    simp only [memberTrees, ofMembers?, text?_symbolsOf, hm, ih hr, Option.bind_eq_bind, Option.bind_some,
      Option.pure_def]
    rfl

theorem ofTree?_tree_eq_reread {v : Value} (hordered : v.Ordered) (hnumbers : v.NumbersInRange) {room : Nat}
    (hroom : v.depth ≤ room) : ofTree? room v.tree = some v.reread := by
  induction v using Value.induction generalizing room with
  | null => rfl
  | boolean b => rfl
  | number n =>
    cases hnumbers with
    | number hn =>
      rw [tree, ofTree?, Number.ofNumeral?_numeral hn]
      rfl
  | string s =>
    rw [tree, ofTree?, text?_symbolsOf]
    rfl
  | array items ih =>
    cases hordered with
    | array hordered =>
      cases hnumbers with
      | array hnumbers =>
        cases room with
        | zero => exact absurd hroom (Nat.not_succ_le_zero _)
        | succ room =>
          have hitems := itemDepth_le_iff.mp (Nat.le_of_succ_le_succ hroom)
          have hread := ofItems?_itemTrees fun v hv => ih v hv (hordered v hv) (hnumbers v hv) (hitems v hv)
          rw [tree, ofTree?, hread]
          rfl
  | object members ih =>
    cases hordered with
    | object hkeys hordered =>
      cases hnumbers with
      | object hnumbers =>
        cases room with
        | zero => exact absurd hroom (Nat.not_succ_le_zero _)
        | succ room =>
          have hmembers := memberDepth_le_iff.mp (Nat.le_of_succ_le_succ hroom)
          have hread := ofMembers?_memberTrees fun m hm =>
            ih m hm (hordered m hm) (hnumbers m hm) (hmembers m hm)
          rw [tree, ofTree?, hread, Option.map_eq_map, Option.map_some, Function.comp_apply,
            Members.ofList_of_ascending (ascending_mapMemberNumbers _ hkeys)]
          rfl

theorem AllNumbers.mono {P Q : Number → Prop} {v : Value} (h : v.AllNumbers P) (hPQ : ∀ n, P n → Q n) :
    v.AllNumbers Q := by
  induction h with
  | null => exact .null
  | boolean b => exact .boolean b
  | number hn => exact .number (hPQ _ hn)
  | string s => exact .string s
  | array _ ih => exact .array ih
  | object _ ih => exact .object ih

theorem numbersInRange_of_allNumbers {v : Value} (h : v.AllNumbers Number.InRange) : v.NumbersInRange := by
  induction h with
  | null => exact .null
  | boolean b => exact .boolean b
  | number hn => exact .number hn
  | string s => exact .string s
  | array _ ih => exact .array ih
  | object _ ih => exact .object ih

theorem ofTree?_tree {v : Value} (hordered : v.Ordered)
    (hnumbers : v.AllNumbers fun n => Number.ofNumeral? n.numeral = some n) {room : Nat}
    (hroom : v.depth ≤ room) : ofTree? room v.tree = some v := by
  have hrange := numbersInRange_of_allNumbers (hnumbers.mono fun _ => Number.inRange_of_ofNumeral?)
  have hsame := (mapNumbers_eq_self_iff _ v).mpr (hnumbers.mono fun _ => Number.reread_eq_self)
  rw [ofTree?_tree_eq_reread hordered hrange hroom, reread, hsame]

end Value

/-- Integers of 64 bits, signed or not. -/
def Number.IsWord : Number → Prop
  | .integer n => leastInteger ≤ n ∧ n < integerLimit
  | .double _ => False

theorem Number.IsWord.inRange {n : Number} (h : n.IsWord) : n.InRange := by
  cases n with
  | integer n => exact h
  | double x => exact absurd h id

theorem Number.IsWord.ofNumeral?_numeral {n : Number} (h : n.IsWord) :
    Number.ofNumeral? n.numeral = some n := by
  cases n with
  | integer n => exact Number.ofNumeral?_integer h
  | double x => exact absurd h id

namespace Value

theorem ofTree?_tree_of_words {v : Value} (hordered : v.Ordered) (hnumbers : v.AllNumbers Number.IsWord)
    {room : Nat} (hroom : v.depth ≤ room) : ofTree? room v.tree = some v :=
  ofTree?_tree hordered (hnumbers.mono fun _ => Number.IsWord.ofNumeral?_numeral) hroom

end Value

end SpawnGate.Json
