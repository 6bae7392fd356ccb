import SpawnGate.Json.Writer
import SpawnGate.Proofs.Json.Numbers
import SpawnGate.Proofs.Json.Readable

/-!
What is written for a value is a text of the grammar, whose tree has the value's strings and its
nesting. So a value whose numbers were read can be read again wherever there is room for it.
-/

namespace SpawnGate.Json

def symbolOf (c : Char) : Symbol :=
  if c = '\x08' ∨ c = '\x0c' ∨ c = '\n' ∨ c = '\r' ∨ c = '\t' then .plain c
  else if h : c.toNat < 0x20 then .unit ⟨c.toNat, by omega⟩
  else .plain c

/-- The literal that a text is written as. -/
def symbolsOf (s : String) : List Symbol :=
  s.toList.map symbolOf

theorem symbolText_escapeChar (c : Char) : SymbolText (symbolOf c) (escapeChar c) := by
  unfold escapeChar symbolOf
  by_cases hquote : c = '"'
  · subst hquote
    exact .escape rfl
  by_cases hslash : c = '\\'
  · subst hslash
    exact .escape rfl
  by_cases hshort : c = '\x08' ∨ c = '\x0c' ∨ c = '\n' ∨ c = '\r' ∨ c = '\t'
  · rcases hshort with rfl | rfl | rfl | rfl | rfl <;> exact .escape rfl
  rw [if_neg hshort, if_neg hquote, if_neg hslash]
  simp only [not_or] at hshort
  obtain ⟨hb, hf, hn, hr, ht⟩ := hshort
  rw [if_neg hb, if_neg hf, if_neg hn, if_neg hr, if_neg ht]
  by_cases hcontrol : c.toNat < 0x20
  · rw [dif_pos hcontrol, if_pos hcontrol]
    have hzero : Hex.Digit.ofChar? '0' = some 0 := rfl
    have hunit := SymbolText.unit hzero hzero
      (Hex.Digit.ofChar?_toChar (Fin.ofNat 16 ((UInt8.ofNat c.toNat).toNat / 16)))
      (Hex.Digit.ofChar?_toChar (Fin.ofNat 16 (UInt8.ofNat c.toNat).toNat))
    have hbyte : (UInt8.ofNat c.toNat).toNat = c.toNat := by
      rw [UInt8.toNat_ofNat']
      omega
    have hcode : Token.Scanner.fourDigits 0 0 (Fin.ofNat 16 ((UInt8.ofNat c.toNat).toNat / 16))
        (Fin.ofNat 16 (UInt8.ofNat c.toNat).toNat) = ⟨c.toNat, by omega⟩ := by
      apply Fin.ext
      simp only [Token.Scanner.fourDigits, hbyte, Fin.ofNat]
      omega
    rw [hcode] at hunit
    exact hunit
  · rw [dif_neg hcontrol, if_neg hcontrol]
    exact .plain (not_lt.mp hcontrol) hquote hslash

theorem stringText_flatMap (cs : List Char) : StringText (cs.map symbolOf) (cs.flatMap escapeChar) := by
  induction cs with
  | nil => exact .nil
  | cons c cs ih => exact .cons (symbolText_escapeChar c) ih

theorem decode?_unit {h : Fin 0x10000} (hhigh : isHighSurrogate h = false) (hlow : isLowSurrogate h = false)
    (r : List Symbol) : decode? (.unit h :: r) = (Char.ofNat h :: ·) <$> decode? r := by
  rw [decode?.eq_def]
  simp [hhigh, hlow]

theorem decode?_map_symbolOf (cs : List Char) : decode? (cs.map symbolOf) = some cs := by
  induction cs with
  | nil => rfl
  | cons c cs ih =>
    rw [List.map_cons, symbolOf]
    split
    · rw [decode?, ih]
      rfl
    · split
      · rename_i hcontrol
        have hhigh : isHighSurrogate c.toNat = false := by
          simp only [isHighSurrogate, Bool.and_eq_false_iff, decide_eq_false_iff_not]
          omega
        have hlow : isLowSurrogate c.toNat = false := by
          simp only [isLowSurrogate, Bool.and_eq_false_iff, decide_eq_false_iff_not]
          omega
        rw [decode?_unit hhigh hlow, ih, Char.ofNat_toNat]
        rfl
      · rw [decode?, ih]
        rfl

theorem text?_symbolsOf (s : String) : text? (symbolsOf s) = some s := by
  rw [text?, symbolsOf, decode?_map_symbolOf, Option.map_eq_map, Option.map_some, String.ofList_toList]

theorem spelled_quote (s : String) : Token.Spelled (.string (symbolsOf s)) (quote s) :=
  .string (stringText_flatMap s.toList)

namespace Members

variable {α : Type}

theorem mem_of_mem_put {k : String} {v : α} {members : List (String × α)} {m : String × α}
    (h : m ∈ put k v members) : m = (k, v) ∨ m ∈ members := by
  induction members with
  | nil => exact .inl (List.mem_singleton.mp h)
  | cons n r ih =>
    rw [put] at h
    split at h
    · rcases List.mem_cons.mp h with h | h
      · exact .inl h
      · exact .inr (List.mem_cons_of_mem n h)
    · split at h
      · exact List.mem_cons.mp h
      · rcases List.mem_cons.mp h with rfl | h
        · exact .inr List.mem_cons_self
        · exact (ih h).imp id (List.mem_cons_of_mem n)

theorem mem_of_mem_ofList {members : List (String × α)} {m : String × α}
    (h : m ∈ ofList members) : m ∈ members := by
  induction members using List.reverseRecOn with
  | nil => exact h
  | append_singleton r n ih =>
    simp only [ofList, List.foldl_append, List.foldl_cons, List.foldl_nil] at h
    rcases mem_of_mem_put h with rfl | h
    · exact List.mem_append_right r (List.mem_singleton.mpr rfl)
    · exact List.mem_append_left _ (ih h)

end Members

namespace Value

@[elab_as_elim]
theorem induction {motive : Value → Prop} (null : motive .null) (boolean : ∀ b, motive (.boolean b))
    (number : ∀ n, motive (.number n)) (string : ∀ s, motive (.string s))
    (array : ∀ items, (∀ v ∈ items, motive v) → motive (.array items))
    (object : ∀ members, (∀ m ∈ members, motive m.2) → motive (.object members)) (v : Value) : motive v :=
  Value.rec (motive_1 := motive) (motive_2 := fun items => ∀ v ∈ items, motive v)
    (motive_3 := fun members => ∀ m ∈ members, motive m.2) (motive_4 := fun m => motive m.2)
    null boolean number string array object
    (by simp) (fun _ _ hv hr => by simpa using ⟨hv, hr⟩)
    (by simp) (fun _ _ hm hr => by simpa using ⟨hm, by simpa using hr⟩) (fun _ _ hv => hv) v

mutual

def tree : Value → Tree
  | .null => .null
  | .boolean b => .boolean b
  | .number n => .number n.numeral
  | .string s => .string (symbolsOf s)
  | .array items => .array (itemTrees items)
  | .object members => .object (memberTrees members)

def itemTrees : List Value → List Tree
  | [] => []
  | v :: r => tree v :: itemTrees r

def memberTrees : List (String × Value) → List (List Symbol × Tree)
  | [] => []
  | (k, v) :: r => (symbolsOf k, tree v) :: memberTrees r

end

mutual

/-- The number of arrays and objects around the innermost part of a value. -/
def depth : Value → Nat
  | .array items => itemDepth items + 1
  | .object members => memberDepth members + 1
  | _ => 0

def itemDepth : List Value → Nat
  | [] => 0
  | v :: r => max (depth v) (itemDepth r)

def memberDepth : List (String × Value) → Nat
  | [] => 0
  | (_, v) :: r => max (depth v) (memberDepth r)

end

/-- The value's number, or each number in it, is one that can be read. -/
inductive NumbersInRange : Value → Prop
  | null : NumbersInRange .null
  | boolean b : NumbersInRange (.boolean b)
  | number {n} : n.InRange → NumbersInRange (.number n)
  | string s : NumbersInRange (.string s)
  | array {items} : (∀ v ∈ items, NumbersInRange v) → NumbersInRange (.array items)
  | object {members} : (∀ m ∈ members, NumbersInRange m.2) → NumbersInRange (.object members)

theorem itemTrees_eq_map (items : List Value) : itemTrees items = items.map tree := by
  induction items with
  | nil => rfl
  | cons v r ih => rw [itemTrees, ih, List.map_cons]

theorem memberTrees_eq_map (members : List (String × Value)) :
    memberTrees members = members.map fun m => (symbolsOf m.1, m.2.tree) := by
  induction members with
  | nil => rfl
  | cons m r ih => rw [memberTrees, ih, List.map_cons]

end Value

theorem itemChars_eq_map (items : List Value) : itemChars items = items.map Value.chars := by
  induction items with
  | nil => rfl
  | cons v r ih => rw [itemChars, ih, List.map_cons]

theorem memberChars_eq_map (members : List (String × Value)) :
    memberChars members = members.map fun m => quote m.1 ++ ':' :: m.2.chars := by
  induction members with
  | nil => rfl
  | cons m r ih => rw [memberChars, ih, List.map_cons]

/-- Texts with commas between them spell rows of tokens with commas between them. -/
theorem spells_withCommas {tss : List (List Token)} {css : List (List Char)}
    (h : List.Forall₂ Token.Spells tss css) :
    Token.Spells (Tree.withCommas tss) (commaSeparated css) := by
  induction h with
  | nil => exact .nil
  | cons hfirst hrest ih =>
    cases hrest with
    | nil => exact hfirst
    | cons hsecond hrest => exact hfirst.append (.token (.mark rfl) ih)

theorem spells_enclosed {o c : Char} {t u : Token} (ho : Token.mark? o = some t)
    (hc : Token.mark? c = some u) {ts : List Token} {cs : List Char} (h : Token.Spells ts cs) :
    Token.Spells (t :: ts ++ [u]) (o :: cs ++ [c]) := by
  have hclosed := h.append (Token.Spelled.mark hc).spells
  have hopened := Token.Spells.token (.mark ho) hclosed
  simpa using hopened

theorem spells_members {members : List (String × Value)}
    (h : ∀ m ∈ members, m.2.tree.Written m.2.chars) :
    Token.Spells (Tree.withCommas (Tree.memberTokens (Value.memberTrees members)))
      (commaSeparated (memberChars members)) := by
  apply spells_withCommas
  rw [Tree.memberTokens_eq_map, Value.memberTrees_eq_map, memberChars_eq_map, List.map_map,
    List.forall₂_map_left_iff, List.forall₂_map_right_iff, List.forall₂_same]
  intro m hm
  exact .token (spelled_quote m.1) (.token (.mark rfl) (h m hm))

namespace Value

theorem written_tree (v : Value) : v.tree.Written v.chars := by
  induction v using Value.induction with
  | null => exact Token.Spelled.null.spells
  | boolean b =>
    cases b with
    | true => exact Token.Spelled.yes.spells
    | false => exact Token.Spelled.no.spells
  | number n => exact (Token.Spelled.number n.written_numeral).spells
  | string s => exact (spelled_quote s).spells
  | array items ih =>
    have hitems : Token.Spells (Tree.withCommas (Tree.itemTokens (itemTrees items)))
        (commaSeparated (itemChars items)) := by
      apply spells_withCommas
      rw [Tree.itemTokens_eq_map, itemTrees_eq_map, itemChars_eq_map, List.map_map,
        List.forall₂_map_left_iff, List.forall₂_map_right_iff, List.forall₂_same]
      exact ih
    exact spells_enclosed rfl rfl hitems
  | object members ih =>
    exact spells_enclosed rfl rfl (spells_members ih)

theorem written_recordText (members : List (String × Value)) :
    (Tree.object (memberTrees members)).Written (recordText members).toList := by
  have hmembers := spells_members fun m (_ : m ∈ members) => m.2.written_tree
  rw [recordText, String.toList_ofList]
  exact spells_enclosed rfl rfl hmembers

theorem itemDepth_itemTrees {items : List Value} (h : ∀ v ∈ items, v.tree.depth = v.depth) :
    Tree.itemDepth (itemTrees items) = itemDepth items := by
  induction items with
  | nil => rfl
  | cons v r ih =>
    obtain ⟨hv, hr⟩ := List.forall_mem_cons.mp h
    rw [itemTrees, Tree.itemDepth, itemDepth, hv, ih hr]

theorem memberDepth_memberTrees {members : List (String × Value)}
    (h : ∀ m ∈ members, m.2.tree.depth = m.2.depth) :
    Tree.memberDepth (memberTrees members) = memberDepth members := by
  induction members with
  | nil => rfl
  | cons m r ih =>
    obtain ⟨hm, hr⟩ := List.forall_mem_cons.mp h
    rw [memberTrees, Tree.memberDepth, memberDepth, hm, ih hr]

theorem depth_tree (v : Value) : v.tree.depth = v.depth := by
  induction v using Value.induction with
  | null => rfl
  | boolean b => rfl
  | number n => rfl
  | string s => rfl
  | array items ih => rw [tree, Tree.depth, depth, itemDepth_itemTrees ih]
  | object members ih => rw [tree, Tree.depth, depth, memberDepth_memberTrees ih]

theorem representable_tree {v : Value} (h : v.NumbersInRange) : v.tree.representable = true := by
  induction h with
  | null => rfl
  | boolean b => rfl
  | number hn =>
    obtain ⟨y, hy⟩ := Number.exists_ofNumeral?_numeral hn
    rw [tree, Tree.representable, hy]
    rfl
  | string s =>
    rw [tree, Tree.representable, text?_symbolsOf]
    rfl
  | array _ ih =>
    rw [tree, Tree.representable, Tree.itemsRepresentable_iff, itemTrees_eq_map, List.forall_mem_map]
    exact ih
  | object _ ih =>
    rw [tree, Tree.representable, Tree.membersRepresentable_iff, memberTrees_eq_map, List.forall_mem_map]
    intro m hm
    exact ⟨by rw [text?_symbolsOf]; rfl, ih m hm⟩

/-- A value with numbers in range is read again exactly where it has room. -/
theorem isSome_ofTree?_tree_iff {v : Value} (h : v.NumbersInRange) (room : Nat) :
    (ofTree? room v.tree).isSome = true ↔ v.depth ≤ room := by
  rw [isSome_ofTree?_iff, Tree.ReadableWithin, depth_tree, representable_tree h, and_iff_left rfl]

theorem exists_tree_of_ofItems? {room : Nat} {items : List Tree} {values : List Value}
    (h : ofItems? room items = some values) : ∀ v ∈ values, ∃ t ∈ items, ofTree? room t = some v := by
  induction items generalizing values with
  | nil =>
    obtain rfl := Option.some.inj h
    simp
  | cons t r ih =>
    simp only [ofItems?, Option.bind_eq_bind, Option.pure_def, Option.bind_eq_some_iff, Option.some.injEq] at h
    obtain ⟨w, hw, rest, hrest, rfl⟩ := h
    refine List.forall_mem_cons.mpr ⟨⟨t, List.mem_cons_self, hw⟩, fun v hv => ?_⟩
    obtain ⟨u, hu, hread⟩ := ih hrest v hv
    exact ⟨u, List.mem_cons_of_mem t hu, hread⟩

theorem exists_tree_of_ofMembers? {room : Nat} {members : List (List Symbol × Tree)}
    {named : List (String × Value)} (h : ofMembers? room members = some named) :
    ∀ n ∈ named, ∃ m ∈ members, ofTree? room m.2 = some n.2 := by
  induction members generalizing named with
  | nil =>
    obtain rfl := Option.some.inj h
    simp
  | cons m r ih =>
    simp only [ofMembers?, Option.bind_eq_bind, Option.pure_def, Option.bind_eq_some_iff, Option.some.injEq] at h
    obtain ⟨key, -, w, hw, rest, hrest, rfl⟩ := h
    refine List.forall_mem_cons.mpr ⟨⟨m, List.mem_cons_self, hw⟩, fun n hn => ?_⟩
    obtain ⟨u, hu, hread⟩ := ih hrest n hn
    exact ⟨u, List.mem_cons_of_mem m hu, hread⟩

/-- What holds of all values that are read, by what a value is read from. -/
theorem ofTree?_induction {motive : Nat → Value → Prop} (null : ∀ room, motive room .null)
    (boolean : ∀ room b, motive room (.boolean b))
    (number : ∀ room n x, Number.ofNumeral? n = some x → motive room (.number x))
    (string : ∀ room s, motive room (.string s))
    (array : ∀ room values, (∀ v ∈ values, motive room v) → motive (room + 1) (.array values))
    (object : ∀ room named, (∀ n ∈ named, motive room n.2) → motive (room + 1) (.object (Members.ofList named)))
    {room : Nat} {t : Tree} {v : Value} (h : ofTree? room t = some v) : motive room v := by
  induction t using Tree.induction generalizing room v with
  | null =>
    obtain rfl := Option.some.inj h
    exact null room
  | boolean b =>
    obtain rfl := Option.some.inj h
    exact boolean room b
  | number n =>
    obtain ⟨x, hx, rfl⟩ := Option.map_eq_some_iff.mp h
    exact number room n x hx
  | string s =>
    obtain ⟨x, -, rfl⟩ := Option.map_eq_some_iff.mp h
    exact string room x
  | array items ih =>
    cases room with
    | zero => cases h
    | succ room =>
      obtain ⟨values, hvalues, rfl⟩ := Option.map_eq_some_iff.mp h
      apply array
      intro v hv
      obtain ⟨t, ht, hread⟩ := exists_tree_of_ofItems? hvalues v hv
      exact ih t ht hread
  | object members ih =>
    cases room with
    | zero => cases h
    | succ room =>
      obtain ⟨named, hnamed, rfl⟩ := Option.map_eq_some_iff.mp h
      apply object
      intro n hn
      obtain ⟨m, hm, hread⟩ := exists_tree_of_ofMembers? hnamed n hn
      exact ih m hm hread

theorem numbersInRange_of_ofTree? {room : Nat} {t : Tree} {v : Value} (h : ofTree? room t = some v) :
    v.NumbersInRange := by
  apply ofTree?_induction (motive := fun _ v => v.NumbersInRange) _ _ _ _ _ _ h
  · intro _
    exact .null
  · intro _ b
    exact .boolean b
  · intro _ n x hx
    exact .number (Number.inRange_of_ofNumeral? hx)
  · intro _ s
    exact .string s
  · intro _ values ih
    exact .array ih
  · intro _ named ih
    apply NumbersInRange.object
    intro m hm
    exact ih m (Members.mem_of_mem_ofList hm)

theorem itemDepth_le_iff {items : List Value} {room : Nat} :
    itemDepth items ≤ room ↔ ∀ v ∈ items, v.depth ≤ room := by
  induction items with
  | nil => simp [itemDepth]
  | cons v r ih => rw [itemDepth, max_le_iff, ih, List.forall_mem_cons]

theorem memberDepth_le_iff {members : List (String × Value)} {room : Nat} :
    memberDepth members ≤ room ↔ ∀ m ∈ members, m.2.depth ≤ room := by
  induction members with
  | nil => simp [memberDepth]
  | cons m r ih => rw [memberDepth, max_le_iff, ih, List.forall_mem_cons]

theorem depth_le_of_ofTree? {room : Nat} {t : Tree} {v : Value} (h : ofTree? room t = some v) :
    v.depth ≤ room := by
  apply ofTree?_induction (motive := fun room v => v.depth ≤ room) _ _ _ _ _ _ h
  · intro room
    exact Nat.zero_le room
  · intro room b
    exact Nat.zero_le room
  · intro room n x hx
    exact Nat.zero_le room
  · intro room s
    exact Nat.zero_le room
  · intro room values ih
    rw [depth, Nat.add_le_add_iff_right, itemDepth_le_iff]
    exact ih
  · intro room named ih
    rw [depth, Nat.add_le_add_iff_right, memberDepth_le_iff]
    intro m hm
    exact ih m (Members.mem_of_mem_ofList hm)

end Value

end SpawnGate.Json
