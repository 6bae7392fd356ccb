import SpawnGate.Proofs.Json.Spelling
import SpawnGate.Proofs.Json.Tokens

/-!
The grammar of JSON texts: a text is written for a tree if it spells the tokens of the tree, with
white space around any of them. Exactly the texts of the grammar have a tree, and they have one.
-/

namespace SpawnGate.Json

namespace Token

theorem isChain_cons_of_not_isOpenEnded {t : Token} (ht : t.isOpenEnded = false) {ts : List Token}
    (h : ts.IsChain Apart) : (t :: ts).IsChain Apart := by
  refine List.isChain_cons.mpr ⟨fun u _ hopen => ?_, h⟩
  rw [ht] at hopen
  cases hopen

theorem isChain_append_of_isMark {ts us : List Token} {m : Token} (hm : m.isMark = true)
    (h : ts.IsChain Apart) (h' : (m :: us).IsChain Apart) : (ts ++ m :: us).IsChain Apart := by
  refine List.isChain_append.mpr ⟨h, h', fun t _ u hu _ => ?_⟩
  obtain rfl : m = u := by simpa using hu
  exact hm

end Token

namespace Tree

open Token

theorem isChain_withCommas {xs : List (List Token)} (h : ∀ x ∈ xs, x.IsChain Apart) :
    (withCommas xs).IsChain Apart := by
  induction xs with
  | nil => exact .nil
  | cons x xs ih =>
    obtain ⟨hx, hxs⟩ := List.forall_mem_cons.mp h
    cases xs with
    | nil => exact hx
    | cons y ys =>
      exact isChain_append_of_isMark rfl hx (isChain_cons_of_not_isOpenEnded rfl (ih hxs))

/-- In the tokens of a tree, a mark follows each word and each number. -/
theorem isChain_tokens (t : Tree) : t.tokens.IsChain Apart := by
  induction t using Tree.induction with
  | null => exact .singleton _
  | boolean b => exact .singleton _
  | number n => exact .singleton _
  | string s => exact .singleton _
  | array items ih =>
    rw [tokens, itemTokens_eq_map]
    refine isChain_append_of_isMark rfl (isChain_cons_of_not_isOpenEnded rfl (isChain_withCommas ?_))
      (.singleton _)
    rw [List.forall_mem_map]
    exact ih
  | object members ih =>
    rw [tokens, memberTokens_eq_map]
    refine isChain_append_of_isMark rfl (isChain_cons_of_not_isOpenEnded rfl (isChain_withCommas ?_))
      (.singleton _)
    rw [List.forall_mem_map]
    exact fun m hm =>
      isChain_cons_of_not_isOpenEnded rfl (isChain_cons_of_not_isOpenEnded rfl (ih m hm))

/-- The text is one of the tree's texts under the grammar. -/
def Written (t : Tree) (cs : List Char) : Prop :=
  Spells t.tokens cs

theorem ofChars?_eq_some_iff (cs : List Char) (t : Tree) : ofChars? cs = some t ↔ t.Written cs := by
  rw [ofChars?, Option.bind_eq_some_iff]
  constructor
  · rintro ⟨ts, hscan, ht⟩
    obtain rfl := (ofTokens?_eq_some_iff ts t).mp ht
    exact spells_of_scan hscan
  · intro h
    exact ⟨t.tokens, scan_eq_some h t.isChain_tokens, (ofTokens?_eq_some_iff _ t).mpr rfl⟩

theorem ofText?_eq_some_iff (s : String) (t : Tree) : ofText? s = some t ↔ t.Written s.toList :=
  ofChars?_eq_some_iff s.toList t

end Tree

end SpawnGate.Json
