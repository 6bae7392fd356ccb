import SpawnGate.Proofs.Json.Writing

/-!
What is written for a value or a record stands on one line: a control character is always escaped.
-/

namespace SpawnGate.Json

/-- No control characters, so no line break either. -/
def Inline (cs : List Char) : Prop := ∀ c ∈ cs, 0x20 ≤ c.toNat

theorem Inline.append {as bs : List Char} (ha : Inline as) (hb : Inline bs) : Inline (as ++ bs) :=
  List.forall_mem_append.mpr ⟨ha, hb⟩

theorem Inline.cons {c : Char} {cs : List Char} (hc : 0x20 ≤ c.toNat) (hcs : Inline cs) :
    Inline (c :: cs) :=
  List.forall_mem_cons.mpr ⟨hc, hcs⟩

theorem inline_singleton {c : Char} (hc : 0x20 ≤ c.toNat) : Inline [c] :=
  List.forall_mem_singleton.mpr hc

theorem Inline.newline_not_mem {cs : List Char} (h : Inline cs) : '\n' ∉ cs :=
  fun hmem => absurd (h _ hmem) (by decide)

theorem inline_of_forall (p : Char → Bool) (hp : ∀ k < 0x20, p (Char.ofNat k) = false) {cs : List Char}
    (h : ∀ c ∈ cs, p c = true) : Inline cs := by
  intro c hc
  by_contra hlt
  have hcontrol := hp c.toNat (not_le.mp hlt)
  rw [Char.ofNat_toNat, h c hc] at hcontrol
  cases hcontrol

theorem inline_of_isLower {cs : List Char} (h : cs.all Char.isLower = true) : Inline cs :=
  inline_of_forall Char.isLower (by decide) (List.all_eq_true.mp h)

theorem SymbolText.inline {s : Symbol} {x : List Char} (h : SymbolText s x) : Inline x := by
  have hescape : ∀ k < 0x20, (shortEscape? (Char.ofNat k)).isSome = false := by decide
  have hhex : ∀ k < 0x20, (Hex.Digit.ofChar? (Char.ofNat k)).isSome = false := by decide
  cases h with
  | plain hc => exact inline_singleton hc
  | escape he => exact .cons (by decide) (inline_of_forall (fun c => (shortEscape? c).isSome) hescape (by simp [he]))
  | unit ha hb hc hd =>
    exact .cons (by decide) (.cons (by decide)
      (inline_of_forall (fun c => (Hex.Digit.ofChar? c).isSome) hhex (by simp [ha, hb, hc, hd])))

theorem StringText.inline {ss : List Symbol} {cs : List Char} (h : StringText ss cs) : Inline cs := by
  induction h with
  | nil => exact fun c hc => absurd hc List.not_mem_nil
  | cons hs _ ih => exact hs.inline.append ih

theorem inline_quote (s : String) : Inline (quote s) :=
  .append (.cons (by decide) (stringText_flatMap s.toList).inline) (inline_singleton (by decide))

theorem Number.inline_chars (n : Number) : Inline n.chars :=
  inline_of_forall Numeral.isNumeralChar (by decide) n.written_numeral.isNumeralChar

theorem inline_commaSeparated {xs : List (List Char)} (h : ∀ x ∈ xs, Inline x) :
    Inline (commaSeparated xs) := by
  induction xs with
  | nil => exact fun c hc => absurd hc List.not_mem_nil
  | cons x r ih =>
    obtain ⟨hx, hr⟩ := List.forall_mem_cons.mp h
    cases r with
    | nil => exact hx
    | cons y r => exact hx.append (.cons (by decide) (ih hr))

theorem inline_enclosed {o c : Char} {cs : List Char} (ho : 0x20 ≤ o.toNat) (hc : 0x20 ≤ c.toNat)
    (h : Inline cs) : Inline (o :: cs ++ [c]) :=
  .append (.cons ho h) (inline_singleton hc)

theorem inline_members {members : List (String × Value)} (h : ∀ m ∈ members, Inline m.2.chars) :
    Inline (commaSeparated (memberChars members)) := by
  apply inline_commaSeparated
  rw [memberChars_eq_map, List.forall_mem_map]
  intro m hm
  exact (inline_quote m.1).append (.cons (by decide) (h m hm))

theorem Value.inline_chars (v : Value) : Inline v.chars := by
  induction v using Value.induction with
  | null => exact inline_of_isLower rfl
  | boolean b =>
    cases b with
    | true => exact inline_of_isLower rfl
    | false => exact inline_of_isLower rfl
  | number n => exact n.inline_chars
  | string s => exact inline_quote s
  | array items ih =>
    have hitems : Inline (commaSeparated (itemChars items)) := by
      apply inline_commaSeparated
      rw [itemChars_eq_map, List.forall_mem_map]
      exact ih
    exact inline_enclosed (by decide) (by decide) hitems
  | object members ih => exact inline_enclosed (by decide) (by decide) (inline_members ih)

theorem inline_recordText (members : List (String × Value)) : Inline (recordText members).toList := by
  rw [recordText, String.toList_ofList]
  exact inline_enclosed (by decide) (by decide) (inline_members fun m _ => m.2.inline_chars)

end SpawnGate.Json
