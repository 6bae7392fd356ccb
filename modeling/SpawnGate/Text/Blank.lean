/-!
White space and trimming. A text is usable when something is left of it after trimming.
-/

namespace SpawnGate.Text

/-- The characters with the Unicode property White_Space. -/
def isBlank (c : Char) : Bool :=
  (0x09 ≤ c.toNat && c.toNat ≤ 0x0D) || c.toNat == 0x20 || c.toNat == 0x85 || c.toNat == 0xA0 ||
    c.toNat == 0x1680 || (0x2000 ≤ c.toNat && c.toNat ≤ 0x200A) || c.toNat == 0x2028 ||
    c.toNat == 0x2029 || c.toNat == 0x202F || c.toNat == 0x205F || c.toNat == 0x3000

def trimChars (cs : List Char) : List Char :=
  ((cs.dropWhile isBlank).reverse.dropWhile isBlank).reverse

def trim (s : String) : String :=
  String.ofList (trimChars s.toList)

/-- The trimmed text, or nothing when the text is blank. -/
def usable (s : String) : Option String :=
  if trim s = "" then none else some (trim s)

theorem dropWhile_isBlank_append {as : List Char} (h : ∀ c ∈ as, isBlank c = true) (cs : List Char) :
    (as ++ cs).dropWhile isBlank = cs.dropWhile isBlank := by
  induction as with
  | nil => rfl
  | cons a as ih =>
    simp only [List.cons_append, List.dropWhile_cons, h a (by simp), if_true]
    exact ih fun c hc => h c (by simp [hc])

theorem trimChars_blank_append {as : List Char} (h : ∀ c ∈ as, isBlank c = true) (cs : List Char) :
    trimChars (as ++ cs) = trimChars cs := by
  rw [trimChars, dropWhile_isBlank_append h, trimChars]

theorem trimChars_append_blank {bs : List Char} (h : ∀ c ∈ bs, isBlank c = true) (cs : List Char) :
    trimChars (cs ++ bs) = trimChars cs := by
  induction cs with
  | nil => simpa using trimChars_blank_append h []
  | cons c cs ih =>
    by_cases hc : isBlank c = true
    · have hone : ∀ d ∈ [c], isBlank d = true := by simp [hc]
      rw [List.cons_append, ← List.singleton_append, trimChars_blank_append hone, ih,
        ← List.singleton_append, trimChars_blank_append hone]
    · have hr : ∀ b ∈ bs.reverse, isBlank b = true := fun b hb => h b (by simpa using hb)
      simp only [trimChars, List.cons_append, List.dropWhile_cons, hc, Bool.false_eq_true, if_false]
      rw [← List.cons_append, List.reverse_append, dropWhile_isBlank_append hr]

theorem trimChars_of_all {cs : List Char} (h : ∀ c ∈ cs, isBlank c = true) : trimChars cs = [] :=
  trimChars_append_blank h []

theorem usable_eq_some {s t : String} (h : usable s = some t) : t = trim s ∧ t ≠ "" := by
  unfold usable at h
  split at h
  · cases h
  · cases h; exact ⟨rfl, by assumption⟩

end SpawnGate.Text
