import SpawnGate.Calendar.Instant
import SpawnGate.Proofs.Decimal.Digits

/-!
An instant is read back from its text.
-/

namespace SpawnGate.Calendar

open Decimal

namespace Instant

/-- An instant of the calendar; a leap second follows the last second of a minute. -/
def IsValid (t : Instant) : Prop :=
  t.date.IsValid ∧ t.second < secondsPerDay ∧
    (t.nano < billion ∨ t.nano < 2 * billion ∧ t.second % 60 = 59)

instance (t : Instant) : Decidable t.IsValid := by unfold IsValid; infer_instance

/-- The digits of a natural, with zeros in front up to a width. -/
def paddedDigits (width n : Nat) : List Digit :=
  zeroDigits (width - (digits n).length) ++ digits n

theorem padded_eq (width n : Nat) : padded width n = text (paddedDigits width n) := by
  rw [padded, paddedDigits, zeroDigits_eq, text_append, text_zeros, zeros, text, List.length_map]

theorem ofDigits_paddedDigits (width n : Nat) : ofDigits (paddedDigits width n) = n := by
  rw [paddedDigits, zeroDigits_eq, ofDigits_zeros_append, ofDigits_digits]

theorem paddedDigits_ne_nil (width n : Nat) : paddedDigits width n ≠ [] :=
  List.append_ne_nil_of_right_ne_nil _ (digits_ne_nil n)

theorem length_paddedDigits {width n : Nat} (hwidth : 0 < width) (hn : n < 10 ^ width) :
    (paddedDigits width n).length = width := by
  have hlength : (digits n).length ≤ width := by
    rcases Nat.eq_zero_or_pos n with rfl | hpos
    · rw [digits_zero]
      exact hwidth
    · have hpow := lt_of_le_of_lt (pow_length_digits_le hpos) hn
      have hlt := (Nat.pow_lt_pow_iff_right (by decide)).mp hpow
      omega
  rw [paddedDigits, zeroDigits_eq, List.length_append, List.length_replicate]
  omega

namespace Reader

theorem isBlank_toChar (d : Digit) : Text.isBlank d.toChar = false := by
  revert d
  decide

theorem dropWhile_isBlank_text {ds : List Digit} (hds : ds ≠ []) (cs : List Char) :
    (text ds ++ cs).dropWhile Text.isBlank = text ds ++ cs := by
  cases ds with
  | nil => exact absurd rfl hds
  | cons d ds => exact List.dropWhile_cons_of_neg (by rw [isBlank_toChar]; exact Bool.false_ne_true)

theorem leadingUpTo_text {width : Nat} {ds : List Digit} (hds : ds.length ≤ width) {cs : List Char}
    (hcs : ds.length < width → ∀ c ∈ cs.head?, Digit.ofChar? c = none) :
    leadingUpTo width (text ds ++ cs) = (ds, cs) := by
  induction width generalizing ds with
  | zero =>
    obtain rfl := List.length_eq_zero_iff.mp (Nat.le_zero.mp hds)
    rfl
  | succ width ih =>
    cases ds with
    | nil =>
      cases cs with
      | nil => rfl
      | cons c cs =>
        have hc := hcs (Nat.succ_pos width) c rfl
        simp only [text, List.map_nil, List.nil_append, leadingUpTo, hc]
    | cons d ds =>
      have ih := ih (Nat.le_of_succ_le_succ hds) fun hlt => hcs (Nat.succ_lt_succ hlt)
      rw [text] at ih
      simp only [text, List.map_cons, List.cons_append, leadingUpTo, Digit.ofChar?_toChar, ih]

/-- On a text, a reader finds a value and leaves the rest. -/
def Reads {α : Type} (r : Reader α) (cs : List Char) (x : α) (rest : List Char) : Prop :=
  r.run cs = some (x, rest)

variable {α β : Type}

theorem Reads.bind {r : Reader α} {f : α → Reader β} {cs rest rest' : List Char} {x : α} {y : β}
    (h : Reads r cs x rest) (h' : Reads (f x) rest y rest') : Reads (r >>= f) cs y rest' := by
  unfold Reads at h h' ⊢
  rw [StateT.run_bind, h, Option.bind_eq_bind, Option.bind_some, h']

theorem Reads.pure (x : α) (cs : List Char) : Reads (pure x) cs x cs := rfl

theorem Reads.get (cs : List Char) : Reads get cs cs cs := rfl

theorem Reads.set (cs cs' : List Char) : Reads (set cs') cs () cs' := rfl

theorem Reads.blanks (cs : List Char) : Reads blanks cs () (cs.dropWhile Text.isBlank) := rfl

theorem Reads.next (c : Char) (cs : List Char) : Reads next (c :: cs) c cs := rfl

theorem reads_digitsUpTo {width : Nat} {ds : List Digit} (hne : ds ≠ []) (hds : ds.length ≤ width)
    {cs : List Char} (hcs : ds.length < width → ∀ c ∈ cs.head?, Digit.ofChar? c = none) :
    Reads (digitsUpTo width) (text ds ++ cs) ds cs := by
  have hleading := leadingUpTo_text hds hcs
  refine .bind (.get _) ?_
  rw [hleading]
  simp only [List.isEmpty_iff, hne, if_false]
  exact .bind (.set _ _) (.pure _ _)

theorem reads_allDigits {ds : List Digit} (hne : ds ≠ []) {cs : List Char}
    (hcs : ∀ c ∈ cs.head?, Digit.ofChar? c = none) : Reads allDigits (text ds ++ cs) ds cs := by
  have hleading := leading_text_append ds cs hcs
  refine .bind (.get _) ?_
  rw [hleading]
  simp only [List.isEmpty_iff, hne, if_false]
  exact .bind (.set _ _) (.pure _ _)

theorem reads_field {width n : Nat} (hwidth : 0 < width) (hn : n < 10 ^ width) (cs : List Char) :
    Reads (field width) (padded width n ++ cs) n cs := by
  have hlength := length_paddedDigits hwidth hn
  rw [padded_eq]
  refine .bind (.blanks _) ?_
  rw [dropWhile_isBlank_text (paddedDigits_ne_nil width n)]
  refine .bind (reads_digitsUpTo (paddedDigits_ne_nil width n) hlength.le fun hlt => ?_) ?_
  · omega
  · rw [ofDigits_paddedDigits]
    exact .pure _ _

theorem reads_mark {c : Char} (hc : Text.isBlank c = false) (cs : List Char) :
    Reads (mark c) (c :: cs) () cs := by
  refine .bind (.blanks _) ?_
  rw [List.dropWhile_cons_of_neg (by rw [hc]; exact Bool.false_ne_true)]
  refine .bind (.next c cs) ?_
  rw [if_neg (not_not.mpr rfl)]
  exact .pure _ _

theorem text_append_ne {ds : List Digit} (hds : ds ≠ []) (cs r : List Char) :
    text ds ++ cs ≠ '-' :: r ∧ text ds ++ cs ≠ '+' :: r := by
  cases ds with
  | nil => exact absurd rfl hds
  | cons d ds =>
    obtain ⟨hminus, hplus⟩ := d.toChar_ne_sign
    exact ⟨fun h => hminus (List.cons.inj h).1, fun h => hplus (List.cons.inj h).1⟩

theorem reads_year (y : Int) (cs : List Char) (hcs : ∀ c ∈ cs.head?, Digit.ofChar? c = none) :
    Reads year (yearChars y ++ cs) y cs := by
  unfold yearChars
  by_cases hplain : 0 ≤ y ∧ y ≤ 9999
  · have hlength : (paddedDigits 4 y.toNat).length = 4 := length_paddedDigits (by decide) (by omega)
    have hne := paddedDigits_ne_nil 4 y.toNat
    rw [if_pos hplain, padded_eq]
    refine .bind (.blanks _) ?_
    rw [dropWhile_isBlank_text hne]
    refine .bind (.get _) ?_
    split
    · rename_i heq
      exact absurd heq (text_append_ne hne cs _).1
    · rename_i heq
      exact absurd heq (text_append_ne hne cs _).2
    · refine .bind (reads_digitsUpTo hne hlength.le fun _ => hcs) ?_
      rw [ofDigits_paddedDigits, Int.toNat_of_nonneg hplain.1]
      exact .pure _ _
  · have hreads := reads_allDigits (paddedDigits_ne_nil 4 y.natAbs) hcs
    rw [← padded_eq] at hreads
    have hvalue := ofDigits_paddedDigits 4 y.natAbs
    rw [if_neg hplain]
    by_cases hneg : y < 0
    · rw [if_pos hneg]
      refine .bind (.blanks _) (.bind (.get _) (.bind (.set _ _) (.bind hreads ?_)))
      rw [hvalue, Int.ofNat_natAbs_of_nonpos hneg.le, neg_neg]
      exact .pure _ _
    · rw [if_neg hneg]
      refine .bind (.blanks _) (.bind (.get _) (.bind (.set _ _) (.bind hreads ?_)))
      rw [hvalue, Int.natAbs_of_nonneg (not_lt.mp hneg)]
      exact .pure _ _

theorem reads_separator (cs : List Char) : Reads separator ('T' :: cs) () cs := rfl

theorem reads_fraction {nano : Nat} (hnano : nano < billion) :
    Reads fraction (fractionChars nano ++ ['Z']) nano ['Z'] := by
  have hdigits {width n : Nat} (hwidth : 0 < width ∧ width ≤ 9) (hn : n < 10 ^ width)
      (hnano : n * 10 ^ (9 - width) = nano) :
      Reads fraction ('.' :: padded width n ++ ['Z']) nano ['Z'] := by
    have hlength := length_paddedDigits hwidth.1 hn
    rw [padded_eq]
    refine .bind (.get _) (.bind (.set _ _) (.bind (reads_digitsUpTo (paddedDigits_ne_nil width n)
      (hlength.le.trans hwidth.2) fun _ c hc => ?_) ?_))
    · obtain rfl : 'Z' = c := by simpa using hc
      rfl
    · rw [ofDigits_paddedDigits, hlength, Nat.pow_eq, hnano]
      rfl
  unfold fractionChars
  simp only [billion] at hnano
  split
  · rename_i hzero
    rw [hzero]
    rfl
  · split
    · exact hdigits (by decide) (by omega) (by omega)
    · split
      · exact hdigits (by decide) (by omega) (by omega)
      · exact hdigits (by decide) (by omega) (by omega)

theorem reads_offset : Reads offset ['Z'] 0 [] := rfl

end Reader

theorem ofLocal_zero (date : Date) {second nano : Nat} (h : second < secondsPerDay) :
    ofLocal date second nano 0 = ⟨date, second, nano⟩ := by
  have hnonneg : ¬ ((second : Int) - 0 < 0) := by omega
  have hsame : ¬ ((secondsPerDay : Int) ≤ second - 0) := by omega
  rw [ofLocal, if_neg hnonneg, if_neg hsame, sub_zero, Int.toNat_natCast]

theorem lt_hundred_of_isValid {d : Date} (h : d.IsValid) : d.month < 10 ^ 2 ∧ d.day < 10 ^ 2 := by
  obtain ⟨-, -, -, hmonth, -, hday⟩ := h
  have hle : Date.daysInMonth d.year d.month ≤ 31 := by
    unfold Date.daysInMonth
    split
    · split <;> decide
    · split <;> decide
  omega

theorem chars_eq (t : Instant) :
    t.chars = yearChars t.date.year ++ ('-' :: (padded 2 t.date.month ++ ('-' :: (padded 2 t.date.day ++
      ('T' :: (padded 2 (t.second / 3600) ++ (':' :: (padded 2 (t.second / 60 % 60) ++
        (':' :: (padded 2 (t.second % 60 + t.nano / billion) ++
          (fractionChars (t.nano % billion) ++ ['Z']))))))))))) := by
  simp only [chars, List.append_assoc, List.cons_append]

open Reader in
theorem reads_chars {t : Instant} (h : t.IsValid) : Reads reader t.chars t [] := by
  obtain ⟨hdate, hsecond, hnano⟩ := h
  obtain ⟨hmonth, hday⟩ := lt_hundred_of_isValid hdate
  have hday86400 : t.second < 86400 := hsecond
  have hleap : t.nano / billion = 0 ∨ t.nano / billion = 1 ∧ t.second % 60 = 59 := by
    simp only [billion] at hnano ⊢
    omega
  rw [chars_eq]
  refine .bind (reads_year _ _ fun c hc => ?_) ?_
  · obtain rfl : '-' = c := by simpa using hc
    rfl
  refine .bind (reads_mark rfl _) ?_
  refine .bind (reads_field two_pos hmonth _) ?_
  refine .bind (reads_mark rfl _) ?_
  refine .bind (reads_field two_pos hday _) ?_
  refine .bind (reads_separator _) ?_
  refine .bind (reads_field two_pos (by omega) _) ?_
  refine .bind (reads_mark rfl _) ?_
  refine .bind (reads_field two_pos (by omega) _) ?_
  refine .bind (reads_mark rfl _) ?_
  refine .bind (reads_field two_pos (by omega) _) ?_
  refine .bind (reads_fraction (Nat.mod_lt _ (by decide))) ?_
  refine .bind (.blanks _) ?_
  refine .bind reads_offset ?_
  refine .bind (.blanks _) ?_
  refine .bind (.get _) ?_
  have hfields : ¬ (¬ Date.IsValid ⟨t.date.year, t.date.month, t.date.day⟩ ∨ 23 < t.second / 3600 ∨
      59 < t.second / 60 % 60 ∨ 60 < t.second % 60 + t.nano / billion) := by
    rw [not_or, not_not]
    exact ⟨hdate, by omega⟩
  have hutc : ofLocal ⟨t.date.year, t.date.month, t.date.day⟩
      (t.second / 3600 * 3600 + t.second / 60 % 60 * 60 +
        (t.second % 60 + t.nano / billion - (t.second % 60 + t.nano / billion) / 60))
      (t.nano % billion + (t.second % 60 + t.nano / billion) / 60 * billion) 0 = t := by
    have hminute : (t.second % 60 + t.nano / billion) / 60 = t.nano / billion := by omega
    have hsum : t.second / 3600 * 3600 + t.second / 60 % 60 * 60 +
        (t.second % 60 + t.nano / billion - t.nano / billion) = t.second := by omega
    rw [hminute, hsum, Nat.mod_add_div', ofLocal_zero _ hsecond]
  simp only [List.dropWhile_nil, List.isEmpty_nil, Bool.not_true, Bool.false_eq_true, if_false,
    if_neg hfields, hutc, if_neg (not_not.mpr hdate)]
  exact .pure t []

theorem ofText?_write {t : Instant} (h : t.IsValid) : ofText? t.write = some t := by
  have hreads := reads_chars h
  rw [ofText?, write, String.toList_ofList, hreads, Option.map_some]

end Instant

end SpawnGate.Calendar
