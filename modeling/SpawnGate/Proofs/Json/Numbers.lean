import SpawnGate.Json.Number
import SpawnGate.Proofs.Decimal.Shortest
import SpawnGate.Proofs.Json.Numerals

/-!
The literals that numbers are written as. They are numbers of the grammar, and each of them is in range
when it is read again.
-/

namespace SpawnGate.Json

open Decimal

namespace Numeral

/-- The literal that writes digits at a power of ten in full. -/
def plain (negative : Bool) (ds : List Digit) (power : Int) : Numeral :=
  let point := ds.length + power
  if 0 ≤ power then ⟨negative, ds ++ zeroDigits power.toNat, digits 0, none⟩
  else if 0 < point then ⟨negative, ds.take point.toNat, ds.drop point.toNat, none⟩
  else ⟨negative, digits 0, zeroDigits (-point).toNat ++ ds, none⟩

def withExponent (negative : Bool) (ds : List Digit) (exponent : Int) : Numeral :=
  ⟨negative, ds.take 1, ds.drop 1, some (decide (exponent < 0), digits exponent.natAbs)⟩

/-- The literal that writes a decimal in a layout. -/
def ofScientific (l : Layout) (negative : Bool) (s : Scientific) : Numeral :=
  let exponent := (digits s.value).length + s.power - 1
  if s.value = 0 then ⟨negative, digits 0, digits 0, none⟩
  else if l.leastPlain ≤ exponent ∧ exponent ≤ l.greatestPlain then
    plain negative (digits s.value) s.power
  else withExponent negative (digits s.value) exponent

theorem Written.of_eq {negative : Bool} {whole fraction : List Digit} {exponent : Option (Bool × List Digit)}
    {fs es cs : List Char} (hwhole : IsWhole whole) (hfraction : FractionText fraction fs)
    (hexponent : ExponentText exponent es) (h : cs = text whole ++ (fs ++ es)) :
    Written ⟨negative, whole, fraction, exponent⟩ ((if negative then ['-'] else []) ++ cs) := by
  rw [h]
  exact .mk hwhole hfraction hexponent

theorem isWhole_digits (n : ℕ) : IsWhole (digits n) := by
  rcases Nat.eq_zero_or_pos n with rfl | hn
  · rw [digits_zero]
    exact .zero
  · obtain ⟨d, r, h, hd⟩ := digits_eq_cons hn
    rw [h]
    exact .nonzero hd

theorem written_plain (negative : Bool) {d : Digit} (hd : d ≠ 0) (r : List Digit) (power : ℤ) :
    Written (plain negative (d :: r) power)
      ((if negative then ['-'] else []) ++ Decimal.plain (text (d :: r)) power) := by
  have hlength : (text (d :: r)).length = (d :: r).length := List.length_map _
  simp only [plain, zeroDigits_eq, digits_zero, Decimal.plain, hlength]
  by_cases hpower : 0 ≤ power
  · rw [if_pos hpower, if_pos hpower]
    apply Written.of_eq (.nonzero hd) (.present (List.cons_ne_nil 0 [])) .absent
    have happend := text_append (d :: r) (List.replicate power.toNat 0)
    rw [text_zeros] at happend
    rw [← happend]
    rfl
  · rw [if_neg hpower, if_neg hpower]
    by_cases hpoint : 0 < ((d :: r).length : ℤ) + power
    · rw [if_pos hpoint, if_pos hpoint]
      obtain ⟨k, hk⟩ : ∃ k, (((d :: r).length : ℤ) + power).toNat = k + 1 :=
        ⟨(((d :: r).length : ℤ) + power).toNat - 1, by omega⟩
      have hdrop : (d :: r).drop (k + 1) ≠ [] := by
        rw [Ne, List.drop_eq_nil_iff]
        omega
      rw [hk, List.take_succ_cons]
      apply Written.of_eq (.nonzero hd) (.present hdrop) .absent
      simp only [text, List.map_take, List.map_drop, List.map_cons, List.take_succ_cons, List.append_nil,
        List.cons_append]
    · rw [if_neg hpoint, if_neg hpoint]
      apply Written.of_eq .zero (.present (List.append_ne_nil_of_right_ne_nil _ (List.cons_ne_nil d r))) .absent
      rw [text_append, text_zeros, List.append_nil]
      rfl

theorem written_withExponent (l : Layout) (negative : Bool) {d : Digit} (hd : d ≠ 0) (r : List Digit)
    (exponent : ℤ) : Written (withExponent negative (d :: r) exponent)
      ((if negative then ['-'] else []) ++ Decimal.withExponent l.plusSign (text (d :: r)) exponent) := by
  have hsign : SignText (decide (exponent < 0))
      (if exponent < 0 then ['-'] else if l.plusSign then ['+'] else []) := by
    split
    · rename_i hneg
      rw [decide_eq_true hneg]
      exact .minus
    · rename_i hneg
      rw [decide_eq_false hneg]
      split
      · exact .plus
      · exact .none
  have hexponent := ExponentText.present (.inl rfl) hsign (digits_ne_nil exponent.natAbs)
  cases r with
  | nil =>
    apply Written.of_eq (.nonzero hd) .absent hexponent
    rfl
  | cons e r =>
    apply Written.of_eq (.nonzero hd) (.present (List.cons_ne_nil e r)) hexponent
    simp [Decimal.withExponent, text]

theorem written_ofScientific (l : Layout) (negative : Bool) (s : Scientific) :
    Written (ofScientific l negative s) ((if negative then ['-'] else []) ++ l.write s) := by
  simp only [ofScientific, digits_zero, Layout.write]
  have hlength : (text (digits s.value)).length = (digits s.value).length := List.length_map _
  rw [hlength]
  by_cases hzero : s.value = 0
  · rw [if_pos hzero, if_pos hzero]
    exact Written.of_eq .zero (.present (List.cons_ne_nil 0 [])) .absent rfl
  · rw [if_neg hzero, if_neg hzero]
    obtain ⟨d, r, hdigits, hd⟩ := digits_eq_cons (Nat.pos_of_ne_zero hzero)
    rw [hdigits]
    split
    · exact written_plain negative hd r s.power
    · exact written_withExponent l negative hd r _

end Numeral

namespace Number

def numeral : Number → Numeral
  | .integer n => ⟨decide (n < 0), digits n.natAbs, [], none⟩
  | .double x => .ofScientific doubles x.negative x.magnitude.shortest

theorem written_numeral (n : Number) : Numeral.Written n.numeral n.chars := by
  cases n with
  | integer n =>
    cases n with
    | ofNat n =>
      exact Numeral.Written.of_eq (Numeral.isWhole_digits n) .absent .absent (List.append_nil _).symm
    | negSucc n =>
      have hwritten : Numeral.Written ⟨true, digits (n + 1), [], none⟩ (['-'] ++ text (digits (n + 1))) :=
        Numeral.Written.of_eq (Numeral.isWhole_digits (n + 1)) .absent .absent (List.append_nil _).symm
      rw [numeral, decide_eq_true (Int.negSucc_lt_zero n)]
      exact hwritten
  | double x => exact Numeral.written_ofScientific doubles x.negative x.magnitude.shortest

end Number

namespace Numeral

theorem literalValue_plain (negative : Bool) (ds : List Digit) (power : ℤ) :
    literalValue (plain negative ds power).whole (plain negative ds power).fraction
      (plain negative ds power).exponent = ofDigits ds * 10 ^ power := by
  simp only [plain, zeroDigits_eq, digits_zero]
  by_cases hpower : 0 ≤ power
  · obtain ⟨k, rfl⟩ := Int.eq_ofNat_of_zero_le hpower
    rw [if_pos hpower, literalValue]
    simp only [powerOf, Int.toNat_natCast, List.length_singleton, zpow_natCast, zpow_zero, mul_one,
      pow_one]
    have hzeros : ofDigits (ds ++ List.replicate k 0 ++ [0]) = ofDigits ds * 10 ^ k * 10 := by
      rw [List.append_assoc, ← List.replicate_succ', ofDigits_append_zeros, pow_succ, mul_assoc]
    rw [hzeros]
    push_cast
    field_simp
  · rw [if_neg hpower]
    have hvalue (value : ℚ) {n : ℕ} (hn : (n : ℤ) = -power) : value / 10 ^ n * 10 ^ (0 : ℤ) = value * 10 ^ power := by
      rw [zpow_zero, mul_one, div_eq_mul_inv, ← zpow_natCast, ← zpow_neg, hn, neg_neg]
    by_cases hpoint : 0 < (ds.length : ℤ) + power
    · rw [if_pos hpoint, literalValue, List.take_append_drop]
      apply hvalue
      rw [List.length_drop]
      omega
    · rw [if_neg hpoint, literalValue]
      have hzeros : ofDigits ([0] ++ (List.replicate (-((ds.length : ℤ) + power)).toNat 0 ++ ds)) =
          ofDigits ds := by
        rw [← List.append_assoc, List.singleton_append, ← List.replicate_succ, ofDigits_zeros_append]
      rw [hzeros]
      apply hvalue
      rw [List.length_append, List.length_replicate]
      omega

theorem literalValue_withExponent (negative : Bool) {ds : List Digit} (hds : ds ≠ []) (power : ℤ) :
    literalValue (ds.take 1) (ds.drop 1) (withExponent negative ds (ds.length + power - 1)).exponent =
      ofDigits ds * 10 ^ power := by
  have hpower : powerOf (withExponent negative ds (ds.length + power - 1)).exponent =
      ds.length + power - 1 := by
    simp only [withExponent, powerOf, ofDigits_digits]
    split <;> rename_i hneg
    · have hlt := of_decide_eq_true hneg
      omega
    · have hge := of_decide_eq_false (Bool.eq_false_iff.mpr hneg)
      omega
  have hlength : ((ds.length - 1 : ℕ) : ℤ) = ds.length - 1 := by
    have hpos := List.length_pos_iff.mpr hds
    omega
  rw [literalValue, hpower, List.take_append_drop, List.length_drop, div_eq_mul_inv, mul_assoc,
    ← zpow_natCast, ← zpow_neg, ← zpow_add₀ (by norm_num), hlength]
  congr 2
  ring

theorem literalValue_ofScientific (l : Layout) (negative : Bool) (s : Scientific) :
    literalValue (ofScientific l negative s).whole (ofScientific l negative s).fraction
      (ofScientific l negative s).exponent = s.toRat := by
  simp only [ofScientific, digits_zero]
  split
  · rename_i hzero
    simp [literalValue, Scientific.toRat, hzero, ofDigits]
  · split
    · rw [literalValue_plain, ofDigits_digits, Scientific.toRat]
    · have hvalue := literalValue_withExponent negative (digits_ne_nil s.value) s.power
      rw [ofDigits_digits] at hvalue
      exact hvalue

end Numeral

namespace Number

/-- The numbers that can be read: integers of a word, and doubles of the format. -/
def InRange : Number → Prop
  | .integer n => leastInteger ≤ n ∧ n < integerLimit
  | .double x => x.magnitude.InRange

theorem inRange_of_ofNumeral? {n : Numeral} {x : Number} (h : ofNumeral? n = some x) : x.InRange := by
  simp only [ofNumeral?] at h
  split at h
  · rename_i hsmall
    obtain rfl := Option.some.inj h
    simp only [Bool.and_eq_true, decide_eq_true_eq] at hsmall
    exact ⟨(by decide : leastInteger ≤ 0).trans (Int.natCast_nonneg _), hsmall.2⟩
  · split at h
    · rename_i hsmall
      obtain rfl := Option.some.inj h
      simp only [Bool.and_eq_true, decide_eq_true_eq] at hsmall
      have hlimit : (0 : ℤ) < integerLimit := by decide
      exact ⟨hsmall.2, by omega⟩
    · obtain ⟨m, hm, rfl⟩ := Option.map_eq_some_iff.mp h
      exact (isCanonical_magnitude? hm).inRange

theorem exists_ofNumeral?_of_double? {n : Numeral} (h : ∃ x, double? n = some x) :
    ∃ x, ofNumeral? n = some x := by
  simp only [ofNumeral?]
  split
  · exact ⟨_, rfl⟩
  · split
    · exact ⟨_, rfl⟩
    · exact h

theorem exponent_plain (negative : Bool) (ds : List Digit) (power : ℤ) :
    (Numeral.plain negative ds power).exponent = none := by
  simp only [Numeral.plain]
  split
  · rfl
  · split <;> rfl

/-- An exponent that is written is small, since the decimal is. -/
theorem exponent_ofScientific {l : Layout} {negative : Bool} {s : Scientific} (hsafe : s.toRat ≤ safeLimit)
    {ds : List Digit} (h : (Numeral.ofScientific l negative s).exponent = some (false, ds)) :
    ofDigits ds < exponentLimit := by
  simp only [Numeral.ofScientific] at h
  split at h
  · cases h
  · rename_i hzero
    split at h
    · rw [exponent_plain] at h
      cases h
    · set exponent := ((digits s.value).length : ℤ) + s.power - 1 with hexponent
      obtain ⟨hsign, hds⟩ := Prod.mk.inj (Option.some.inj h)
      have hpos := Nat.pos_of_ne_zero hzero
      have hlength : ((digits s.value).length - 1 : ℕ) + s.power = exponent := by
        have hne := List.length_pos_iff.mpr (digits_ne_nil s.value)
        omega
      have hlt : (10 : ℚ) ^ exponent < 10 ^ ((greatestPower + 1 : ℕ) : ℤ) := by
        calc (10 : ℚ) ^ exponent = 10 ^ ((digits s.value).length - 1) * 10 ^ s.power := by
              rw [← hlength, zpow_add₀ (by norm_num), zpow_natCast]
          _ ≤ s.value * 10 ^ s.power := by
              gcongr
              exact_mod_cast pow_length_digits_le hpos
          _ ≤ safeLimit := hsafe
          _ < 10 ^ ((greatestPower + 1 : ℕ) : ℤ) := by
              rw [zpow_natCast]
              exact safeLimit_lt
      have hsmall := (zpow_lt_zpow_iff_right₀ (by norm_num)).mp hlt
      have hnonneg := of_decide_eq_false hsign
      rw [← hds, ofDigits_digits]
      simp only [greatestPower, exponentLimit, Nat.pow_eq] at *
      omega

theorem exists_magnitude?_shortest {a : Magnitude} (ha : a.InRange) (negative : Bool) :
    ∃ b, magnitude? (Numeral.ofScientific doubles negative a.shortest).whole
      (Numeral.ofScientific doubles negative a.shortest).fraction
      (Numeral.ofScientific doubles negative a.shortest).exponent = some b := by
  by_cases htop : a.exponent = Magnitude.greatestExponent → a.mantissa ≤ 2 ^ 53 - 3
  · have hsafe := Magnitude.shortest_le_safeLimit ha htop
    apply exists_magnitude?
    · rw [Numeral.literalValue_ofScientific]
      exact hsafe
    · intro ds hds
      exact exponent_ofScientific hsafe hds
  · obtain ⟨mantissa, exponent⟩ := a
    obtain ⟨rfl, hlarge⟩ := Classical.not_imp.mp htop
    have hmantissa : mantissa = 2 ^ 53 - 2 ∨ mantissa = 2 ^ 53 - 1 := by
      have hlt : mantissa < 2 ^ 53 := ha.1
      simp only at hlarge
      omega
    -- the two greatest magnitudes are too close to the end for the bound
    apply Option.isSome_iff_exists.mp
    rcases hmantissa with rfl | rfl <;> revert negative <;> decide +kernel

theorem ofNumeral?_integer {n : ℤ} (h : (integer n).InRange) :
    ofNumeral? (numeral (.integer n)) = some (.integer n) := by
  obtain ⟨hleast, hlimit⟩ := h
  simp only [ofNumeral?, numeral, Numeral.isWhole, ofDigits_digits, List.isEmpty_nil, Option.isNone_none,
    Bool.and_self, Bool.true_and]
  by_cases hn : n < 0
  · have hsize : n.natAbs ≠ 0 := by omega
    simp [hn, hsize, abs_of_neg hn, hleast]
  · simp [hn, abs_of_nonneg (not_lt.mp hn), hlimit]

theorem exists_ofNumeral?_numeral {x : Number} (h : x.InRange) : ∃ y, ofNumeral? x.numeral = some y := by
  cases x with
  | integer n => exact ⟨_, ofNumeral?_integer h⟩
  | double x =>
    apply exists_ofNumeral?_of_double?
    obtain ⟨b, hb⟩ := exists_magnitude?_shortest h x.negative
    refine ⟨.double ⟨(numeral (.double x)).negative, b⟩, ?_⟩
    rw [double?, numeral, hb, Option.map_some]

end Number

end SpawnGate.Json
