import SpawnGate.Proofs.Decimal.Shortest

/-!
Where one rounding does. A quotient in the interval of a magnitude is rounded to that magnitude, and a literal with few
digits and a small power of ten is read with one rounding of its exact value. So what is written for a magnitude is
read back as it if it is such a literal.
-/

namespace SpawnGate.Decimal

namespace Magnitude

theorem nearest_eq {num den m : ℕ} (hlow : 2 * (m * den) ≤ 2 * num + den) (hhigh : 2 * num ≤ 2 * (m * den) + den)
    (htie : m % 2 = 0 ∨ 2 * (m * den) < 2 * num + den ∧ 2 * num < 2 * (m * den) + den) (hden : 0 < den) :
    nearest num den = m := by
  have hdivmod := Nat.div_add_mod num den
  have hmod := Nat.mod_lt num hden
  set q := num / den with hq
  set r := num % den with hr
  have hcases : m = q ∨ m = q + 1 := by
    have hle : m ≤ q + 1 := by
      by_contra hlt
      have hmul : (q + 2) * den ≤ m * den := Nat.mul_le_mul_right den (by omega)
      rw [Nat.add_mul, mul_comm q] at hmul
      omega
    have hge : q ≤ m := by
      by_contra hlt
      have hmul : (m + 1) * den ≤ q * den := Nat.mul_le_mul_right den (by omega)
      rw [Nat.add_mul, mul_comm q] at hmul
      omega
    omega
  unfold nearest
  rw [← hq, ← hr]
  rcases hcases with rfl | rfl
  · rw [mul_comm q] at hlow hhigh htie
    rw [if_neg]
    omega
  · rw [Nat.add_mul, mul_comm q] at hlow hhigh htie
    rw [if_pos]
    omega

theorem nearest_scaled {num den m : ℕ} {e : ℤ} (hden : 0 < den)
    (hlow : (m - 1 / 2 : ℚ) * 2 ^ e ≤ num / den) (hhigh : (num / den : ℚ) ≤ (m + 1 / 2) * 2 ^ e)
    (htie : m % 2 = 0 ∨ (m - 1 / 2 : ℚ) * 2 ^ e < num / den ∧ (num / den : ℚ) < (m + 1 / 2) * 2 ^ e) :
    nearest (num * 2 ^ (-e).toNat) (den * 2 ^ e.toNat) = m := by
  have hunit : (0 : ℚ) < 2 ^ e := by positivity
  have hd : 0 < den * 2 ^ e.toNat := by positivity
  have hd' : (0 : ℚ) < (den * 2 ^ e.toNat : ℕ) := by exact_mod_cast hd
  have hscaled := scaled_eq num den e
  rw [← le_div_iff₀ hunit, ← hscaled, le_div_iff₀ hd'] at hlow
  rw [← div_le_iff₀ hunit, ← hscaled, div_le_iff₀ hd'] at hhigh
  rw [← lt_div_iff₀ hunit, ← div_lt_iff₀ hunit, ← hscaled, lt_div_iff₀ hd', div_lt_iff₀ hd'] at htie
  generalize num * 2 ^ (-e).toNat = n at *
  generalize den * 2 ^ e.toNat = d at *
  have hlow' : (2 * (m * d) : ℚ) ≤ 2 * n + d := by linarith
  have hhigh' : (2 * n : ℚ) ≤ 2 * (m * d) + d := by linarith
  apply nearest_eq (by exact_mod_cast hlow') (by exact_mod_cast hhigh') _ hd
  apply htie.imp id
  rintro ⟨hlt, hgt⟩
  have hlt' : (2 * (m * d) : ℚ) < 2 * n + d := by linarith
  have hgt' : (2 * n : ℚ) < 2 * (m * d) + d := by linarith
  exact ⟨by exact_mod_cast hlt', by exact_mod_cast hgt'⟩

theorem round_eq {num den m : ℕ} {e : ℤ} (hnum : 0 < num) (hden : 0 < den)
    (hexponent : max (leadingExponent num den - 52) leastExponent = e)
    (hlow : (m - 1 / 2 : ℚ) * 2 ^ e ≤ num / den) (hhigh : (num / den : ℚ) ≤ (m + 1 / 2) * 2 ^ e)
    (htie : m % 2 = 0 ∨ (m - 1 / 2 : ℚ) * 2 ^ e < num / den ∧ (num / den : ℚ) < (m + 1 / 2) * 2 ^ e)
    (hgreatest : (carried m e).exponent ≤ greatestExponent) : round num den = some (carried m e) := by
  have hnearest := nearest_scaled hden hlow hhigh htie
  rw [round, if_neg hnum.ne']
  simp only [Nat.pow_eq, hexponent, hnearest]
  exact if_pos hgreatest

theorem leadingExponent_lt {num den : ℕ} (hnum : 0 < num) (hden : 0 < den) {k : ℤ}
    (h : (num / den : ℚ) < 2 ^ k) : leadingExponent num den < k := by
  have hlow := (leadingExponent_bounds hnum hden).1
  exact (zpow_lt_zpow_iff_right₀ one_lt_two).mp (lt_of_le_of_lt hlow h)

theorem le_leadingExponent {num den : ℕ} (hnum : 0 < num) (hden : 0 < den) {k : ℤ}
    (h : (2 : ℚ) ^ k ≤ num / den) : k ≤ leadingExponent num den := by
  have hhigh := (leadingExponent_bounds hnum hden).2
  have hlt := (zpow_lt_zpow_iff_right₀ one_lt_two).mp (lt_of_le_of_lt h hhigh)
  omega

theorem carried_of_canonical {a : Magnitude} (ha : a.IsCanonical) : carried a.mantissa a.exponent = a :=
  if_neg ha.inRange.1.ne

theorem bounds_of_has {a : Magnitude} (hpos : 0 < a.mantissa) {v : ℚ}
    (h : a.interval.Has (v / 2 ^ (a.exponent - 2))) :
    (a.mantissa - 1 / 2 : ℚ) * 2 ^ a.exponent ≤ v ∧ v ≤ (a.mantissa + 1 / 2) * 2 ^ a.exponent ∧
      (a.mantissa = 2 ^ 52 → leastExponent < a.exponent → (a.mantissa - 1 / 4 : ℚ) * 2 ^ a.exponent ≤ v) ∧
      (a.mantissa % 2 = 0 ∨
        (a.mantissa - 1 / 2 : ℚ) * 2 ^ a.exponent < v ∧ v < (a.mantissa + 1 / 2) * 2 ^ a.exponent) := by
  have hunit : (0 : ℚ) < 2 ^ (a.exponent - 2) := by positivity
  have hfour : (2 : ℚ) ^ a.exponent = 4 * 2 ^ (a.exponent - 2) := by
    rw [zpow_sub₀ two_ne_zero]
    norm_num
    ring
  have hlow : (4 * a.mantissa - 2 : ℚ) ≤ a.interval.low ∧
      (a.mantissa = 2 ^ 52 → leastExponent < a.exponent → (4 * a.mantissa - 1 : ℚ) ≤ a.interval.low) := by
    have hcast : ((4 * a.mantissa - 2 : ℕ) : ℚ) = 4 * a.mantissa - 2 := by
      rw [Nat.cast_sub (by omega)]
      push_cast
      rfl
    have hcast' : ((4 * a.mantissa - 1 : ℕ) : ℚ) = 4 * a.mantissa - 1 := by
      rw [Nat.cast_sub (by omega)]
      push_cast
      rfl
    rw [← hcast, ← hcast']
    simp only [interval]
    constructor
    · have hle : 4 * a.mantissa - 2 ≤
          4 * a.mantissa - (if a.mantissa = Nat.pow 2 52 ∧ leastExponent < a.exponent then 1 else 2) := by
        split <;> omega
      exact_mod_cast hle
    · intro hmantissa hleast
      rw [if_pos ⟨hmantissa, hleast⟩]
  have hhigh : (a.interval.high : ℚ) = 4 * a.mantissa + 2 := by
    simp only [interval]
    push_cast
    rfl
  obtain ⟨hle, hge⟩ := h.le
  rw [le_div_iff₀ hunit] at hle
  rw [div_le_iff₀ hunit, hhigh] at hge
  have hscaled (x : ℚ) (hx : x ≤ a.interval.low) : x * 2 ^ (a.exponent - 2) ≤ v :=
    (mul_le_mul_of_nonneg_right hx hunit.le).trans hle
  rw [hfour]
  refine ⟨?_, ?_, fun hmantissa hleast => ?_, ?_⟩
  · have hle := hscaled _ hlow.1
    linarith
  · linarith
  · have hle := hscaled _ (hlow.2 hmantissa hleast)
    linarith
  · unfold Interval.Has at h
    split at h
    · rename_i hclosed
      exact .inl (of_decide_eq_true hclosed)
    · rw [lt_div_iff₀ hunit, div_lt_iff₀ hunit, hhigh] at h
      obtain ⟨hlt, hgt⟩ := h
      have hle := mul_le_mul_of_nonneg_right hlow.1 hunit.le
      exact .inr ⟨by linarith, by linarith⟩

theorem two_zpow_add (k : ℕ) (e : ℤ) : (2 : ℚ) ^ (k + e) = 2 ^ k * 2 ^ e := by
  rw [zpow_add₀ two_ne_zero, zpow_natCast]

/-- Just below a power of two the unit is half as large, and rounding carries. -/
theorem round_below_power {a : Magnitude} (hgreatest : a.exponent ≤ greatestExponent) (hpower : a.mantissa = 2 ^ 52)
    (hleast : leastExponent < a.exponent) {num den : ℕ} (hnum : 0 < num) (hden : 0 < den)
    (hlow : (a.mantissa - 1 / 4 : ℚ) * 2 ^ a.exponent ≤ num / den)
    (hbelow : (num / den : ℚ) < 2 ^ 52 * 2 ^ a.exponent) : round num den = some a := by
  have hunit : (0 : ℚ) < 2 ^ a.exponent := by positivity
  have hhalf : (2 : ℚ) ^ a.exponent = 2 * 2 ^ (a.exponent - 1) := by
    rw [zpow_sub_one₀ two_ne_zero]
    ring
  have hcarried : carried (2 ^ 53) (a.exponent - 1) = a := by
    rw [carried, if_pos rfl, sub_add_cancel, ← hpower]
  rw [hpower] at hlow
  push_cast at hlow
  have hexponent : max (leadingExponent num den - 52) leastExponent = a.exponent - 1 := by
    have hupper : leadingExponent num den < (52 : ℕ) + a.exponent := by
      apply leadingExponent_lt hnum hden
      rw [two_zpow_add]
      exact hbelow
    have hlower : (51 : ℕ) + a.exponent ≤ leadingExponent num den := by
      apply le_leadingExponent hnum hden
      rw [two_zpow_add]
      linarith
    omega
  rw [hhalf] at hlow hbelow
  have hround := round_eq (m := 2 ^ 53) hnum hden hexponent (by push_cast; linarith) (by push_cast; linarith)
    (.inl (by decide)) (by rw [hcarried]; exact hgreatest)
  rw [hcarried] at hround
  exact hround

/-- A quotient in the interval of a magnitude is rounded to it. -/
theorem round_of_has {a : Magnitude} (ha : a.IsCanonical) (hpos : 0 < a.mantissa) {num den : ℕ} (hden : 0 < den)
    (h : a.interval.Has (num / den / 2 ^ (a.exponent - 2))) : round num den = some a := by
  obtain ⟨⟨hmantissa, hleast, hgreatest⟩, hnormal⟩ := id ha
  obtain ⟨hlow, hhigh, hedge, htie⟩ := bounds_of_has hpos h
  have hunit : (0 : ℚ) < 2 ^ a.exponent := by positivity
  have hone : (1 : ℚ) ≤ a.mantissa := by exact_mod_cast hpos
  have hmax : (a.mantissa : ℚ) + 1 ≤ 2 ^ 53 := by exact_mod_cast hmantissa
  have hnum : 0 < num := by
    apply Nat.pos_of_ne_zero
    rintro rfl
    rw [Nat.cast_zero, zero_div] at hlow
    nlinarith
  by_cases hbelow : leastExponent < a.exponent ∧ (num / den : ℚ) < 2 ^ 52 * 2 ^ a.exponent
  · obtain ⟨hlt, hbelow⟩ := hbelow
    have hpower : a.mantissa = 2 ^ 52 := by
      apply le_antisymm _ (hnormal hlt)
      by_contra hlarge
      have hlarge' : (2 : ℚ) ^ 52 + 1 ≤ a.mantissa := by exact_mod_cast not_le.mp hlarge
      nlinarith
    exact round_below_power hgreatest hpower hlt hnum hden (hedge hpower hlt) hbelow
  · have hupper : leadingExponent num den < (53 : ℕ) + a.exponent := by
      apply leadingExponent_lt hnum hden
      rw [two_zpow_add]
      nlinarith
    have hexponent : max (leadingExponent num den - 52) leastExponent = a.exponent := by
      rcases hleast.eq_or_lt with he | he
      · omega
      · have hlower : (52 : ℕ) + a.exponent ≤ leadingExponent num den := by
          apply le_leadingExponent hnum hden
          rw [two_zpow_add]
          by_contra hlt
          exact hbelow ⟨he, not_le.mp hlt⟩
        omega
    have hround := round_eq hnum hden hexponent hlow hhigh htie (by rw [carried_of_canonical ha]; exact hgreatest)
    rw [carried_of_canonical ha] at hround
    exact hround

/-- A natural under `2 ^ 53` is a magnitude itself. -/
theorem exists_round_eq {n : ℕ} (hpos : 0 < n) (h : n < 2 ^ 53) : ∃ a, round n 1 = some a ∧ a.value = n := by
  obtain ⟨m, e, hm, hround⟩ := exists_nearest hpos one_pos
  have hunit : (0 : ℚ) < 2 ^ e := by positivity
  rw [Nat.cast_one, div_one] at hm
  have hn : (n : ℚ) < 2 ^ 53 := by exact_mod_cast h
  have hsmall : e ≤ 0 := by
    rcases hm.least.eq_or_lt with he | he
    · rw [← he]
      decide
    · by_contra hlarge
      have hpow : (2 : ℚ) ^ (1 : ℤ) ≤ 2 ^ e := zpow_le_zpow_right₀ one_le_two (by omega)
      have hnormal := hm.normal he
      rw [zpow_one] at hpow
      linarith
  obtain ⟨k, rfl⟩ : ∃ k : ℕ, e = -k := ⟨(-e).toNat, by omega⟩
  -- both are multiples of the unit, so they are equal if they are less than a unit apart
  have hmultiple : (n : ℚ) = (n * 2 ^ k : ℕ) * 2 ^ (-(k : ℤ)) := by
    rw [zpow_neg, zpow_natCast]
    push_cast
    field_simp
  have hequal : m = n * 2 ^ k := by
    have hle := hm.le_add
    have hge := hm.ge_sub
    rw [hmultiple] at hle hge
    have hle' : (m : ℚ) < (n * 2 ^ k : ℕ) + 1 := by nlinarith
    have hge' : ((n * 2 ^ k : ℕ) : ℚ) < m + 1 := by nlinarith
    have hle'' : m < n * 2 ^ k + 1 := by exact_mod_cast hle'
    have hge'' : n * 2 ^ k < m + 1 := by exact_mod_cast hge'
    omega
  have hgreatest : (carried m (-(k : ℤ))).exponent ≤ greatestExponent := by
    unfold carried greatestExponent
    split
    · simp only
      omega
    · simp only
      omega
  refine ⟨_, hround.trans (if_pos hgreatest), ?_⟩
  rw [value_carried, hequal, ← hmultiple]

end Magnitude

/-- The powers of ten that are magnitudes themselves. -/
theorem value_powerOfTen {k : ℕ} (h : k ≤ 22) : (powerOfTen k).value = 10 ^ k := by
  have hall : ∀ k < 23, (powerOfTen k).numerator = 10 ^ k * (powerOfTen k).denominator := by decide +kernel
  have hden : ((powerOfTen k).denominator : ℚ) ≠ 0 := by
    have hpos := Magnitude.denominator_pos (powerOfTen k)
    exact_mod_cast hpos.ne'
  rw [Magnitude.value_eq, hall k (Nat.lt_succ_of_le h), Nat.cast_mul, mul_div_cancel_right₀ _ hden]
  push_cast
  rfl

open Magnitude

/-- A significand under `2 ^ 53` at a power of ten up to `22` either way is rounded once. -/
theorem scale_of_has {a : Magnitude} (ha : a.IsCanonical) (hmantissa : 0 < a.mantissa) {significand : ℕ}
    (hpos : 0 < significand) (hlimit : significand < 2 ^ 53) {exponent : ℤ} (hexponent : exponent.natAbs ≤ 22)
    (h : a.interval.Has (significand * 10 ^ exponent / 2 ^ (a.exponent - 2))) :
    scale significand exponent = some a := by
  obtain ⟨b, hb, hvalue⟩ := exists_round_eq hpos hlimit
  simp only [scale, hb, Option.bind_eq_bind, Option.bind_some]
  have hnonzero : b.isZero = false := by
    apply beq_false_of_ne
    intro hzero
    rw [value, hzero, Nat.cast_zero, zero_mul] at hvalue
    exact hpos.ne (by exact_mod_cast hvalue)
  split
  · rename_i hnonneg
    obtain ⟨k, rfl⟩ := Int.eq_ofNat_of_zero_le hnonneg
    rw [Int.toNat_natCast, if_neg (by rw [hnonzero]; exact Bool.false_ne_true), if_pos (by unfold greatestPower; omega)]
    apply round_of_has ha hmantissa (Nat.mul_pos (denominator_pos _) (denominator_pos _))
    rw [quotient_mul, hvalue, value_powerOfTen (by omega), ← zpow_natCast]
    exact h
  · rename_i hneg
    obtain ⟨k, rfl⟩ : ∃ k : ℕ, exponent = -k := ⟨(-exponent).toNat, by omega⟩
    have hk : (-(-(k : ℤ))).toNat = k := by omega
    have hsteps : (k - 1) / greatestPower = 0 := by
      unfold greatestPower
      omega
    rw [hk, hsteps, zero_mul, Nat.sub_zero, shrink]
    have hten : 2 ≤ (powerOfTen k).value := two_le_powerOfTen (by omega) (by unfold greatestPower; omega)
    apply round_of_has ha hmantissa (Nat.mul_pos (denominator_pos b) (numerator_pos hten))
    rw [zpow_neg, zpow_natCast, ← div_eq_mul_inv] at h
    rw [quotient_div, hvalue, value_powerOfTen (by omega)]
    exact h

theorem takeWhole_of_lt {whole : List Digit} (h : appended 0 whole < significandLimit) :
    takeWhole 0 whole = (appended 0 whole, 0) := by
  rcases takeWhole_cases 0 (by decide) whole with ⟨htake, -⟩ | ⟨_, dropped, -, -, -, hfull⟩
  · exact htake
  · have hpos : 0 < 10 ^ dropped := by positivity
    have hle : significandLimit * 1 ≤ significandLimit * 10 ^ dropped := Nat.mul_le_mul_left _ hpos
    omega

theorem takeFraction_of_lt {significand : ℕ} {ds : List Digit} (h : appended significand ds < significandLimit) :
    takeFraction significand ds = (appended significand ds, ds.length) := by
  induction ds generalizing significand with
  | nil => rfl
  | cons d ds ih =>
    have hnext : significand * 10 + d.val < significandLimit := lt_of_le_of_lt (le_appended _ ds) h
    rw [takeFraction, if_pos hnext, ih h]
    rfl

theorem magnitude?_eq_scale {whole fraction : List Digit} {exponent : Option (Bool × List Digit)}
    (hlimit : ofDigits (whole ++ fraction) < significandLimit)
    (hexponent : ∀ negative ds, exponent = some (negative, ds) → ofDigits ds < exponentLimit) :
    magnitude? whole fraction exponent =
      scale (ofDigits (whole ++ fraction)) (powerOf exponent - fraction.length) := by
  have happended : ofDigits (whole ++ fraction) = appended (appended 0 whole) fraction := ofDigits_append whole fraction
  rw [happended] at hlimit ⊢
  have hwhole : appended 0 whole < significandLimit := lt_of_le_of_lt (le_appended _ fraction) hlimit
  simp only [magnitude?, takeWhole_of_lt hwhole, takeFraction_of_lt hlimit]
  cases exponent with
  | none =>
    simp only [powerOf]
    congr 1
  | some exponent =>
    obtain ⟨negative, ds⟩ := exponent
    simp only [hexponent negative ds rfl, if_true, powerOf]
    congr 1
    split
    · omega
    · omega

end SpawnGate.Decimal
