import Mathlib.Tactic.GCongr
import Mathlib.Tactic.NormNum
import SpawnGate.Decimal.Scaling
import SpawnGate.Proofs.Decimal.Digits
import SpawnGate.Proofs.Decimal.Rounding

/-!
Which literals are in range: the roundings on the way never lift one above the greatest magnitude
unless it lies within five halves of a unit of it.
-/

namespace SpawnGate.Decimal

open Magnitude

/-- Two units below the greatest magnitude and a half. -/
def safeLimit : ℚ := (2 ^ 54 - 5) * 2 ^ 970

theorem takeWhole_cases (significand : ℕ) (h : significand < significandLimit) (ds : List Digit) :
    takeWhole significand ds = (appended significand ds, 0) ∧ appended significand ds < significandLimit ∨
      ∃ total dropped, takeWhole significand ds = (total, dropped + 1) ∧ total < significandLimit ∧
        total * 10 ^ (dropped + 1) ≤ appended significand ds ∧
        significandLimit * 10 ^ dropped ≤ appended significand ds := by
  induction ds generalizing significand with
  | nil => exact .inl ⟨rfl, h⟩
  | cons d ds ih =>
    rw [takeWhole]
    split
    · rename_i hfits
      exact ih _ hfits
    · rename_i hfull
      refine .inr ⟨significand, ds.length, rfl, h, mul_pow_le_appended significand (d :: ds), ?_⟩
      exact (Nat.mul_le_mul_right _ (not_lt.mp hfull)).trans (mul_pow_le_appended _ ds)

theorem takeFraction_bounds (significand : ℕ) (h : significand < significandLimit) (ds : List Digit) :
    (takeFraction significand ds).1 < significandLimit ∧
      (takeFraction significand ds).1 * 10 ^ ds.length ≤
        appended significand ds * 10 ^ (takeFraction significand ds).2 ∧
      ((takeFraction significand ds).2 = 0 → (takeFraction significand ds).1 = significand) := by
  induction ds generalizing significand with
  | nil => exact ⟨h, by simp [takeFraction, appended], fun _ => rfl⟩
  | cons d ds ih =>
    rw [takeFraction]
    split
    · rename_i hfits
      obtain ⟨hlimit, hle, -⟩ := ih _ hfits
      refine ⟨hlimit, ?_, fun hzero => absurd hzero (Nat.succ_ne_zero _)⟩
      simp only [List.length_cons, pow_succ]
      calc (takeFraction (significand * 10 + d.val) ds).1 * (10 ^ ds.length * 10)
          = (takeFraction (significand * 10 + d.val) ds).1 * 10 ^ ds.length * 10 := by ring
        _ ≤ appended (significand * 10 + d.val) ds *
            10 ^ (takeFraction (significand * 10 + d.val) ds).2 * 10 := Nat.mul_le_mul_right 10 hle
        _ = appended significand (d :: ds) *
            (10 ^ (takeFraction (significand * 10 + d.val) ds).2 * 10) := by
          rw [mul_assoc]
          rfl
    · refine ⟨h, ?_, fun _ => rfl⟩
      simpa using mul_pow_le_appended significand (d :: ds)

/-- The significand and power of ten that are read never stand for more than what is written. -/
theorem significand_le (whole fraction : List Digit) :
    (takeFraction (takeWhole 0 whole).1 fraction).1 < significandLimit ∧
      ((takeFraction (takeWhole 0 whole).1 fraction).1 : ℚ) *
          10 ^ (((takeWhole 0 whole).2 : ℤ) - (takeFraction (takeWhole 0 whole).1 fraction).2) ≤
        ofDigits (whole ++ fraction) / 10 ^ fraction.length := by
  have happended : ofDigits (whole ++ fraction) = appended (appended 0 whole) fraction :=
    ofDigits_append whole fraction
  have hwhole : (appended 0 whole : ℚ) ≤ ofDigits (whole ++ fraction) / 10 ^ fraction.length := by
    rw [le_div_iff₀ (by positivity), happended]
    exact_mod_cast mul_pow_le_appended _ fraction
  rcases takeWhole_cases 0 (by decide) whole with ⟨htake, hlimit⟩ | ⟨total, dropped, htake, hlimit, hle, hfull⟩
  · obtain ⟨hsmall, hle, -⟩ := takeFraction_bounds _ hlimit fraction
    rw [htake]
    refine ⟨hsmall, ?_⟩
    have hle' : ((takeFraction (appended 0 whole) fraction).1 : ℚ) * 10 ^ fraction.length ≤
        appended (appended 0 whole) fraction * 10 ^ (takeFraction (appended 0 whole) fraction).2 := by
      exact_mod_cast hle
    rw [Nat.cast_zero, zero_sub, zpow_neg, zpow_natCast, ← div_eq_mul_inv, happended,
      div_le_div_iff₀ (by positivity) (by positivity)]
    exact hle'
  · obtain ⟨hsmall, -, hunused⟩ := takeFraction_bounds _ hlimit fraction
    rw [htake]
    refine ⟨hsmall, le_trans ?_ hwhole⟩
    cases hused : (takeFraction total fraction).2 with
    | zero =>
      rw [hunused hused, Nat.cast_zero, sub_zero, zpow_natCast]
      exact_mod_cast hle
    | succ used =>
      have hpow : (10 : ℚ) ^ (((dropped + 1 : ℕ) : ℤ) - (used + 1 : ℕ)) ≤ 10 ^ dropped := by
        rw [← zpow_natCast]
        apply zpow_le_zpow_right₀ (by norm_num)
        omega
      calc ((takeFraction total fraction).1 : ℚ) * 10 ^ (((dropped + 1 : ℕ) : ℤ) - (used + 1 : ℕ))
          ≤ significandLimit * 10 ^ dropped := by
            gcongr
        _ ≤ appended 0 whole := by exact_mod_cast hfull

theorem cast_lt_overflow {n : ℕ} (h : n < (2 ^ 54 - 1) * 2 ^ 970) : (n : ℚ) < overflow := by
  have hcast : overflow = (((2 ^ 54 - 1) * 2 ^ 970 : ℕ) : ℚ) := by
    rw [overflow, Nat.cast_mul, Nat.cast_pow, Nat.cast_sub (Nat.one_le_two_pow)]
    push_cast
    rfl
  rw [hcast]
  exact_mod_cast h

theorem exists_round {n : ℕ} (hn : 1 ≤ n) (h : n < (2 ^ 54 - 1) * 2 ^ 970) :
    ∃ a, round n 1 = some a ∧ (1 - 1 / 2 ^ 53) * (n : ℚ) ≤ a.value ∧
      a.value ≤ (1 + 1 / 2 ^ 53) * (n : ℚ) := by
  have hdiv : (n : ℚ) / (1 : ℕ) = n := by simp
  have hlimit : (n : ℚ) / (1 : ℕ) < overflow := by
    rw [hdiv]
    exact cast_lt_overflow h
  obtain ⟨a, ha⟩ := round_ne_none one_pos hlimit
  have hbounds := value_bounds_of_round one_pos hn ha
  rw [hdiv] at hbounds
  exact ⟨a, ha, hbounds⟩

theorem powerOfTen_bounds {k : ℕ} (h : k ≤ greatestPower) :
    (10 : ℚ) ^ k / 2 ≤ (powerOfTen k).value ∧ (powerOfTen k).value ≤ (1 + 1 / 2 ^ 53) * 10 ^ k := by
  have hle : 10 ^ k ≤ 10 ^ greatestPower := Nat.pow_le_pow_right (by decide) h
  have hlimit : 10 ^ greatestPower < (2 ^ 54 - 1) * 2 ^ 970 := by decide +kernel
  obtain ⟨a, ha, hlow, hhigh⟩ := exists_round (Nat.one_le_pow k 10 (by decide)) (lt_of_le_of_lt hle hlimit)
  rw [powerOfTen, Nat.pow_eq, ha, Option.getD_some]
  push_cast at hlow hhigh
  have hpos : (0 : ℚ) < 10 ^ k := by positivity
  exact ⟨by linarith, hhigh⟩

theorem numerator_pos {b : Magnitude} (hb : 2 ≤ b.value) : 0 < b.numerator := by
  apply Nat.pos_of_ne_zero
  intro hzero
  rw [value_eq, hzero, Nat.cast_zero, zero_div] at hb
  linarith

theorem exists_div_of_le {a b : Magnitude} (ha : a.value ≤ 2 ^ 65) (hb : 2 ≤ b.value) :
    ∃ c, a.div b = some c ∧ c.value ≤ a.value := by
  have hden : 0 < a.denominator * b.numerator := Nat.mul_pos (denominator_pos a) (numerator_pos hb)
  have hhalf : a.value / b.value ≤ a.value / 2 :=
    div_le_div_of_nonneg_left (value_nonneg a) two_pos hb
  have hlimit : ((2 ^ 64 : ℕ) : ℚ) < overflow := cast_lt_overflow (by decide +kernel)
  obtain ⟨c, hc⟩ := round_ne_none hden (by rw [quotient_div]; push_cast at hlimit; linarith)
  refine ⟨c, hc, ?_⟩
  have hle := value_le_of_round hden hc
  rw [quotient_div] at hle
  linarith

theorem two_le_powerOfTen {k : ℕ} (hk : 1 ≤ k) (h : k ≤ greatestPower) : 2 ≤ (powerOfTen k).value := by
  have hpow : (10 : ℚ) ^ 1 ≤ 10 ^ k := pow_le_pow_right₀ (by norm_num) hk
  have hlow := (powerOfTen_bounds h).1
  linarith

theorem value_shrink_le (n : ℕ) {a : Magnitude} (ha : a.value ≤ 2 ^ 65) :
    (shrink n a).value ≤ 2 ^ 65 := by
  induction n generalizing a with
  | zero => exact ha
  | succ n ih =>
    rw [shrink]
    split
    · exact ha
    · obtain ⟨c, hc, hle⟩ := exists_div_of_le ha (two_le_powerOfTen (by decide) le_rfl)
      rw [hc]
      exact ih (hle.trans ha)

theorem safeLimit_lt : safeLimit < 10 ^ (greatestPower + 1) := by
  have hle : safeLimit ≤ ((2 ^ 54 * 2 ^ 970 : ℕ) : ℚ) := by
    rw [safeLimit, Nat.cast_mul, Nat.cast_pow, Nat.cast_pow]
    push_cast
    gcongr
    linarith
  have hlt : 2 ^ 54 * 2 ^ 970 < 10 ^ (greatestPower + 1) := by decide +kernel
  exact lt_of_le_of_lt hle (by exact_mod_cast hlt)

theorem rounded_twice_lt_overflow {x : ℚ} (h : x ≤ safeLimit) :
    (1 + 1 / 2 ^ 53) * ((1 + 1 / 2 ^ 53) * x) < overflow := by
  have hpos : (0 : ℚ) < 2 ^ 970 := by positivity
  calc (1 + 1 / 2 ^ 53) * ((1 + 1 / 2 ^ 53) * x)
      ≤ (1 + 1 / 2 ^ 53) * ((1 + 1 / 2 ^ 53) * safeLimit) := by gcongr
    _ = ((1 + 1 / 2 ^ 53) * ((1 + 1 / 2 ^ 53) * (2 ^ 54 - 5))) * 2 ^ 970 := by
      rw [safeLimit]
      generalize (2 : ℚ) ^ 970 = c
      ring
    _ < (2 ^ 54 - 1) * 2 ^ 970 := by
      gcongr
      norm_num

theorem exists_mul_of_le {a b : Magnitude} (h : a.value * b.value < overflow) : ∃ c, a.mul b = some c := by
  apply round_ne_none (Nat.mul_pos (denominator_pos a) (denominator_pos b))
  rw [quotient_mul]
  exact h

theorem exists_significand {significand : ℕ} (h : significand < significandLimit) :
    ∃ a, round significand 1 = some a ∧ a.value ≤ (1 + 1 / 2 ^ 53) * significand ∧
      (significand = 0 → a.isZero = true) := by
  rcases Nat.eq_zero_or_pos significand with rfl | hpos
  · exact ⟨zero, rfl, by simp [value, zero], fun _ => rfl⟩
  · have hlimit : significandLimit ≤ (2 ^ 54 - 1) * 2 ^ 970 := by decide +kernel
    obtain ⟨a, ha, -, hle⟩ := exists_round hpos (lt_of_lt_of_le h hlimit)
    exact ⟨a, ha, hle, fun hzero => absurd hzero hpos.ne'⟩

theorem exists_scale {significand : ℕ} {exponent : ℤ} (hlimit : significand < significandLimit)
    (hsafe : (significand : ℚ) * 10 ^ exponent ≤ safeLimit) : ∃ a, scale significand exponent = some a := by
  obtain ⟨a, ha, hle, hzero⟩ := exists_significand hlimit
  simp only [scale, ha, Option.bind_eq_bind, Option.bind_some]
  split
  · rename_i hexponent
    obtain ⟨k, rfl⟩ := Int.eq_ofNat_of_zero_le hexponent
    rw [zpow_natCast] at hsafe
    rw [Int.toNat_natCast]
    split
    · exact ⟨a, rfl⟩
    · rename_i hnonzero
      split
      · rename_i hk
        apply exists_mul_of_le
        calc a.value * (powerOfTen k).value
            ≤ ((1 + 1 / 2 ^ 53) * significand) * ((1 + 1 / 2 ^ 53) * 10 ^ k) := by
              apply mul_le_mul hle (powerOfTen_bounds hk).2 (value_nonneg _) (by positivity)
          _ = (1 + 1 / 2 ^ 53) * ((1 + 1 / 2 ^ 53) * (significand * 10 ^ k)) := by ring
          _ < overflow := rounded_twice_lt_overflow hsafe
      · rename_i hk
        have hone : (1 : ℚ) ≤ significand := by
          have hpos : 0 < significand := Nat.pos_of_ne_zero fun hz => hnonzero (hzero hz)
          exact_mod_cast hpos
        have hpow : (10 : ℚ) ^ (greatestPower + 1) ≤ 10 ^ k :=
          pow_le_pow_right₀ (by norm_num) (not_le.mp hk)
        have hlarge : (10 : ℚ) ^ k ≤ significand * 10 ^ k := le_mul_of_one_le_left (by positivity) hone
        have hlt := safeLimit_lt
        linarith
  · have hvalue : a.value ≤ 2 ^ 65 := by
      have hlimit' : (significand : ℚ) ≤ 2 ^ 64 := by exact_mod_cast hlimit.le
      linarith
    set depth := (-exponent).toNat with hdepth
    have hpower : 1 ≤ depth - (depth - 1) / greatestPower * greatestPower ∧
        depth - (depth - 1) / greatestPower * greatestPower ≤ greatestPower := by
      simp only [greatestPower]
      omega
    obtain ⟨c, hc, -⟩ := exists_div_of_le (value_shrink_le ((depth - 1) / greatestPower) hvalue)
      (two_le_powerOfTen hpower.1 hpower.2)
    exact ⟨c, hc⟩

def powerOf : Option (Bool × List Digit) → ℤ
  | none => 0
  | some (negative, ds) => if negative then -ofDigits ds else ofDigits ds

def literalValue (whole fraction : List Digit) (exponent : Option (Bool × List Digit)) : ℚ :=
  ofDigits (whole ++ fraction) / 10 ^ fraction.length * 10 ^ powerOf exponent

/-- A literal is in range if it stays under the limit and its exponent can be read. -/
theorem exists_magnitude? {whole fraction : List Digit} {exponent : Option (Bool × List Digit)}
    (hsafe : literalValue whole fraction exponent ≤ safeLimit)
    (hexponent : ∀ ds, exponent = some (false, ds) → ofDigits ds < exponentLimit) :
    ∃ a, magnitude? whole fraction exponent = some a := by
  obtain ⟨hlimit, hle⟩ := significand_le whole fraction
  have hscale (e : ℤ) (he : e = powerOf exponent) :
      ∃ a, scale (takeFraction (takeWhole 0 whole).1 fraction).1
        (((takeWhole 0 whole).2 : ℤ) - (takeFraction (takeWhole 0 whole).1 fraction).2 + e) = some a := by
    apply exists_scale hlimit
    rw [zpow_add₀ (by norm_num), ← mul_assoc, he]
    apply le_trans _ hsafe
    unfold literalValue
    gcongr
  simp only [magnitude?]
  cases exponent with
  | none =>
    obtain ⟨a, ha⟩ := hscale 0 rfl
    rw [add_zero] at ha
    exact ⟨a, ha⟩
  | some exponent =>
    obtain ⟨negative, ds⟩ := exponent
    simp only
    split
    · cases negative with
      | false => exact hscale _ rfl
      | true => exact hscale _ rfl
    · rename_i hlarge
      cases negative with
      | false => exact absurd (hexponent ds rfl) hlarge
      | true => exact ⟨zero, by simp⟩

theorem isCanonical_div {a b c : Magnitude} (hb : 2 ≤ b.value) (h : a.div b = some c) : c.IsCanonical :=
  isCanonical_of_round (Nat.mul_pos (denominator_pos a) (numerator_pos hb)) h

theorem isCanonical_scale {significand : ℕ} {exponent : ℤ} {a : Magnitude}
    (h : scale significand exponent = some a) : a.IsCanonical := by
  obtain ⟨b, hb, h⟩ := Option.bind_eq_some_iff.mp h
  split at h
  · split at h
    · obtain rfl := Option.some.inj h
      exact isCanonical_of_round one_pos hb
    · split at h
      · exact isCanonical_of_round (Nat.mul_pos (denominator_pos _) (denominator_pos _)) h
      · cases h
  · apply isCanonical_div (two_le_powerOfTen _ _) h
    · simp only [greatestPower]
      omega
    · simp only [greatestPower]
      omega

theorem isCanonical_magnitude? {whole fraction : List Digit} {exponent : Option (Bool × List Digit)}
    {a : Magnitude} (h : magnitude? whole fraction exponent = some a) : a.IsCanonical := by
  simp only [magnitude?] at h
  split at h
  · exact isCanonical_scale h
  · split at h
    · exact isCanonical_scale h
    · split at h
      · obtain rfl := Option.some.inj h
        exact isCanonical_zero
      · cases h

end SpawnGate.Decimal
