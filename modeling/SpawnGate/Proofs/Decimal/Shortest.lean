import SpawnGate.Decimal.Shortest
import SpawnGate.Proofs.Decimal.Scaling

/-!
The decimal that is written for a magnitude lies in the interval that rounds to the magnitude. So it is at most half
a unit above it, and in range when it is read.
-/

namespace SpawnGate.Decimal

def Scientific.toRat (s : Scientific) : ℚ :=
  s.value * 10 ^ s.power

theorem ten_zpow_eq (e : ℤ) : (10 : ℚ) ^ e = 10 ^ e.toNat / 10 ^ (-e).toNat := by
  obtain ⟨n, rfl | rfl⟩ := e.eq_nat_or_neg
  · simp
  · simp

/-- Whether a real, in quarters of the last place, lies in the interval. -/
def Interval.Has (i : Interval) (x : ℚ) : Prop :=
  if i.closed then i.low ≤ x ∧ x ≤ i.high else i.low < x ∧ x < i.high

theorem Interval.Has.le {i : Interval} {x : ℚ} (h : i.Has x) : i.low ≤ x ∧ x ≤ i.high := by
  unfold Has at h
  split at h
  · exact h
  · exact ⟨h.1.le, h.2.le⟩

theorem Interval.has_of_contains {i : Interval} {unit x : ℕ} (hunit : 0 < unit) (h : i.contains unit x = true) :
    i.Has (x / unit) := by
  have hunit' : (0 : ℚ) < unit := by exact_mod_cast hunit
  unfold contains at h
  unfold Has
  split at h
  · rename_i hclosed
    obtain ⟨hlow, hhigh⟩ := of_decide_eq_true h
    rw [if_pos hclosed, le_div_iff₀ hunit', div_le_iff₀ hunit']
    exact ⟨by exact_mod_cast hlow, by exact_mod_cast hhigh⟩
  · rename_i hopen
    obtain ⟨hlow, hhigh⟩ := of_decide_eq_true h
    rw [if_neg hopen, lt_div_iff₀ hunit', div_lt_iff₀ hunit']
    exact ⟨by exact_mod_cast hlow, by exact_mod_cast hhigh⟩

namespace Magnitude

theorem step_div_unit (exponent power : ℤ) :
    ((2 ^ (2 - exponent).toNat * 10 ^ power.toNat : ℕ) : ℚ) / (2 ^ (exponent - 2).toNat * 10 ^ (-power).toNat : ℕ) =
      10 ^ power / 2 ^ (exponent - 2) := by
  rw [ten_zpow_eq, two_zpow_eq, neg_sub]
  push_cast
  field_simp

theorem onGrid_has (a : Magnitude) {power : ℤ} {c : ℕ} (h : a.onGrid power = some c) :
    a.interval.Has ((Scientific.mk c power).toRat / 2 ^ (a.exponent - 2)) := by
  set unit := 2 ^ (a.exponent - 2).toNat * 10 ^ (-power).toNat with hunit
  set step := 2 ^ (2 - a.exponent).toNat * 10 ^ power.toNat with hstep
  have hcontains : a.interval.contains unit (c * step) = true := by
    simp only [onGrid, Nat.pow_eq, ← hunit, ← hstep] at h
    split at h
    · rename_i hbelow habove
      obtain rfl := Option.some.inj h
      split
      · exact hbelow
      · exact habove
    · rename_i hbelow _
      obtain rfl := Option.some.inj h
      exact hbelow
    · rename_i _ habove
      obtain rfl := Option.some.inj h
      exact habove
    · cases h
  have hhas := Interval.has_of_contains (by positivity) hcontains
  have hratio : ((c * step : ℕ) : ℚ) / unit = (Scientific.mk c power).toRat / 2 ^ (a.exponent - 2) := by
    rw [Nat.cast_mul, mul_div_assoc, step_div_unit, Scientific.toRat, mul_div_assoc]
  rw [hratio] at hhas
  exact hhas

/-- On a grid that is finer than a quarter of the last place there is a hit. -/
theorem exists_onGrid {a : Magnitude} (ha : 0 < a.mantissa) {power : ℤ}
    (hpower : (10 : ℚ) ^ power ≤ 2 ^ (a.exponent - 2)) : ∃ c, a.onGrid power = some c := by
  set unit := 2 ^ (a.exponent - 2).toNat * 10 ^ (-power).toNat with hunit
  set step := 2 ^ (2 - a.exponent).toNat * 10 ^ power.toNat with hstep
  have hstep_le : step ≤ unit := by
    have hquarter : (0 : ℚ) < 2 ^ (a.exponent - 2) := by positivity
    have hunit_pos : (0 : ℚ) < unit := by
      rw [hunit]
      positivity
    have hle := (div_le_one hquarter).mpr hpower
    rw [← step_div_unit, div_le_one hunit_pos] at hle
    exact_mod_cast hle
  have hstep_pos : 0 < step := by positivity
  have hfloor := Nat.div_add_mod (4 * a.mantissa * unit) step
  have hmod := Nat.mod_lt (4 * a.mantissa * unit) hstep_pos
  -- the multiple just below the magnitude is less than a step, so less than a unit, away
  have hbelow : a.interval.contains unit (4 * a.mantissa * unit / step * step) = true := by
    have hlow : a.interval.low * unit + unit ≤ 4 * a.mantissa * unit := by
      have hle : a.interval.low + 1 ≤ 4 * a.mantissa := by
        simp only [interval]
        split <;> omega
      calc a.interval.low * unit + unit = (a.interval.low + 1) * unit := by ring
        _ ≤ 4 * a.mantissa * unit := Nat.mul_le_mul_right unit hle
    have hhigh : 4 * a.mantissa * unit + 2 * unit = a.interval.high * unit := by
      simp only [interval]
      ring
    rw [mul_comm step] at hfloor
    unfold Interval.contains
    split
    · exact decide_eq_true ⟨by omega, by omega⟩
    · exact decide_eq_true ⟨by omega, by omega⟩
  simp only [onGrid, Nat.pow_eq, ← hunit, ← hstep]
  have hmiddle : a.interval.middle = 4 * a.mantissa := rfl
  rw [hmiddle, hbelow]
  split
  · exact ⟨_, rfl⟩
  · exact ⟨_, rfl⟩
  · rename_i hfalse _
    cases hfalse
  · rename_i hfalse _
    cases hfalse

theorem descend_has (a : Magnitude) {n : ℕ} {power : ℤ} {s : Scientific} (h : a.descend n power = some s) :
    a.interval.Has (s.toRat / 2 ^ (a.exponent - 2)) := by
  induction n generalizing power with
  | zero => cases h
  | succ n ih =>
    rw [descend] at h
    split at h
    · rename_i c hc
      obtain rfl := Option.some.inj h
      exact onGrid_has a hc
    · exact ih h

theorem exists_descend {a : Magnitude} {n k : ℕ} {power : ℤ} (hk : k < n)
    (h : ∃ c, a.onGrid (power - k) = some c) : ∃ s, a.descend n power = some s := by
  induction n generalizing k power with
  | zero => exact absurd hk (Nat.not_lt_zero k)
  | succ n ih =>
    rw [descend]
    split
    · exact ⟨_, rfl⟩
    · rename_i hnone
      cases k with
      | zero =>
        obtain ⟨c, hc⟩ := h
        rw [Nat.cast_zero, sub_zero, hnone] at hc
        cases hc
      | succ k =>
        apply ih (Nat.lt_of_succ_lt_succ hk)
        rw [sub_sub, ← Nat.cast_one, ← Nat.cast_add, Nat.add_comm 1 k]
        exact h

/-- Ten is a little less than the power of two with exponent `10 / 3`, and more than the one with `33 / 10`. -/
theorem ten_zpow_le_two_zpow {p k : ℤ} (hpos : 0 ≤ p → 10 * p ≤ 3 * k) (hneg : p < 0 → 33 * p ≤ 10 * k) :
    (10 : ℚ) ^ p ≤ 2 ^ k := by
  rcases le_or_gt 0 p with hp | hp
  · apply le_of_pow_le_pow_left₀ (by decide : (3 : ℕ) ≠ 0) (by positivity)
    calc ((10 : ℚ) ^ p) ^ 3 = (10 ^ 3) ^ p := by rw [← zpow_natCast, ← zpow_natCast, zpow_comm]
      _ ≤ (2 ^ 10) ^ p := zpow_le_zpow_left₀ hp (by norm_num) (by norm_num)
      _ = 2 ^ (10 * p) := by rw [zpow_mul]; norm_cast
      _ ≤ 2 ^ (3 * k) := zpow_le_zpow_right₀ one_le_two (hpos hp)
      _ = (2 ^ k) ^ 3 := by rw [mul_comm, zpow_mul]; norm_cast
  · obtain ⟨q, rfl⟩ : ∃ q : ℕ, p = -q := ⟨(-p).toNat, by omega⟩
    apply le_of_pow_le_pow_left₀ (by decide : (10 : ℕ) ≠ 0) (by positivity)
    calc ((10 : ℚ) ^ (-(q : ℤ))) ^ 10 = ((10 ^ 10) ^ q)⁻¹ := by
          rw [zpow_neg, zpow_natCast, inv_pow, ← pow_mul, ← pow_mul, mul_comm]
      _ ≤ ((2 ^ 33) ^ q)⁻¹ := inv_anti₀ (by positivity) (pow_le_pow_left₀ (by norm_num) (by norm_num) q)
      _ = 2 ^ (33 * -(q : ℤ)) := by
          rw [mul_neg, zpow_neg, zpow_mul]
          norm_cast
      _ ≤ 2 ^ (10 * k) := zpow_le_zpow_right₀ one_le_two (hneg hp)
      _ = (2 ^ k) ^ 10 := by rw [mul_comm, zpow_mul]; norm_cast

/-- A grid fine enough for a hit is among those that are tried. -/
theorem exists_descend_topPower {a : Magnitude} (ha : a.InRange) (hpos : 0 < a.mantissa) :
    ∃ s, a.descend 24 a.topPower = some s := by
  obtain ⟨hmantissa, hleast, hgreatest⟩ := ha
  have hlog : a.mantissa.log2 < 53 := (Nat.log2_lt hpos.ne').mpr hmantissa
  apply exists_descend (k := 23) (by decide)
  apply exists_onGrid hpos
  unfold leastExponent at hleast
  unfold greatestExponent at hgreatest
  unfold topPower
  apply ten_zpow_le_two_zpow
  · omega
  · omega

/-- What is written for a magnitude rounds to it. -/
theorem interval_shortest {a : Magnitude} (ha : a.InRange) (hpos : 0 < a.mantissa) :
    a.interval.Has (a.shortest.toRat / 2 ^ (a.exponent - 2)) := by
  obtain ⟨s, hs⟩ := exists_descend_topPower ha hpos
  have hzero : a.isZero = false := beq_false_of_ne hpos.ne'
  rw [shortest, hzero, hs]
  exact descend_has a hs

theorem shortest_le {a : Magnitude} (ha : a.InRange) :
    a.shortest.toRat ≤ (a.mantissa + 1 / 2) * 2 ^ a.exponent := by
  rcases Nat.eq_zero_or_pos a.mantissa with hzero | hpos
  · have hshortest : a.shortest = ⟨0, 0⟩ := by
      rw [shortest, isZero, hzero]
      rfl
    simp only [hshortest, Scientific.toRat, Nat.cast_zero, zero_mul]
    positivity
  · have hhigh := (interval_shortest ha hpos).le.2
    rw [div_le_iff₀ (by positivity), zpow_sub₀ two_ne_zero] at hhigh
    simp only [interval] at hhigh
    push_cast at hhigh
    linarith

/-- Apart from the two greatest magnitudes, what is written stays under the limit. -/
theorem shortest_le_safeLimit {a : Magnitude} (ha : a.InRange)
    (htop : a.exponent = greatestExponent → a.mantissa ≤ 2 ^ 53 - 3) : a.shortest.toRat ≤ safeLimit := by
  apply (shortest_le ha).trans
  obtain ⟨hmantissa, -, hexponent⟩ := ha
  have hsafe : safeLimit = (2 ^ 53 - 5 / 2) * 2 ^ greatestExponent := by
    have hunit : (2 : ℚ) ^ greatestExponent = 2 ^ 970 * 2 := by
      rw [← pow_succ, ← zpow_natCast]
      rfl
    rw [hunit, safeLimit]
    generalize (2 : ℚ) ^ 970 = c
    ring
  rw [hsafe]
  rcases hexponent.eq_or_lt with he | he
  · have hmantissa' : (a.mantissa : ℚ) ≤ 2 ^ 53 - 3 := by
      have hle := htop he
      have hcast : ((2 ^ 53 - 3 : ℕ) : ℚ) = 2 ^ 53 - 3 := by norm_num
      rw [← hcast]
      exact_mod_cast hle
    rw [he]
    gcongr
    linarith
  · have hmantissa' : (a.mantissa : ℚ) + 1 ≤ 2 ^ 53 := by exact_mod_cast hmantissa
    have hpow : (2 : ℚ) ^ a.exponent ≤ 2 ^ (greatestExponent - 1) :=
      zpow_le_zpow_right₀ one_le_two (by omega)
    calc (a.mantissa + 1 / 2 : ℚ) * 2 ^ a.exponent ≤ 2 ^ 53 * 2 ^ (greatestExponent - 1) := by
          gcongr
          linarith
      _ = 2 ^ 52 * 2 ^ greatestExponent := by
          rw [zpow_sub_one₀ two_ne_zero]
          ring
      _ ≤ (2 ^ 53 - 5 / 2) * 2 ^ greatestExponent := by
          gcongr
          norm_num

end Magnitude

end SpawnGate.Decimal
