import Mathlib.Algebra.Order.Field.Power
import Mathlib.Data.Rat.Lemmas
import Mathlib.Tactic.FieldSimp
import Mathlib.Tactic.Linarith
import Mathlib.Tactic.Positivity
import Mathlib.Tactic.Ring
import SpawnGate.Decimal.Binary64

/-!
How far a rounded magnitude can be from the quotient that it stands for, and where there is none.
-/

namespace SpawnGate.Decimal.Magnitude

def value (a : Magnitude) : ℚ :=
  a.mantissa * 2 ^ a.exponent

/-- A magnitude of the format. -/
def InRange (a : Magnitude) : Prop :=
  a.mantissa < 2 ^ 53 ∧ leastExponent ≤ a.exponent ∧ a.exponent ≤ greatestExponent

/-- A magnitude as rounding yields it, the only one of its value. -/
structure IsCanonical (a : Magnitude) : Prop where
  inRange : a.InRange
  normal : leastExponent < a.exponent → 2 ^ 52 ≤ a.mantissa

theorem isCanonical_zero : zero.IsCanonical :=
  ⟨⟨by decide, by decide, by decide⟩, fun h => absurd h (lt_irrefl _)⟩

theorem two_zpow_eq (e : ℤ) : (2 : ℚ) ^ e = 2 ^ e.toNat / 2 ^ (-e).toNat := by
  obtain ⟨n, rfl | rfl⟩ := e.eq_nat_or_neg
  · simp
  · simp

theorem value_eq (a : Magnitude) : a.value = a.numerator / a.denominator := by
  rw [value, two_zpow_eq, numerator, denominator, Nat.pow_eq, Nat.pow_eq]
  push_cast
  ring

/-- The quotient that a product is rounded from. -/
theorem quotient_mul (a b : Magnitude) :
    ((a.numerator * b.numerator : ℕ) : ℚ) / (a.denominator * b.denominator : ℕ) = a.value * b.value := by
  rw [value_eq, value_eq, div_mul_div_comm]
  push_cast
  rfl

theorem quotient_div (a b : Magnitude) :
    ((a.numerator * b.denominator : ℕ) : ℚ) / (a.denominator * b.numerator : ℕ) = a.value / b.value := by
  rw [value_eq, value_eq, div_div_div_eq]
  push_cast
  rfl

theorem value_nonneg (a : Magnitude) : 0 ≤ a.value := by
  unfold value
  positivity

theorem denominator_pos (a : Magnitude) : 0 < a.denominator := by
  rw [denominator, Nat.pow_eq]
  positivity

/-- A quotient on the scale of a power of two. -/
theorem scaled_eq (num den : ℕ) (e : ℤ) :
    ((num * 2 ^ (-e).toNat : ℕ) : ℚ) / (den * 2 ^ e.toNat : ℕ) = num / den / 2 ^ e := by
  rw [two_zpow_eq]
  push_cast
  field_simp

theorem leadingExponent_bounds {num den : ℕ} (hnum : 0 < num) (hden : 0 < den) :
    (2 : ℚ) ^ leadingExponent num den ≤ num / den ∧ (num / den : ℚ) < 2 ^ (leadingExponent num den + 1) := by
  have hden' : (0 : ℚ) < den := by exact_mod_cast hden
  have hnumlow : (2 : ℚ) ^ num.log2 ≤ num := by exact_mod_cast Nat.log2_self_le hnum.ne'
  have hnumhigh : (num : ℚ) < 2 ^ (num.log2 + 1) := by exact_mod_cast Nat.lt_log2_self
  have hdenlow : (2 : ℚ) ^ den.log2 ≤ den := by exact_mod_cast Nat.log2_self_le hden.ne'
  have hdenhigh : (den : ℚ) < 2 ^ (den.log2 + 1) := by exact_mod_cast Nat.lt_log2_self
  have hratio : (2 : ℚ) ^ ((num.log2 : ℤ) - den.log2) = 2 ^ num.log2 / 2 ^ den.log2 := by
    rw [zpow_sub₀ two_ne_zero, zpow_natCast, zpow_natCast]
  have hhigh : (num / den : ℚ) < 2 ^ ((num.log2 : ℤ) - den.log2 + 1) := by
    rw [zpow_add_one₀ two_ne_zero, hratio, div_mul_eq_mul_div, ← pow_succ]
    gcongr
  have hlow : (2 : ℚ) ^ ((num.log2 : ℤ) - den.log2 - 1) ≤ num / den := by
    rw [zpow_sub_one₀ two_ne_zero, hratio, ← div_eq_mul_inv, div_div, ← pow_succ]
    gcongr
  simp only [leadingExponent, Nat.pow_eq]
  split
  · rename_i hle
    refine ⟨?_, hhigh⟩
    have hle' : ((den * 2 ^ ((num.log2 : ℤ) - den.log2).toNat : ℕ) : ℚ) ≤
        (num * 2 ^ (-((num.log2 : ℤ) - den.log2)).toNat : ℕ) := by exact_mod_cast hle
    rw [two_zpow_eq]
    push_cast at hle'
    rw [div_le_div_iff₀ (by positivity) hden']
    linarith
  · rename_i hlt
    refine ⟨hlow, ?_⟩
    have hlt' : ((num * 2 ^ (-((num.log2 : ℤ) - den.log2)).toNat : ℕ) : ℚ) <
        (den * 2 ^ ((num.log2 : ℤ) - den.log2).toNat : ℕ) := by exact_mod_cast not_le.mp hlt
    rw [sub_add_cancel, two_zpow_eq]
    push_cast at hlt'
    rw [div_lt_div_iff₀ hden' (by positivity)]
    linarith

theorem nearest_bounds (num : ℕ) {den : ℕ} (hden : 0 < den) :
    2 * (den * nearest num den) ≤ 2 * num + den ∧ 2 * num ≤ 2 * (den * nearest num den) + den ∧
      den * nearest num den ≤ 2 * num := by
  have hdivmod := Nat.div_add_mod num den
  have hmod := Nat.mod_lt num hden
  simp only [nearest]
  split
  · rw [Nat.mul_add]
    omega
  · omega

/-- The whole number `m` of units `2 ^ e` is nearest to `v`, and the unit is as small as it can be. -/
structure Nearest (v : ℚ) (m : ℕ) (e : ℤ) : Prop where
  least : leastExponent ≤ e
  mantissa_le : m ≤ 2 ^ 53
  normal : leastExponent < e → 2 ^ 52 * 2 ^ e ≤ v
  le_add : m * 2 ^ e ≤ v + 2 ^ e / 2
  ge_sub : v ≤ m * 2 ^ e + 2 ^ e / 2
  le_double : m * 2 ^ e ≤ 2 * v

/-- A mantissa that does not fit is halved. -/
def carried (m : ℕ) (e : ℤ) : Magnitude :=
  if m = 2 ^ 53 then ⟨2 ^ 52, e + 1⟩ else ⟨m, e⟩

theorem value_carried (m : ℕ) (e : ℤ) : (carried m e).value = m * 2 ^ e := by
  unfold carried
  split
  · rename_i hm
    rw [value, hm, zpow_add_one₀ two_ne_zero]
    push_cast
    ring
  · rfl

theorem exists_nearest {num den : ℕ} (hnum : 0 < num) (hden : 0 < den) :
    ∃ m e, Nearest (num / den) m e ∧
      round num den = if (carried m e).exponent ≤ greatestExponent then some (carried m e) else none := by
  obtain ⟨hlow, hhigh⟩ := leadingExponent_bounds hnum hden
  set e := max (leadingExponent num den - 52) leastExponent with he
  set d := den * 2 ^ e.toNat with hd
  set n := num * 2 ^ (-e).toNat with hn
  have hdpos : 0 < d := by positivity
  have hunit : (0 : ℚ) < 2 ^ e := by positivity
  have hscaled : (n : ℚ) / d = num / den / 2 ^ e := scaled_eq num den e
  have hv : (num / den : ℚ) * d = n * 2 ^ e := by
    rw [eq_div_iff hunit.ne'] at hscaled
    rw [← hscaled]
    field_simp
  have hdpos' : (0 : ℚ) < d := by exact_mod_cast hdpos
  obtain ⟨habove, hbelow, hdouble⟩ := nearest_bounds n hdpos
  have habove' : (2 : ℚ) * (d * nearest n d) ≤ 2 * n + d := by exact_mod_cast habove
  have hbelow' : (2 : ℚ) * n ≤ 2 * (d * nearest n d) + d := by exact_mod_cast hbelow
  have hdouble' : (d : ℚ) * nearest n d ≤ 2 * n := by exact_mod_cast hdouble
  refine ⟨nearest n d, e, ⟨le_max_right _ _, ?_, fun hlt => ?_, ?_, ?_, ?_⟩, ?_⟩
  · have hsmall : (n : ℚ) < 2 ^ 53 * d := by
      have hpow : (2 : ℚ) ^ (leadingExponent num den + 1) ≤ 2 ^ 53 * 2 ^ e := by
        rw [← zpow_natCast, ← zpow_add₀ two_ne_zero]
        apply zpow_le_zpow_right₀ one_le_two
        push_cast
        omega
      have hn' : (n : ℚ) * 2 ^ e < 2 ^ 53 * d * 2 ^ e := by
        rw [← hv]
        nlinarith
      exact lt_of_mul_lt_mul_right hn' hunit.le
    have hsmall' : n < 2 ^ 53 * d := by exact_mod_cast hsmall
    by_contra hlarge
    have hmul : d * (2 ^ 53 + 1) ≤ d * nearest n d := Nat.mul_le_mul_left d (by omega)
    omega
  · have hlead : e = leadingExponent num den - 52 := by omega
    calc (2 : ℚ) ^ 52 * 2 ^ e = 2 ^ leadingExponent num den := by
          rw [← zpow_natCast, ← zpow_add₀ two_ne_zero, hlead]
          congr 1
          push_cast
          ring
      _ ≤ num / den := hlow
  · have hmul := mul_le_mul_of_nonneg_right habove' hunit.le
    apply le_of_mul_le_mul_right _ hdpos'
    linarith
  · have hmul := mul_le_mul_of_nonneg_right hbelow' hunit.le
    apply le_of_mul_le_mul_right _ hdpos'
    linarith
  · have hmul := mul_le_mul_of_nonneg_right hdouble' hunit.le
    apply le_of_mul_le_mul_right _ hdpos'
    linarith
  · rw [round, if_neg hnum.ne']
    rfl

/-- The least quotient that rounds to no magnitude. -/
def overflow : ℚ := (2 ^ 54 - 1) * 2 ^ 970

theorem isCanonical_of_round {num den : ℕ} (hden : 0 < den) {a : Magnitude} (h : round num den = some a) :
    a.IsCanonical := by
  rcases Nat.eq_zero_or_pos num with rfl | hnum
  · obtain rfl := Option.some.inj h
    exact isCanonical_zero
  · obtain ⟨m, e, hm, hround⟩ := exists_nearest hnum hden
    rw [hround] at h
    split at h
    · rename_i hgreatest
      obtain rfl := Option.some.inj h
      refine ⟨⟨?_, ?_, hgreatest⟩, fun hlt => ?_⟩
      · unfold carried
        split
        · exact (by decide : 2 ^ 52 < 2 ^ 53)
        · exact lt_of_le_of_ne hm.mantissa_le ‹_›
      · have hleast := hm.least
        unfold carried
        split
        · exact hleast.trans (by simp)
        · exact hleast
      · unfold carried at hlt ⊢
        split at hlt
        · rename_i hm53
          rw [if_pos hm53]
        · rename_i hm53
          rw [if_neg hm53]
          have hunit : (0 : ℚ) < 2 ^ e := by positivity
          have hlow : ((2 : ℚ) ^ 52 - 1 / 2) * 2 ^ e ≤ m * 2 ^ e := by
            have hnormal := hm.normal hlt
            have hsub := hm.ge_sub
            linarith
          have hm52 : (2 : ℚ) ^ 52 < m + 1 := by
            have hle := le_of_mul_le_mul_right hlow hunit
            linarith
          exact Nat.lt_succ_iff.mp (by exact_mod_cast hm52)
    · cases h

theorem value_le_of_round {num den : ℕ} (hden : 0 < den) {a : Magnitude} (h : round num den = some a) :
    a.value ≤ 2 * (num / den) := by
  rcases Nat.eq_zero_or_pos num with rfl | hnum
  · obtain rfl := Option.some.inj h
    simp [value, zero]
  · obtain ⟨m, e, hm, hround⟩ := exists_nearest hnum hden
    rw [hround] at h
    split at h
    · obtain rfl := Option.some.inj h
      rw [value_carried]
      exact hm.le_double
    · cases h

/-- A quotient of at least one changes by no more than one part in `2 ^ 53`. -/
theorem value_bounds_of_round {num den : ℕ} (hden : 0 < den) (hone : den ≤ num) {a : Magnitude}
    (h : round num den = some a) :
    (1 - 1 / 2 ^ 53) * (num / den) ≤ a.value ∧ a.value ≤ (1 + 1 / 2 ^ 53) * (num / den) := by
  have hone' : (1 : ℚ) ≤ num / den := by
    rw [one_le_div (by exact_mod_cast hden)]
    exact_mod_cast hone
  obtain ⟨m, e, hm, hround⟩ := exists_nearest (lt_of_lt_of_le hden hone) hden
  rw [hround] at h
  split at h
  · obtain rfl := Option.some.inj h
    have hnormal : (2 : ℚ) ^ 52 * 2 ^ e ≤ num / den := by
      rcases hm.least.eq_or_lt with he | he
      · calc (2 : ℚ) ^ 52 * 2 ^ e = 2 ^ (-1022 : ℤ) := by
              rw [← he, ← zpow_natCast, ← zpow_add₀ two_ne_zero]
              rfl
          _ ≤ 1 := zpow_le_one_of_nonpos₀ one_le_two (by decide)
          _ ≤ num / den := hone'
      · exact hm.normal he
    rw [value_carried]
    have hadd := hm.le_add
    have hsub := hm.ge_sub
    constructor <;> linarith
  · cases h

theorem overflow_le_of_round {num den : ℕ} (hden : 0 < den) (h : round num den = none) :
    overflow ≤ num / den := by
  rcases Nat.eq_zero_or_pos num with rfl | hnum
  · cases h
  · obtain ⟨m, e, hm, hround⟩ := exists_nearest hnum hden
    rw [hround] at h
    split at h
    · cases h
    · rename_i hgreatest
      rcases lt_or_ge greatestExponent e with he | he
      · have hpow : (2 : ℚ) ^ 970 * 2 ^ 2 ≤ 2 ^ e := by
          rw [← pow_add, ← zpow_natCast]
          apply zpow_le_zpow_right₀ one_le_two
          simp only [greatestExponent] at he
          omega
        have hnormal := hm.normal (lt_trans (by decide) he)
        calc overflow ≤ 2 ^ 54 * 2 ^ 970 := by
              unfold overflow
              gcongr
              linarith
          _ = 2 ^ 52 * (2 ^ 970 * 2 ^ 2) := by
              generalize (2 : ℚ) ^ 970 = c
              ring
          _ ≤ 2 ^ 52 * 2 ^ e := by gcongr
          _ ≤ num / den := hnormal
      · have hcarry : m = 2 ^ 53 ∧ e = greatestExponent := by
          unfold carried at hgreatest
          split at hgreatest
          · rename_i hm53
            exact ⟨hm53, by simp only [greatestExponent] at *; omega⟩
          · exact absurd he hgreatest
        obtain ⟨rfl, rfl⟩ := hcarry
        have hadd := hm.le_add
        have hunit : (2 : ℚ) ^ greatestExponent = 2 ^ 970 * 2 := by
          rw [← pow_succ, ← zpow_natCast]
          rfl
        rw [hunit] at hadd
        push_cast at hadd
        unfold overflow
        generalize (2 : ℚ) ^ 970 = c at hadd ⊢
        linarith

theorem round_ne_none {num den : ℕ} (hden : 0 < den) (h : (num / den : ℚ) < overflow) :
    ∃ a, round num den = some a := by
  cases hround : round num den with
  | none => exact absurd (overflow_le_of_round hden hround) (not_le.mpr h)
  | some a => exact ⟨a, rfl⟩

end SpawnGate.Decimal.Magnitude
