import Mathlib.Data.Nat.Notation
import Mathlib.Tactic.Linarith
import Mathlib.Tactic.Ring
import SpawnGate.Decimal.Shortest

/-!
Digits as characters, and the digits of a natural: the first of a positive one is not zero, and zeros
before or after digits count as they should.
-/

namespace SpawnGate.Decimal

theorem Digit.toChar_of_ofChar? {c : Char} {d : Digit} (h : Digit.ofChar? c = some d) :
    d.toChar = c := by
  unfold Digit.ofChar? at h
  split at h
  · rename_i hc
    obtain rfl := Option.some.inj h
    have hvalue : 48 + (c.toNat - 48) = c.toNat := by omega
    simp only [Digit.toChar, hvalue, Char.ofNat_toNat]
  · cases h

theorem Digit.toChar_ne_sign (d : Digit) : d.toChar ≠ '-' ∧ d.toChar ≠ '+' := by
  revert d
  decide

/-- The value of a row of digits after a significand. -/
def appended (significand : ℕ) (ds : List Digit) : ℕ :=
  ds.foldl (fun n d => n * 10 + d.val) significand

theorem mul_pow_le_appended (n : ℕ) (ds : List Digit) : n * 10 ^ ds.length ≤ appended n ds := by
  induction ds generalizing n with
  | nil => simp [appended]
  | cons d ds ih =>
    calc n * 10 ^ (ds.length + 1) ≤ (n * 10 + d.val) * 10 ^ ds.length := by
          rw [pow_succ']
          nlinarith [Nat.zero_le (d.val * 10 ^ ds.length)]
      _ ≤ appended (n * 10 + d.val) ds := ih _

theorem le_appended (n : ℕ) (ds : List Digit) : n ≤ appended n ds :=
  (Nat.le_mul_of_pos_right n (Nat.pow_pos (by decide))).trans (mul_pow_le_appended n ds)

theorem digits_zero : digits 0 = [0] := by
  rw [digits, digitsBefore]
  rfl

theorem digitsBefore_eq_cons {n : ℕ} (hn : 0 < n) (after : List Digit) :
    ∃ d r, digitsBefore n after = d :: r ∧ d ≠ 0 := by
  fun_induction digitsBefore n after with
  | case1 n after hlt =>
    refine ⟨Fin.ofNat 10 n, after, rfl, fun hzero => ?_⟩
    have hval : n % 10 = 0 := congrArg Fin.val hzero
    omega
  | case2 n after hge ih => exact ih (by omega)

theorem digits_eq_cons {n : ℕ} (hn : 0 < n) : ∃ d r, digits n = d :: r ∧ d ≠ 0 :=
  digitsBefore_eq_cons hn []

theorem digits_ne_nil (n : ℕ) : digits n ≠ [] := by
  rcases Nat.eq_zero_or_pos n with rfl | hn
  · rw [digits_zero]
    exact List.cons_ne_nil 0 []
  · obtain ⟨d, r, h, -⟩ := digits_eq_cons hn
    rw [h]
    exact List.cons_ne_nil d r

theorem pow_length_digits_le {n : ℕ} (hn : 0 < n) : 10 ^ ((digits n).length - 1) ≤ n := by
  obtain ⟨d, r, h, hd⟩ := digits_eq_cons hn
  have hpos : 1 ≤ d.val := Nat.pos_of_ne_zero fun hz => hd (Fin.ext hz)
  have hvalue : appended d.val r = n := by
    have hdigits := ofDigits_digits n
    rw [h] at hdigits
    simpa [ofDigits, appended] using hdigits
  calc 10 ^ ((digits n).length - 1) = 1 * 10 ^ r.length := by
        rw [h, List.length_cons, Nat.add_sub_cancel, one_mul]
    _ ≤ d.val * 10 ^ r.length := Nat.mul_le_mul_right _ hpos
    _ ≤ n := hvalue ▸ mul_pow_le_appended d.val r

def zeroDigits : ℕ → List Digit
  | 0 => []
  | n + 1 => digits 0 ++ zeroDigits n

theorem zeroDigits_eq (n : ℕ) : zeroDigits n = List.replicate n 0 := by
  induction n with
  | zero => rfl
  | succ n ih => rw [zeroDigits, digits_zero, ih, List.singleton_append, List.replicate_succ]

theorem ofDigits_append_zeros (ds : List Digit) (k : ℕ) :
    ofDigits (ds ++ List.replicate k 0) = ofDigits ds * 10 ^ k := by
  induction k with
  | zero => simp
  | succ k ih =>
    rw [List.replicate_succ', ← List.append_assoc, ofDigits_append, ih, pow_succ, ← mul_assoc]
    rfl

theorem ofDigits_zeros_append (k : ℕ) (ds : List Digit) :
    ofDigits (List.replicate k 0 ++ ds) = ofDigits ds := by
  induction k with
  | zero => rfl
  | succ k ih => exact ih

theorem text_append (as bs : List Digit) : text (as ++ bs) = text as ++ text bs :=
  List.map_append

theorem text_zeros (k : ℕ) : text (List.replicate k 0) = zeros k :=
  List.map_replicate

end SpawnGate.Decimal
