import SpawnGate.Proofs.Decimal.Exact
import SpawnGate.Proofs.Json.ReadBack

/-!
Which numbers stay the same when they are written and read. Integers do; a double does at least if its literal is
short, since then only one rounding is done on the way. In general several are, and the double may become another.
-/

namespace SpawnGate.Json

open Decimal

namespace Numeral

/-- Digits under `2 ^ 53`, and a power of ten that is a double itself. -/
structure IsShort (n : Numeral) : Prop where
  digits : ofDigits (n.whole ++ n.fraction) < 2 ^ 53
  power : (powerOf n.exponent - n.fraction.length).natAbs ≤ 22
  exponent : ∀ negative ds, n.exponent = some (negative, ds) → ofDigits ds < exponentLimit

theorem isWhole_ofScientific (l : Layout) (negative : Bool) (s : Scientific) :
    (ofScientific l negative s).isWhole = false := by
  have hzero : (digits 0).isEmpty = false := by rw [digits_zero]; rfl
  simp only [ofScientific]
  split
  · simp only [isWhole, hzero, Bool.false_and]
  · rename_i hvalue
    split
    · unfold plain
      dsimp only
      split
      · simp only [isWhole, hzero, Bool.false_and]
      · split
        · have hdrop : ((digits s.value).drop ((digits s.value).length + s.power).toNat).isEmpty = false := by
            rw [List.isEmpty_eq_false_iff, Ne, List.drop_eq_nil_iff]
            omega
          simp only [isWhole, hdrop, Bool.false_and]
        · have happend :
              (zeroDigits (-((digits s.value).length + s.power)).toNat ++ digits s.value).isEmpty = false := by
            rw [List.isEmpty_eq_false_iff]
            exact List.append_ne_nil_of_right_ne_nil _ (digits_ne_nil _)
          simp only [isWhole, happend, Bool.false_and]
    · simp only [withExponent, isWhole, Option.isNone_some, Bool.and_false]

theorem negative_ofScientific (l : Layout) (negative : Bool) (s : Scientific) :
    (ofScientific l negative s).negative = negative := by
  simp only [ofScientific]
  split
  · rfl
  · split
    · unfold plain
      dsimp only
      split
      · rfl
      · split
        · rfl
        · rfl
    · rfl

end Numeral

theorem literalValue_eq (whole fraction : List Digit) (exponent : Option (Bool × List Digit)) :
    literalValue whole fraction exponent =
      ofDigits (whole ++ fraction) * 10 ^ (powerOf exponent - fraction.length) := by
  rw [literalValue, zpow_sub₀ (by norm_num), zpow_natCast]
  ring

namespace Number

theorem isCanonical_of_ofNumeral? {n : Numeral} {x : Binary64} (h : ofNumeral? n = some (.double x)) :
    x.magnitude.IsCanonical := by
  simp only [ofNumeral?] at h
  split at h
  · cases h
  · split at h
    · cases h
    · obtain ⟨m, hm, hx⟩ := Option.map_eq_some_iff.mp h
      obtain rfl := Number.double.inj hx
      exact isCanonical_magnitude? hm

theorem magnitude?_numeral {x : Binary64} (hx : x.magnitude.IsCanonical) (h : (numeral (.double x)).IsShort) :
    magnitude? (numeral (.double x)).whole (numeral (.double x)).fraction (numeral (.double x)).exponent =
      some x.magnitude := by
  rcases Nat.eq_zero_or_pos x.magnitude.mantissa with hzero | hpos
  · have hmagnitude : x.magnitude = .zero := by
      have hexponent : x.magnitude.exponent = Magnitude.leastExponent := by
        rcases hx.inRange.2.1.eq_or_lt with he | he
        · exact he.symm
        · have hlarge := hx.normal he
          omega
      rw [Magnitude.zero, ← hzero, ← hexponent]
    rw [numeral, hmagnitude]
    generalize x.negative = negative
    revert negative
    decide +kernel
  · have hhas := Magnitude.interval_shortest hx.inRange hpos
    have hvalue := Numeral.literalValue_ofScientific doubles x.negative x.magnitude.shortest
    rw [literalValue_eq] at hvalue
    have hlimit : 2 ^ 53 ≤ significandLimit := by decide
    rw [magnitude?_eq_scale (h.digits.trans_le hlimit) h.exponent]
    apply scale_of_has hx hpos _ h.digits h.power
    · rw [numeral, hvalue]
      exact hhas
    · apply Nat.pos_of_ne_zero
      intro hnone
      rw [numeral] at hnone
      rw [hnone, Nat.cast_zero, zero_mul] at hvalue
      rw [← hvalue, zero_div] at hhas
      have hlow := (Magnitude.bounds_of_has hpos (v := 0) (by rw [zero_div]; exact hhas)).1
      have hone : (1 : ℚ) ≤ x.magnitude.mantissa := by exact_mod_cast hpos
      have hunit : (0 : ℚ) < 2 ^ x.magnitude.exponent := by positivity
      nlinarith

/-- A double with a short literal is read back from it. -/
theorem reread_double {x : Binary64} (hx : x.magnitude.IsCanonical) (h : (numeral (.double x)).IsShort) :
    (double x).reread = .double x := by
  apply reread_eq_self
  have hwhole : (numeral (.double x)).isWhole = false := Numeral.isWhole_ofScientific _ _ _
  have hnegative : (numeral (.double x)).negative = x.negative := Numeral.negative_ofScientific _ _ _
  simp only [ofNumeral?, hwhole, Bool.false_and, Bool.false_eq_true, if_false]
  rw [double?, magnitude?_numeral hx h, Option.map_some, hnegative]

theorem reread_of_ofNumeral? {l : Numeral} {n : Number} (h : ofNumeral? l = some n)
    (hkept : n.IsWord ∨ n.numeral.IsShort) : n.reread = n := by
  rcases hkept with hword | hshort
  · exact reread_eq_self hword.ofNumeral?_numeral
  · cases n with
    | integer n => exact reread_eq_self (ofNumeral?_integer (inRange_of_ofNumeral? h))
    | double x => exact reread_double (isCanonical_of_ofNumeral? h) hshort

end Number

theorem Value.allNumbers_reread_of_ofTree? {room : Nat} {t : Tree} {v : Value} (h : ofTree? room t = some v) :
    v.AllNumbers fun n => n.IsWord ∨ n.numeral.IsShort → n.reread = n := by
  apply ofTree?_induction
    (motive := fun _ v => v.AllNumbers fun n => n.IsWord ∨ n.numeral.IsShort → n.reread = n) _ _ _ _ _ _ h
  · intro _
    exact .null
  · intro _ b
    exact .boolean b
  · intro _ l n hn
    exact .number (Number.reread_of_ofNumeral? hn)
  · intro _ s
    exact .string s
  · intro _ values ih
    exact .array ih
  · intro _ named ih
    apply AllNumbers.object
    intro m hm
    exact ih m (Members.mem_of_mem_ofList hm)

end SpawnGate.Json
