import Mathlib.Data.List.Induction
import SpawnGate.Proofs.Calendar.Reading

/-!
Every text that is read as an instant is one of the calendar: the fields of the text, its fraction and its offset are
bounded, and so is the second of the day after the offset is taken away.
-/

namespace SpawnGate.Calendar

open Decimal

namespace Instant

namespace Reader

variable {α β : Type}

/-- Whatever the reader finds has the property. -/
def Yields (r : Reader α) (P : α → Prop) : Prop :=
  ∀ cs x rest, Reads r cs x rest → P x

theorem yields_trivial (r : Reader α) : Yields r fun _ => True :=
  fun _ _ _ _ => trivial

theorem yields_pure {P : α → Prop} {x : α} (h : P x) : Yields (pure x) P := by
  intro cs y rest hread
  obtain ⟨rfl, -⟩ := Prod.mk.inj (Option.some.inj hread)
  exact h

theorem yields_failure (P : α → Prop) : Yields failure P := by
  intro cs x rest hread
  cases hread

theorem Yields.bind {r : Reader α} {f : α → Reader β} {P : α → Prop} {Q : β → Prop} (hr : Yields r P)
    (hf : ∀ x, P x → Yields (f x) Q) : Yields (r >>= f) Q := by
  intro cs y rest hread
  unfold Reads at hread
  rw [StateT.run_bind, Option.bind_eq_bind, Option.bind_eq_some_iff] at hread
  obtain ⟨⟨x, mid⟩, hx, hy⟩ := hread
  exact hf x (hr cs x mid hx) mid y rest hy

theorem Yields.after {r : Reader α} {f : α → Reader β} {Q : β → Prop} (hf : ∀ x, Yields (f x) Q) :
    Yields (r >>= f) Q :=
  (yields_trivial r).bind fun x _ => hf x

theorem yields_ite {c : Prop} [Decidable c] {r r' : Reader α} {P : α → Prop} (h : c → Yields r P)
    (h' : ¬ c → Yields r' P) : Yields (if c then r else r') P := by
  split
  · exact h ‹_›
  · exact h' ‹_›

theorem yields_unless {c : Prop} [Decidable c] {k : Unit → Reader β} {Q : β → Prop} (h : ¬ c → Yields (k ()) Q) :
    Yields (if c then failure >>= k else k ()) Q := by
  apply yields_ite
  · intro _
    exact (yields_failure fun _ => False).bind fun _ => False.elim
  · exact h

theorem length_leadingUpTo_le (width : Nat) (cs : List Char) : (leadingUpTo width cs).1.length ≤ width := by
  induction width generalizing cs with
  | zero => exact Nat.zero_le 0
  | succ width ih =>
    cases cs with
    | nil => exact Nat.zero_le _
    | cons c cs =>
      rw [leadingUpTo]
      split
      · exact Nat.succ_le_succ (ih cs)
      · exact Nat.zero_le _

theorem yields_digitsUpTo (width : Nat) : Yields (digitsUpTo width) fun ds => ds.length ≤ width := by
  apply Yields.after
  intro cs
  apply yields_unless
  intro _
  apply Yields.after
  intro _
  exact yields_pure (length_leadingUpTo_le width cs)

theorem ofDigits_lt (ds : List Digit) : ofDigits ds < 10 ^ ds.length := by
  induction ds using List.reverseRecOn with
  | nil => exact Nat.one_pos
  | append_singleton ds d ih =>
    rw [ofDigits_append, List.length_append, List.length_singleton, pow_succ]
    simp only [List.foldl_cons, List.foldl_nil]
    omega

theorem yields_fraction : Yields fraction fun nano => nano < billion := by
  apply Yields.after
  intro cs
  split
  · apply Yields.after
    intro _
    refine (yields_digitsUpTo 9).bind fun ds hds => ?_
    apply Yields.after
    intro _
    apply yields_pure
    calc ofDigits ds * Nat.pow 10 (9 - ds.length)
        < 10 ^ ds.length * 10 ^ (9 - ds.length) := by
          apply Nat.mul_lt_mul_of_pos_right (ofDigits_lt ds)
          exact Nat.pow_pos (by decide)
      _ = billion := by
          rw [← pow_add, Nat.add_sub_cancel' hds]
          rfl
  · exact yields_pure (by decide)

theorem yields_offset : Yields offset fun seconds => -86400 < seconds ∧ seconds < 86400 ∧ seconds % 60 = 0 := by
  have hzero : Yields (pure 0) fun seconds : Int => -86400 < seconds ∧ seconds < 86400 ∧ seconds % 60 = 0 :=
    yields_pure (by decide)
  have hsigned : Yields (do
      let sign ← next
      if sign = 'z' ∨ sign = 'Z' then return 0
      if sign ≠ '+' ∧ sign ≠ '-' ∧ sign ≠ '\u2212' then failure
      let hours ← pair
      modify (·.dropWhile fun c => c = ':' || Text.isBlank c)
      let minutes ← pair
      if 59 < minutes ∨ 23 < hours then failure
      let seconds : Int := hours * 3600 + minutes * 60
      return if sign = '+' then seconds else -seconds)
      fun seconds : Int => -86400 < seconds ∧ seconds < 86400 ∧ seconds % 60 = 0 := by
    apply Yields.after
    intro sign
    apply yields_ite
    · intro _
      exact hzero
    intro _
    apply yields_unless
    intro _
    apply Yields.after
    intro hours
    apply Yields.after
    intro _
    apply Yields.after
    intro minutes
    apply yields_unless
    intro hbounds
    apply yields_pure
    split <;> omega
  apply Yields.after
  intro cs
  split
  · apply yields_ite
    · intro _
      apply Yields.after
      intro _
      exact hzero
    · intro _
      exact hsigned
  · exact hsigned

end Reader

theorem second_ofLocal (date : Date) {second : Nat} (nano : Nat) {offset : Int} (hsecond : second < secondsPerDay)
    (hoffset : -86400 < offset ∧ offset < 86400 ∧ offset % 60 = 0) :
    (ofLocal date second nano offset).second < secondsPerDay ∧
      (ofLocal date second nano offset).second % 60 = second % 60 := by
  unfold secondsPerDay at hsecond
  unfold ofLocal secondsPerDay
  dsimp only
  split
  · dsimp only
    omega
  · split
    · dsimp only
      omega
    · dsimp only
      omega

theorem nano_ofLocal (date : Date) (second nano : Nat) (offset : Int) :
    (ofLocal date second nano offset).nano = nano := by
  unfold ofLocal
  dsimp only
  split
  · rfl
  · split
    · rfl
    · rfl

/-- The second of a minute that is counted as its sixtieth is kept as the one before it. -/
theorem isValid_ofLocal {date : Date} {hour minute second nano : Nat} {offset : Int}
    (hfields : hour ≤ 23 ∧ minute ≤ 59 ∧ second ≤ 60) (hnano : nano < billion)
    (hoffset : -86400 < offset ∧ offset < 86400 ∧ offset % 60 = 0)
    (hdate : (ofLocal date (hour * 3600 + minute * 60 + (second - second / 60)) (nano + second / 60 * billion)
      offset).date.IsValid) :
    (ofLocal date (hour * 3600 + minute * 60 + (second - second / 60)) (nano + second / 60 * billion)
      offset).IsValid := by
  have hlocal : hour * 3600 + minute * 60 + (second - second / 60) < secondsPerDay := by
    unfold secondsPerDay
    omega
  obtain ⟨hday, hminute⟩ := second_ofLocal date (nano + second / 60 * billion) hlocal hoffset
  refine ⟨hdate, hday, ?_⟩
  rw [hminute, nano_ofLocal]
  unfold billion at hnano ⊢
  omega

open Reader in
theorem yields_reader : Yields reader IsValid := by
  apply Yields.after
  intro year
  apply Yields.after
  intro _
  apply Yields.after
  intro month
  apply Yields.after
  intro _
  apply Yields.after
  intro day
  apply Yields.after
  intro _
  apply Yields.after
  intro hour
  apply Yields.after
  intro _
  apply Yields.after
  intro minute
  apply Yields.after
  intro _
  apply Yields.after
  intro second
  refine yields_fraction.bind fun nano hnano => ?_
  apply Yields.after
  intro _
  refine yields_offset.bind fun offset hoffset => ?_
  apply Yields.after
  intro _
  apply Yields.after
  intro _
  apply yields_unless
  intro _
  apply yields_unless
  intro hfields
  apply yields_unless
  intro hdate
  apply yields_pure
  exact isValid_ofLocal (by omega) hnano hoffset (not_not.mp hdate)

theorem isValid_of_ofText? {s : String} {t : Instant} (h : ofText? s = some t) : t.IsValid := by
  obtain ⟨⟨t', rest⟩, hread, rfl⟩ := Option.map_eq_some_iff.mp h
  exact yields_reader s.toList t' rest hread

end Instant

end SpawnGate.Calendar
