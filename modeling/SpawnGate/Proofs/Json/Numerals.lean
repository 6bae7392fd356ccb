import SpawnGate.Json.Numeral
import SpawnGate.Proofs.Decimal.Digits

/-!
The texts of number literals, as the grammar has them, and that exactly these are read.
-/

namespace SpawnGate.Decimal

theorem leading_eq_iff (cs r : List Char) (ds : List Digit) :
    leading cs = (ds, r) ↔ cs = text ds ++ r ∧ ∀ c ∈ r.head?, Digit.ofChar? c = none := by
  constructor
  · intro h
    induction cs generalizing ds with
    | nil =>
      obtain ⟨rfl, rfl⟩ := Prod.mk.inj h
      exact ⟨rfl, by simp⟩
    | cons c cs ih =>
      rw [leading] at h
      split at h
      · rename_i d hd
        obtain ⟨rfl, hr⟩ := Prod.mk.inj h
        obtain ⟨hcs, hhead⟩ := ih (leading cs).1 (by rw [← hr])
        refine ⟨?_, hhead⟩
        rw [text, List.map_cons, Digit.toChar_of_ofChar? hd, List.cons_append]
        exact congrArg (c :: ·) hcs
      · rename_i hnone
        obtain ⟨rfl, rfl⟩ := Prod.mk.inj h
        exact ⟨rfl, by simpa using hnone⟩
  · rintro ⟨rfl, hhead⟩
    exact leading_text_append ds r hhead

/-- The sign of an exponent. -/
inductive SignText : Bool → List Char → Prop
  | none : SignText false []
  | plus : SignText false ['+']
  | minus : SignText true ['-']

inductive FractionText : List Digit → List Char → Prop
  | absent : FractionText [] []
  | present {ds} : ds ≠ [] → FractionText ds ('.' :: text ds)

inductive ExponentText : Option (Bool × List Digit) → List Char → Prop
  | absent : ExponentText none []
  | present {mark negative sign ds} : mark = 'e' ∨ mark = 'E' → SignText negative sign → ds ≠ [] →
      ExponentText (some (negative, ds)) (mark :: sign ++ text ds)

theorem ofChar?_of_exponentText {e : Option (Bool × List Digit)} {es : List Char}
    (h : ExponentText e es) : ∀ c ∈ es.head?, Digit.ofChar? c = none := by
  cases h with
  | absent => simp
  | present hmark => rcases hmark with rfl | rfl <;> simp <;> rfl

theorem signed_eq {negative : Bool} {sign : List Char} (h : SignText negative sign) {ds : List Digit}
    (hds : ds ≠ []) : signed (sign ++ text ds) = (negative, text ds) := by
  cases h with
  | plus => rfl
  | minus => rfl
  | none =>
    cases ds with
    | nil => exact absurd rfl hds
    | cons d ds =>
      simp only [List.nil_append, text, List.map_cons, signed]
      split
      · rename_i he
        exact absurd (List.cons.inj he).1 d.toChar_ne_sign.1
      · rename_i he
        exact absurd (List.cons.inj he).1 d.toChar_ne_sign.2
      · rfl

theorem exists_signText (cs : List Char) : ∃ sign, SignText (signed cs).1 sign ∧ cs = sign ++ (signed cs).2 := by
  unfold signed
  split
  · exact ⟨['-'], .minus, rfl⟩
  · exact ⟨['+'], .plus, rfl⟩
  · exact ⟨[], .none, rfl⟩

theorem exponent?_eq_some_iff (cs : List Char) (e : Option (Bool × List Digit)) :
    exponent? cs = some e ↔ ExponentText e cs := by
  constructor
  · intro h
    cases cs with
    | nil =>
      obtain rfl := Option.some.inj h
      exact .absent
    | cons c r =>
      rw [exponent?] at h
      split at h
      · rename_i hmark
        obtain ⟨sign, hsign, hr⟩ := exists_signText r
        split at h
        · cases h
        · rename_i ds hne hds
          obtain rfl := Option.some.inj h
          obtain ⟨htext, -⟩ := (leading_eq_iff _ _ _).mp hds
          rw [List.append_nil] at htext
          have hr' : c :: r = c :: sign ++ text ds := by rw [List.cons_append, ← htext, ← hr]
          rw [hr']
          exact .present hmark hsign fun hnil => hne hnil
        · cases h
      · cases h
  · intro h
    cases h with
    | absent => rfl
    | present hmark hsign hds =>
      rename_i mark negative sign ds
      rw [List.cons_append, exponent?, if_pos hmark, signed_eq hsign hds]
      have hleading := (leading_eq_iff (text ds) [] ds).mpr ⟨by simp, by simp⟩
      rw [hleading]
      cases ds with
      | nil => exact absurd rfl hds
      | cons d ds => rfl

theorem fraction?_eq_some {cs r : List Char} {ds : List Digit} (h : fraction? cs = some (ds, r)) :
    ∃ fs, FractionText ds fs ∧ cs = fs ++ r := by
  unfold fraction? at h
  split at h
  · rename_i r'
    split at h
    · cases h
    · rename_i hne
      obtain ⟨hr, -⟩ := (leading_eq_iff _ _ _).mp (Option.some.inj h)
      refine ⟨'.' :: text ds, .present fun hnil => ?_, by rw [hr, List.cons_append]⟩
      exact hne r (by rw [Option.some.inj h, hnil])
  · obtain ⟨rfl, rfl⟩ := Prod.mk.inj (Option.some.inj h)
    exact ⟨[], .absent, rfl⟩

theorem fraction?_append {ds : List Digit} {fs : List Char} (h : FractionText ds fs)
    {e : Option (Bool × List Digit)} {es : List Char} (he : ExponentText e es) :
    fraction? (fs ++ es) = some (ds, es) := by
  cases h with
  | absent =>
    cases he with
    | absent => rfl
    | present hmark => rcases hmark with rfl | rfl <;> rfl
  | present hds =>
    rw [List.cons_append, fraction?, leading_text_append ds es (ofChar?_of_exponentText he)]
    cases ds with
    | nil => exact absurd rfl hds
    | cons d ds => rfl

end SpawnGate.Decimal

namespace SpawnGate.Json

open Decimal

namespace Numeral

/-- Whole digits: a single zero, or digits that begin with another one. -/
inductive IsWhole : List Digit → Prop
  | zero : IsWhole [0]
  | nonzero {d ds} : d ≠ 0 → IsWhole (d :: ds)

/-- The production `[ minus ] int [ frac ] [ exp ]`. -/
inductive Written : Numeral → List Char → Prop
  | mk {negative whole fraction exponent fs es} : IsWhole whole → FractionText fraction fs →
      ExponentText exponent es →
      Written ⟨negative, whole, fraction, exponent⟩
        ((if negative then ['-'] else []) ++ (text whole ++ (fs ++ es)))

theorem minus_eq (cs : List Char) : cs = (if (minus cs).1 then ['-'] else []) ++ (minus cs).2 := by
  unfold minus
  split <;> rfl

theorem minus_append (negative : Bool) {whole : List Digit} (h : IsWhole whole) (cs : List Char) :
    minus ((if negative then ['-'] else []) ++ (text whole ++ cs)) = (negative, text whole ++ cs) := by
  cases negative with
  | true => rfl
  | false =>
    cases h with
    | zero => rfl
    | @nonzero d ds =>
      simp only [Bool.false_eq_true, if_false, List.nil_append, text, List.map_cons, List.cons_append,
        minus]
      split
      · rename_i he
        exact absurd (List.cons.inj he).1 d.toChar_ne_sign.1
      · rfl

theorem whole?_eq_some {cs r : List Char} {ds : List Digit} (h : whole? cs = some (ds, r)) :
    IsWhole ds ∧ cs = text ds ++ r := by
  unfold whole? at h
  split at h
  · cases h
  · cases h
  · rename_i hempty hzeros
    have hleading := Option.some.inj h
    refine ⟨?_, ((leading_eq_iff _ _ _).mp hleading).1⟩
    rw [hleading] at hempty hzeros
    match ds with
    | [] => exact absurd rfl (hempty r)
    | [d] =>
      by_cases hd : d = 0
      · exact hd ▸ .zero
      · exact .nonzero hd
    | d :: e :: ds =>
      refine .nonzero fun hd => ?_
      subst hd
      exact hzeros _ e ds r rfl

theorem whole?_append {ds : List Digit} (h : IsWhole ds) {cs : List Char}
    (hcs : ∀ c ∈ cs.head?, Digit.ofChar? c = none) : whole? (text ds ++ cs) = some (ds, cs) := by
  rw [whole?, leading_text_append ds cs hcs]
  cases h with
  | zero => rfl
  | @nonzero d ds hd =>
    split
    · rename_i he
      cases he
    · rename_i he
      obtain ⟨he, -⟩ := Prod.mk.inj he
      exact absurd (List.cons.inj he).1 hd
    · rfl

theorem ofChar?_of_fractionText {ds : List Digit} {fs : List Char} (h : FractionText ds fs)
    {e : Option (Bool × List Digit)} {es : List Char} (he : ExponentText e es) :
    ∀ c ∈ (fs ++ es).head?, Digit.ofChar? c = none := by
  cases h with
  | absent => exact ofChar?_of_exponentText he
  | present =>
    intro c hc
    obtain rfl : '.' = c := by simpa using hc
    rfl

theorem ofChars?_eq_some_iff (cs : List Char) (n : Numeral) : ofChars? cs = some n ↔ Written n cs := by
  constructor
  · intro h
    simp only [ofChars?, Option.bind_eq_bind, Option.pure_def, Option.bind_eq_some_iff] at h
    obtain ⟨⟨whole, afterWhole⟩, hwhole, ⟨fraction, afterFraction⟩, hfraction, exponent, hexponent, hn⟩ := h
    obtain ⟨hwhole, hcs⟩ := whole?_eq_some hwhole
    obtain ⟨fs, hfraction, hfs⟩ := fraction?_eq_some hfraction
    have hwritten : Written ⟨(minus cs).1, whole, fraction, exponent⟩ _ :=
      .mk hwhole hfraction ((exponent?_eq_some_iff _ _).mp hexponent)
    rw [← hfs, ← hcs, ← minus_eq] at hwritten
    exact Option.some.inj hn ▸ hwritten
  · rintro ⟨hwhole, hfraction, hexponent⟩
    rw [ofChars?, minus_append _ hwhole]
    simp only [whole?_append hwhole (ofChar?_of_fractionText hfraction hexponent), Option.bind_eq_bind,
      Option.bind_some, fraction?_append hfraction hexponent, (exponent?_eq_some_iff _ _).mpr hexponent]
    rfl

theorem isNumeralChar_text (ds : List Digit) : ∀ c ∈ text ds, isNumeralChar c = true := by
  intro c hc
  obtain ⟨d, -, rfl⟩ := List.mem_map.mp hc
  simp [isNumeralChar, Digit.ofChar?_toChar]

theorem isNumeralChar_of_fractionText {ds : List Digit} {fs : List Char} (h : FractionText ds fs) :
    ∀ c ∈ fs, isNumeralChar c = true := by
  cases h with
  | absent => simp
  | present => exact List.forall_mem_cons.mpr ⟨rfl, isNumeralChar_text ds⟩

theorem isNumeralChar_of_exponentText {e : Option (Bool × List Digit)} {es : List Char}
    (h : ExponentText e es) : ∀ c ∈ es, isNumeralChar c = true := by
  cases h with
  | absent => simp
  | present hmark hsign =>
    rw [List.cons_append, List.forall_mem_cons, List.forall_mem_append]
    refine ⟨by rcases hmark with rfl | rfl <;> rfl, ?_, isNumeralChar_text _⟩
    cases hsign <;> simp <;> rfl

theorem Written.isNumeralChar {n : Numeral} {cs : List Char} (h : Written n cs) :
    ∀ c ∈ cs, isNumeralChar c = true := by
  obtain ⟨-, hfraction, hexponent⟩ := h
  rw [List.forall_mem_append, List.forall_mem_append, List.forall_mem_append]
  refine ⟨?_, isNumeralChar_text _, isNumeralChar_of_fractionText hfraction,
    isNumeralChar_of_exponentText hexponent⟩
  rename_i negative _ _ _ _ _
  cases negative with
  | true => exact List.forall_mem_singleton.mpr rfl
  | false => simp

theorem Written.eq_cons {n : Numeral} {cs : List Char} (h : Written n cs) :
    ∃ c r, cs = c :: r ∧ (c = '-' ∨ (Digit.ofChar? c).isSome) := by
  obtain @⟨negative, whole, fraction, exponent, fs, es, hwhole, -, -⟩ := h
  cases negative with
  | true => exact ⟨'-', _, rfl, .inl rfl⟩
  | false =>
    cases hwhole with
    | zero => exact ⟨'0', _, rfl, .inr rfl⟩
    | @nonzero d ds => exact ⟨d.toChar, _, rfl, .inr (by rw [Digit.ofChar?_toChar]; rfl)⟩

end Numeral

end SpawnGate.Json
