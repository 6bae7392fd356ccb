import Mathlib.Data.List.Chain
import Mathlib.Data.List.Forall2
import SpawnGate.Json.Token
import SpawnGate.Proofs.Json.Numerals

/-!
The texts of tokens, as the grammar has them, with white space anywhere between two of them. A scan
finds only tokens that the text spells, and it finds them all where no word and no number runs into
the token after it.
-/

namespace SpawnGate.Json

/-- A character of a string literal, as itself or escaped. -/
inductive SymbolText : Symbol → List Char → Prop
  | plain {c} : 0x20 ≤ c.toNat → c ≠ '"' → c ≠ '\\' → SymbolText (.plain c) [c]
  | escape {e c} : shortEscape? e = some c → SymbolText (.plain c) ['\\', e]
  | unit {a b c d w x y z} : Hex.Digit.ofChar? a = some w → Hex.Digit.ofChar? b = some x →
      Hex.Digit.ofChar? c = some y → Hex.Digit.ofChar? d = some z →
      SymbolText (.unit (Token.Scanner.fourDigits w x y z)) ['\\', 'u', a, b, c, d]

inductive StringText : List Symbol → List Char → Prop
  | nil : StringText [] []
  | cons {s ss x cs} : SymbolText s x → StringText ss cs → StringText (s :: ss) (x ++ cs)

theorem StringText.concat {ss : List Symbol} {cs : List Char} (h : StringText ss cs) {s : Symbol}
    {x : List Char} (hs : SymbolText s x) : StringText (ss ++ [s]) (cs ++ x) := by
  induction h with
  | nil => simpa using StringText.cons hs .nil
  | cons hfirst _ ih =>
    rw [List.cons_append, List.append_assoc]
    exact .cons hfirst ih

namespace Token

inductive Spelled : Token → List Char → Prop
  | null : Spelled .null ['n', 'u', 'l', 'l']
  | yes : Spelled (.boolean true) ['t', 'r', 'u', 'e']
  | no : Spelled (.boolean false) ['f', 'a', 'l', 's', 'e']
  | mark {c t} : mark? c = some t → Spelled t [c]
  | number {n cs} : Numeral.Written n cs → Spelled (.number n) cs
  | string {ss cs} : StringText ss cs → Spelled (.string ss) ('"' :: cs ++ ['"'])

inductive Spells : List Token → List Char → Prop
  | nil : Spells [] []
  | space {c ts cs} : isSpace c = true → Spells ts cs → Spells ts (c :: cs)
  | token {t x ts cs} : Spelled t x → Spells ts cs → Spells (t :: ts) (x ++ cs)

theorem Spells.append {ts us : List Token} {cs ds : List Char} (h : Spells ts cs) (h' : Spells us ds) :
    Spells (ts ++ us) (cs ++ ds) := by
  induction h with
  | nil => exact h'
  | space hc _ ih => exact .space hc ih
  | token ht _ ih =>
    rw [List.cons_append, List.append_assoc]
    exact .token ht ih

theorem Spelled.spells {t : Token} {cs : List Char} (h : Spelled t cs) : Spells [t] cs := by
  simpa using Spells.token h .nil

theorem Spelled.of_word? {cs : List Char} {t : Token} (h : word? cs = some t) : Spelled t cs := by
  unfold word? at h
  split at h
  · rename_i hcs
    obtain rfl := Option.some.inj h
    exact hcs ▸ .null
  · split at h
    · rename_i hcs
      obtain rfl := Option.some.inj h
      exact hcs ▸ .yes
    · split at h
      · rename_i hcs
        obtain rfl := Option.some.inj h
        exact hcs ▸ .no
      · cases h

theorem Spelled.of_ofChars? {cs : List Char} {n : Numeral} (h : Numeral.ofChars? cs = some n) :
    Spelled (.number n) cs :=
  .number ((Numeral.ofChars?_eq_some_iff cs n).mp h)

namespace Scanner

/-- The characters that may have led to a state. -/
def Read : Scanner → List Char → Prop
  | ⟨.between, tokens⟩, cs => Spells tokens.reverse cs
  | ⟨.word seen, tokens⟩, cs => ∃ before, Spells tokens.reverse before ∧ cs = before ++ seen.reverse
  | ⟨.numeral seen, tokens⟩, cs => ∃ before, Spells tokens.reverse before ∧ cs = before ++ seen.reverse
  | ⟨.string seen, tokens⟩, cs => ∃ before inside, Spells tokens.reverse before ∧
      StringText seen.reverse inside ∧ cs = before ++ '"' :: inside
  | ⟨.escape seen, tokens⟩, cs => ∃ before inside, Spells tokens.reverse before ∧
      StringText seen.reverse inside ∧ cs = before ++ '"' :: inside ++ ['\\']
  | ⟨.unit seen digits, tokens⟩, cs => ∃ before inside hex, Spells tokens.reverse before ∧
      StringText seen.reverse inside ∧
      List.Forall₂ (fun c d => Hex.Digit.ofChar? c = some d) hex digits.reverse ∧
      cs = before ++ '"' :: inside ++ '\\' :: 'u' :: hex

theorem read_enter {tokens : List Token} {before : List Char} (h : Spells tokens.reverse before)
    {c : Char} {s : Scanner} (hs : enter tokens c = some s) : s.Read (before ++ [c]) := by
  unfold enter at hs
  split at hs
  · rename_i hc
    obtain rfl := Option.some.inj hs
    simpa [Read] using h.append (.space hc .nil)
  · split at hs
    · rename_i hc
      obtain rfl := Option.some.inj hs
      exact ⟨before, [], h, .nil, by rw [hc]⟩
    · split at hs
      · obtain rfl := Option.some.inj hs
        exact ⟨before, h, rfl⟩
      · split at hs
        · obtain rfl := Option.some.inj hs
          exact ⟨before, h, rfl⟩
        · obtain ⟨t, ht, rfl⟩ := Option.map_eq_some_iff.mp hs
          have hmark := Spelled.spells (.mark ht)
          simpa [Read] using h.append hmark

theorem read_step {s s' : Scanner} {cs : List Char} (h : s.Read cs) {c : Char}
    (hs : step s c = some s') : s'.Read (cs ++ [c]) := by
  obtain ⟨mode, tokens⟩ := s
  cases mode with
  | between => exact read_enter h hs
  | word seen =>
    obtain ⟨before, hbefore, rfl⟩ := h
    simp only [step] at hs
    split at hs
    · obtain rfl := Option.some.inj hs
      exact ⟨before, hbefore, by simp⟩
    · obtain ⟨t, ht, hs⟩ := Option.bind_eq_some_iff.mp hs
      refine read_enter ?_ hs
      simpa using hbefore.append (Spelled.of_word? ht).spells
  | numeral seen =>
    obtain ⟨before, hbefore, rfl⟩ := h
    simp only [step] at hs
    split at hs
    · obtain rfl := Option.some.inj hs
      exact ⟨before, hbefore, by simp⟩
    · obtain ⟨n, hn, hs⟩ := Option.bind_eq_some_iff.mp hs
      refine read_enter ?_ hs
      simpa using hbefore.append (Spelled.of_ofChars? hn).spells
  | string seen =>
    obtain ⟨before, inside, hbefore, hinside, rfl⟩ := h
    simp only [step] at hs
    split at hs
    · rename_i hc
      obtain rfl := Option.some.inj hs
      subst hc
      have hstring := Spelled.spells (.string hinside)
      simpa [Read] using hbefore.append hstring
    · rename_i hquote
      split at hs
      · rename_i hc
        obtain rfl := Option.some.inj hs
        exact ⟨before, inside, hbefore, hinside, by rw [hc]⟩
      · rename_i hslash
        split at hs
        · cases hs
        · rename_i hcontrol
          obtain rfl := Option.some.inj hs
          have hplain := SymbolText.plain (by omega) hquote hslash
          exact ⟨before, inside ++ [c], hbefore, by simpa using hinside.concat hplain, by simp⟩
  | escape seen =>
    obtain ⟨before, inside, hbefore, hinside, rfl⟩ := h
    simp only [step] at hs
    split at hs
    · rename_i hc
      obtain rfl := Option.some.inj hs
      exact ⟨before, inside, [], hbefore, hinside, .nil, by simp [hc]⟩
    · obtain ⟨e, he, rfl⟩ := Option.map_eq_some_iff.mp hs
      have hescape := SymbolText.escape he
      exact ⟨before, inside ++ ['\\', c], hbefore, by simpa using hinside.concat hescape, by simp⟩
  | unit seen digits =>
    obtain ⟨before, inside, hex, hbefore, hinside, hhex, rfl⟩ := h
    simp only [step] at hs
    obtain ⟨d, hd, hs⟩ := Option.map_eq_some_iff.mp hs
    split at hs
    · rename_i x y z
      subst hs
      simp only [List.reverse_cons, List.reverse_nil, List.nil_append, List.cons_append] at hhex
      rcases hhex with - | ⟨hz, - | ⟨hy, - | ⟨hx, ⟨⟩⟩⟩⟩
      rename_i a b e
      have hunit := SymbolText.unit hz hy hx hd
      exact ⟨before, inside ++ ['\\', 'u', a, b, e, c], hbefore, by simpa using hinside.concat hunit,
        by simp⟩
    · subst hs
      refine ⟨before, inside, hex ++ [c], hbefore, hinside, ?_, by simp⟩
      rw [List.reverse_cons]
      exact List.rel_append hhex (.cons hd .nil)

theorem read_foldlM {s s' : Scanner} {cs ds : List Char} (h : s.Read cs) (hs : ds.foldlM step s = some s') :
    s'.Read (cs ++ ds) := by
  induction ds generalizing s cs with
  | nil =>
    obtain rfl := Option.some.inj hs
    simpa using h
  | cons d ds ih =>
    obtain ⟨s₁, hs₁, hs⟩ := Option.bind_eq_some_iff.mp hs
    have hrest := ih (read_step h hs₁) hs
    rwa [List.append_assoc] at hrest

theorem spells_of_finish {s : Scanner} {cs : List Char} (h : s.Read cs) {ts : List Token}
    (hs : s.finish = some ts) : Spells ts cs := by
  obtain ⟨mode, tokens⟩ := s
  cases mode with
  | between =>
    obtain rfl := Option.some.inj hs
    exact h
  | word seen =>
    obtain ⟨before, hbefore, rfl⟩ := h
    obtain ⟨t, ht, rfl⟩ := Option.map_eq_some_iff.mp hs
    simpa using hbefore.append (Spelled.of_word? ht).spells
  | numeral seen =>
    obtain ⟨before, hbefore, rfl⟩ := h
    obtain ⟨n, hn, rfl⟩ := Option.map_eq_some_iff.mp hs
    simpa using hbefore.append (Spelled.of_ofChars? hn).spells
  | string => cases hs
  | escape => cases hs
  | unit => cases hs

end Scanner

theorem spells_of_scan {cs : List Char} {ts : List Token} (h : scan cs = some ts) : Spells ts cs := by
  obtain ⟨s, hs, hfinish⟩ := Option.bind_eq_some_iff.mp h
  have hstart : Scanner.start.Read [] := Spells.nil
  exact Scanner.spells_of_finish (Scanner.read_foldlM hstart hs) hfinish

def isMark : Token → Bool
  | .openArray | .closeArray | .openObject | .closeObject | .comma | .colon => true
  | _ => false

/-- Words and numbers end only where something else begins. -/
def isOpenEnded : Token → Bool
  | .null | .boolean _ | .number _ => true
  | _ => false

def Apart (t u : Token) : Prop :=
  t.isOpenEnded = true → u.isMark = true

/-- The characters that may follow a word or a number. -/
def EndsToken (c : Char) : Prop :=
  c.isLower = false ∧ Numeral.isNumeralChar c = false

theorem endsToken_of_isSpace {c : Char} (h : isSpace c = true) : EndsToken c := by
  simp only [isSpace, Bool.or_eq_true, beq_iff_eq] at h
  rcases h with ((rfl | rfl) | rfl) | rfl <;> exact ⟨rfl, rfl⟩

theorem endsToken_of_mark? {c : Char} {t : Token} (h : mark? c = some t) : EndsToken c := by
  unfold mark? at h
  split at h
  case h_7 => cases h
  all_goals exact ⟨rfl, rfl⟩

theorem Spelled.endsToken {t : Token} {x : List Char} (h : Spelled t x) (ht : t.isMark = true) :
    ∃ c, x = [c] ∧ EndsToken c := by
  cases h with
  | mark hc => exact ⟨_, rfl, endsToken_of_mark? hc⟩
  | _ => cases ht

theorem Spells.endsToken {ts : List Token} {cs : List Char} (h : Spells ts cs)
    (hts : ∀ t ∈ ts.head?, t.isMark = true) : ∀ c ∈ cs.head?, EndsToken c := by
  cases h with
  | nil => simp
  | space hc => simpa using endsToken_of_isSpace hc
  | token ht =>
    obtain ⟨c, rfl, hc⟩ := ht.endsToken (hts _ rfl)
    simpa using hc

namespace Scanner

/-- The tokens of a text that goes on from a state. -/
def run (s : Scanner) (cs : List Char) : Option (List Token) :=
  (cs.foldlM step s).bind finish

theorem run_cons (s : Scanner) (c : Char) (cs : List Char) :
    run s (c :: cs) = (step s c).bind (run · cs) := by
  rw [run, List.foldlM_cons]
  cases step s c <;> rfl

theorem run_cons_of_step {s s' : Scanner} {c : Char} (h : step s c = some s') (cs : List Char) :
    run s (c :: cs) = run s' cs := by
  rw [run_cons, h, Option.bind_some]

theorem run_word {cs : List Char} (h : ∀ c ∈ cs.head?, EndsToken c) (seen : List Char) {t : Token}
    (ht : word? seen.reverse = some t) (tokens : List Token) :
    run ⟨.word seen, tokens⟩ cs = run ⟨.between, t :: tokens⟩ cs := by
  cases cs with
  | nil =>
    simp only [run, List.foldlM_nil, Option.pure_def, Option.bind_some, finish, ht, Option.map_some]
  | cons c cs =>
    have hc : c.isLower = false := (h c rfl).1
    simp only [run_cons, step, hc, Bool.false_eq_true, if_false, ht, Option.bind_some]

theorem run_numeral {cs : List Char} (h : ∀ c ∈ cs.head?, EndsToken c) {seen : List Char} {n : Numeral}
    (hn : Numeral.ofChars? seen.reverse = some n) (tokens : List Token) :
    run ⟨.numeral seen, tokens⟩ cs = run ⟨.between, .number n :: tokens⟩ cs := by
  cases cs with
  | nil =>
    simp only [run, List.foldlM_nil, Option.pure_def, Option.bind_some, finish, hn, Option.map_some]
  | cons c cs =>
    have hc : Numeral.isNumeralChar c = false := (h c rfl).2
    simp only [run_cons, step, hc, Bool.false_eq_true, if_false, hn, Option.bind_some]

theorem run_numeral_append {xs : List Char} (h : ∀ c ∈ xs, Numeral.isNumeralChar c = true)
    (seen : List Char) (tokens : List Token) (cs : List Char) :
    run ⟨.numeral seen, tokens⟩ (xs ++ cs) = run ⟨.numeral (xs.reverse ++ seen), tokens⟩ cs := by
  induction xs generalizing seen with
  | nil => rfl
  | cons x xs ih =>
    obtain ⟨hx, hxs⟩ := List.forall_mem_cons.mp h
    have hstep : step ⟨.numeral seen, tokens⟩ x = some ⟨.numeral (x :: seen), tokens⟩ := by
      simp only [step, hx, if_true]
    rw [List.cons_append, run_cons_of_step hstep, ih hxs, List.reverse_cons, List.append_assoc]
    rfl

theorem run_symbol {s : Symbol} {x : List Char} (h : SymbolText s x) (seen : List Symbol)
    (tokens : List Token) (cs : List Char) :
    run ⟨.string seen, tokens⟩ (x ++ cs) = run ⟨.string (s :: seen), tokens⟩ cs := by
  cases h with
  | plain hcontrol hquote hslash =>
    refine run_cons_of_step ?_ cs
    simp only [step, if_neg hquote, if_neg hslash, if_neg (Nat.not_lt.mpr hcontrol)]
  | @escape e c he =>
    have hu : e ≠ 'u' := by
      rintro rfl
      cases he
    have hstep : step ⟨.escape seen, tokens⟩ e = some ⟨.string (.plain c :: seen), tokens⟩ := by
      simp only [step, if_neg hu, he, Option.map_some]
    exact (run_cons_of_step rfl _).trans (run_cons_of_step hstep cs)
  | @unit a b c d w x y z hw hx hy hz =>
    have hdigit {c : Char} {d : Fin 16} (hd : Hex.Digit.ofChar? c = some d) {digits : List (Fin 16)}
        (hlength : digits.length < 3) :
        step ⟨.unit seen digits, tokens⟩ c = some ⟨.unit seen (d :: digits), tokens⟩ := by
      simp only [step, hd, Option.map_some]
      split
      · simp at hlength
      · rfl
    have hlast : step ⟨.unit seen [y, x, w], tokens⟩ d =
        some ⟨.string (.unit (fourDigits w x y z) :: seen), tokens⟩ := by
      simp only [step, hz, Option.map_some]
    calc run ⟨.string seen, tokens⟩ ('\\' :: 'u' :: a :: b :: c :: d :: cs)
        = run ⟨.unit seen [], tokens⟩ (a :: b :: c :: d :: cs) := rfl
      _ = run ⟨.unit seen [w], tokens⟩ (b :: c :: d :: cs) := run_cons_of_step (hdigit hw (by decide)) _
      _ = run ⟨.unit seen [x, w], tokens⟩ (c :: d :: cs) :=
        run_cons_of_step (hdigit hx (by simp)) _
      _ = run ⟨.unit seen [y, x, w], tokens⟩ (d :: cs) :=
        run_cons_of_step (hdigit hy (by simp)) _
      _ = _ := run_cons_of_step hlast cs

theorem run_string {ss : List Symbol} {x : List Char} (h : StringText ss x) (seen : List Symbol)
    (tokens : List Token) (cs : List Char) :
    run ⟨.string seen, tokens⟩ (x ++ cs) = run ⟨.string (ss.reverse ++ seen), tokens⟩ cs := by
  induction h generalizing seen with
  | nil => rfl
  | cons hs _ ih =>
    rw [List.append_assoc, run_symbol hs, ih, List.reverse_cons, List.append_assoc]
    rfl

theorem step_mark {c : Char} {t : Token} (h : mark? c = some t) (tokens : List Token) :
    step ⟨.between, tokens⟩ c = some ⟨.between, t :: tokens⟩ := by
  unfold mark? at h
  split at h
  case h_7 => cases h
  all_goals
    obtain rfl := Option.some.inj h
    rfl

theorem step_space {c : Char} (h : isSpace c = true) (tokens : List Token) :
    step ⟨.between, tokens⟩ c = some ⟨.between, tokens⟩ := by
  simp only [step, enter, h, if_true]

theorem step_numeral {c : Char} (h : c = '-' ∨ (Decimal.Digit.ofChar? c).isSome) (tokens : List Token) :
    step ⟨.between, tokens⟩ c = some ⟨.numeral [c], tokens⟩ := by
  rcases h with rfl | h
  · rfl
  · obtain ⟨d, hd⟩ := Option.isSome_iff_exists.mp h
    have hchar : ∀ d : Decimal.Digit,
        isSpace d.toChar = false ∧ d.toChar ≠ '"' ∧ d.toChar.isLower = false := by decide
    obtain ⟨hspace, hquote, hlower⟩ := hchar d
    rw [Decimal.Digit.toChar_of_ofChar? hd] at hspace hquote hlower
    simp only [step, enter, hspace, hquote, hlower, h, Bool.false_eq_true, if_false, or_true, if_true]

theorem run_spelled {t : Token} {x : List Char} (h : Spelled t x) {cs : List Char}
    (hcs : t.isOpenEnded = true → ∀ c ∈ cs.head?, EndsToken c) (tokens : List Token) :
    run ⟨.between, tokens⟩ (x ++ cs) = run ⟨.between, t :: tokens⟩ cs := by
  cases h with
  | null => exact run_word (hcs rfl) ['l', 'l', 'u', 'n'] rfl tokens
  | yes => exact run_word (hcs rfl) ['e', 'u', 'r', 't'] rfl tokens
  | no => exact run_word (hcs rfl) ['e', 's', 'l', 'a', 'f'] rfl tokens
  | mark hc => exact run_cons_of_step (step_mark hc tokens) cs
  | number hn =>
    obtain ⟨c, r, rfl, hc⟩ := hn.eq_cons
    obtain ⟨-, hr⟩ := List.forall_mem_cons.mp hn.isNumeralChar
    rw [List.cons_append, run_cons_of_step (step_numeral hc tokens), run_numeral_append hr]
    refine run_numeral (hcs rfl) ?_ tokens
    rw [List.reverse_append, List.reverse_reverse]
    exact (Numeral.ofChars?_eq_some_iff _ _).mpr hn
  | string hss =>
    rename_i ss inside
    calc run ⟨.between, tokens⟩ ('"' :: inside ++ ['"'] ++ cs)
        = run ⟨.string [], tokens⟩ (inside ++ '"' :: cs) := by
          rw [List.append_assoc, List.cons_append]
          exact run_cons_of_step rfl _
      _ = run ⟨.string (ss.reverse ++ []), tokens⟩ ('"' :: cs) := run_string hss [] tokens _
      _ = run ⟨.between, .string (ss.reverse ++ []).reverse :: tokens⟩ cs := run_cons_of_step rfl cs
      _ = run ⟨.between, .string ss :: tokens⟩ cs := by
        rw [List.append_nil, List.reverse_reverse]

theorem run_spells {ts : List Token} {cs : List Char} (h : Spells ts cs) (hts : ts.IsChain Apart)
    (tokens : List Token) : run ⟨.between, tokens⟩ cs = some (tokens.reverse ++ ts) := by
  induction h generalizing tokens with
  | nil => rw [List.append_nil]; rfl
  | space hc _ ih => rw [run_cons_of_step (step_space hc tokens), ih hts]
  | token ht hrest ih =>
    obtain ⟨hapart, hts⟩ := List.isChain_cons.mp hts
    rw [run_spelled ht fun hopen => hrest.endsToken fun u hu => hapart u hu hopen, ih hts,
      List.reverse_cons, List.append_assoc]
    rfl

end Scanner

theorem scan_eq_some {ts : List Token} {cs : List Char} (h : Spells ts cs) (hts : ts.IsChain Apart) :
    scan cs = some ts :=
  Scanner.run_spells h hts []

end Token

end SpawnGate.Json
