/-!
Decimal digits, most significant first, and the naturals that they write.
-/

namespace SpawnGate.Decimal

abbrev Digit := Fin 10

def Digit.ofChar? (c : Char) : Option Digit :=
  if h : 48 ≤ c.toNat ∧ c.toNat ≤ 57 then some ⟨c.toNat - 48, by omega⟩ else none

def Digit.toChar (d : Digit) : Char :=
  Char.ofNat (48 + d.val)

/-- The natural that a row of digits writes. -/
def ofDigits (ds : List Digit) : Nat :=
  ds.foldl (fun n d => n * 10 + d.val) 0

/-- The digits of a natural, without leading zeros, put in front of `after`. -/
def digitsBefore (n : Nat) (after : List Digit) : List Digit :=
  if n < 10 then Fin.ofNat 10 n :: after else digitsBefore (n / 10) (Fin.ofNat 10 n :: after)

def digits (n : Nat) : List Digit :=
  digitsBefore n []

def text (ds : List Digit) : List Char :=
  ds.map Digit.toChar

/-- The leading digits of a text, and what follows them. -/
def leading : List Char → List Digit × List Char
  | [] => ([], [])
  | c :: cs =>
    match Digit.ofChar? c with
    | some d => (d :: (leading cs).1, (leading cs).2)
    | none => ([], c :: cs)

/-- Whether a text begins with a minus, and what follows its sign. -/
def signed : List Char → Bool × List Char
  | '-' :: r => (true, r)
  | '+' :: r => (false, r)
  | r => (false, r)

/-- The digits after a point, if there is one, and what follows them. -/
def fraction? : List Char → Option (List Digit × List Char)
  | '.' :: r =>
    match leading r with
    | ([], _) => none
    | found => some found
  | r => some ([], r)

/-- An exponent at the end of a text: whether it is negative, and its digits. -/
def exponent? : List Char → Option (Option (Bool × List Digit))
  | [] => some none
  | c :: r =>
    if c = 'e' ∨ c = 'E' then
      match leading (signed r).2 with
      | ([], _) => none
      | (ds, []) => some (some ((signed r).1, ds))
      | _ => none
    else none

theorem Digit.ofChar?_toChar (d : Digit) : Digit.ofChar? d.toChar = some d := by
  revert d; decide

theorem leading_text_append (ds : List Digit) (cs : List Char)
    (h : ∀ c ∈ cs.head?, Digit.ofChar? c = none) : leading (text ds ++ cs) = (ds, cs) := by
  induction ds with
  | nil =>
    cases cs with
    | nil => rfl
    | cons c cs => simp [text, leading, h c (by simp)]
  | cons d ds ih =>
    have ih' : leading (List.map Digit.toChar ds ++ cs) = (ds, cs) := ih
    simp [text, leading, Digit.ofChar?_toChar, ih']

theorem ofDigits_append (as bs : List Digit) :
    ofDigits (as ++ bs) = bs.foldl (fun n d => n * 10 + d.val) (ofDigits as) := by
  simp [ofDigits]

theorem ofDigits_digitsBefore (n : Nat) (after : List Digit) :
    ofDigits (digitsBefore n after) = after.foldl (fun n d => n * 10 + d.val) n := by
  fun_induction digitsBefore n after with
  | case1 n after h => simp [ofDigits, Fin.ofNat, Nat.mod_eq_of_lt h]
  | case2 n after h ih =>
    rw [ih]
    simp only [List.foldl_cons, Fin.ofNat]
    congr 1
    omega

theorem ofDigits_digits (n : Nat) : ofDigits (digits n) = n := by
  simp [digits, ofDigits_digitsBefore]

end SpawnGate.Decimal
