import Mathlib.Data.List.Infix
import SpawnGate.Locations

/-!
The steps of a joined path: those of the left side and then those of the right side. A path's parent is
no longer than the path.
-/

namespace SpawnGate.Path

theorem split_ne_nil (cs : List Char) : split cs ≠ [] := by
  cases cs with
  | nil => simp [split]
  | cons c cs =>
    unfold split
    split
    · simp
    · split <;> simp

theorem split_append_slash (as bs : List Char) : split (as ++ '/' :: bs) = split as ++ split bs := by
  induction as with
  | nil => rfl
  | cons a as ih =>
    rw [List.cons_append, split, split, ih]
    split
    · rfl
    · cases h : split as with
      | nil => exact absurd h (split_ne_nil as)
      | cons p ps => rfl

theorem split_of_no_slash {cs : List Char} (h : '/' ∉ cs) : split cs = [cs] := by
  induction cs with
  | nil => rfl
  | cons c cs ih =>
    simp only [List.mem_cons, not_or] at h
    rw [split, if_neg (Ne.symm h.1), ih h.2]

def stepsOf (cs : List Char) : List Step :=
  (split cs).filterMap fun part => step? (String.ofList part)

theorem steps_ofText (s : String) : (ofText s).steps = stepsOf s.toList := by
  simp only [ofText, steps, stepsOf, List.filterMap_map]
  rfl

theorem stepsOf_append_slash (as bs : List Char) :
    stepsOf (as ++ '/' :: bs) = stepsOf as ++ stepsOf bs := by
  simp only [stepsOf, split_append_slash, List.filterMap_append]

theorem split_dots (as bs : List Char) (dots : Nat) :
    split (as ++ (List.replicate dots ['/', '.']).flatten ++ '/' :: bs) =
      split as ++ List.replicate dots ['.'] ++ split bs := by
  induction dots generalizing as with
  | zero =>
    rw [List.replicate_zero, List.flatten_nil, List.append_nil, split_append_slash, List.replicate_zero,
      List.append_nil]
  | succ dots ih =>
    have hdot : as ++ ['/', '.'] = as ++ '/' :: ['.'] := rfl
    rw [List.replicate_succ, List.flatten_cons, ← List.append_assoc, ih, hdot, split_append_slash,
      List.replicate_succ, List.append_assoc (split as)]
    rfl

/-- Into a directory and out of it again, past dots that lead nowhere, to a file in another directory. -/
def detour (dots : Nat) : String :=
  String.ofList (['n', '/', '.', '.'] ++ (List.replicate dots ['/', '.']).flatten ++ ['/', 'd', '/', 'f'])

theorem ofText_detour (dots : Nat) :
    ofText (detour dots) = ⟨["n", ".."] ++ List.replicate dots "." ++ ["d", "f"]⟩ := by
  rw [ofText, detour, String.toList_ofList, split_dots, List.map_append, List.map_append, List.map_replicate]
  rfl

theorem endsWith_slash_iff (s : String) : s.endsWith "/" = true ↔ ∃ as, s.toList = as ++ ['/'] := by
  rw [← String.endsWith_toSlice, String.Slice.endsWith_string_iff, String.copy_toSlice]
  exact ⟨fun ⟨as, h⟩ => ⟨as, h.symm⟩, fun ⟨as, h⟩ => ⟨as, h.symm⟩⟩

theorem steps_join (base : String) {rest : String} (h : rest.startsWith "/" = false) :
    (ofText (join base rest)).steps = (ofText base).steps ++ (ofText rest).steps := by
  simp only [steps_ofText, join, h, Bool.false_eq_true, if_false]
  split
  · rename_i hbase
    rw [String.toList_append]
    rcases hbase with rfl | hbase
    · rfl
    · obtain ⟨as, has⟩ := (endsWith_slash_iff base).mp hbase
      rw [has, List.append_assoc, List.singleton_append, stepsOf_append_slash, stepsOf_append_slash]
      have hempty : stepsOf [] = [] := rfl
      rw [hempty, List.append_nil]
  · rw [String.toList_append, String.toList_append, List.append_assoc]
    exact stepsOf_append_slash base.toList rest.toList

theorem isAbsolute_ofText (s : String) : (ofText s).isAbsolute = decide (s.toList.head? = some '/') := by
  have hempty : String.ofList [] = "" := rfl
  unfold ofText isAbsolute
  cases hs : s.toList with
  | nil => rfl
  | cons c cs =>
    obtain ⟨part, parts, hsplit⟩ := List.exists_cons_of_ne_nil (split_ne_nil cs)
    by_cases hc : c = '/'
    · subst hc
      simp only [split, if_true, hsplit, List.map_cons, hempty]
      rfl
    · have hne : String.ofList (c :: part) ≠ "" := by
        intro heq
        have hlist := congrArg String.toList heq
        rw [String.toList_ofList] at hlist
        cases hlist
      simp only [split, hsplit, List.head?_cons, Option.some.injEq, hc, if_false, List.map_cons, decide_false]
      split
      · rename_i heq
        exact absurd (List.cons.inj heq).1 hne
      · rfl

theorem isAbsolute_join (base : String) {rest : String} (h : rest.startsWith "/" = false) :
    (ofText (join base rest)).isAbsolute = (ofText base).isAbsolute := by
  have hrest : rest.toList.head? ≠ some '/' := by
    intro hhead
    rw [String.startsWith_string_eq_false_iff] at h
    obtain ⟨cs, hcs⟩ := List.head?_eq_some_iff.mp hhead
    exact h ⟨cs, hcs.symm⟩
  rw [isAbsolute_ofText, isAbsolute_ofText]
  simp only [join, h, Bool.false_eq_true, if_false]
  cases hbase : base.toList with
  | nil =>
    obtain rfl := String.toList_eq_nil_iff.mp hbase
    simp [hrest]
  | cons c cs =>
    split <;> simp [String.toList_append, hbase]

theorem foldl_size_mono {m n : Nat} (h : m ≤ n) (parts : List String) :
    parts.foldl (· + ·.utf8ByteSize) m ≤ parts.foldl (· + ·.utf8ByteSize) n := by
  induction parts generalizing m n with
  | nil => exact h
  | cons part parts ih => exact ih (Nat.add_le_add_right h _)

theorem le_foldl_size (n : Nat) (parts : List String) : n ≤ parts.foldl (· + ·.utf8ByteSize) n := by
  induction parts generalizing n with
  | nil => exact Nat.le_refl n
  | cons part parts ih => exact Nat.le_trans (Nat.le_add_right n _) (ih _)

theorem parts_parent_prefix (p : Path) : p.parent.parts <+: p.parts := by
  rw [← List.reverse_suffix]
  unfold parent
  rw [List.reverse_reverse]
  exact ((List.dropWhile_suffix _).trans (List.drop_suffix _ _)).trans (List.dropWhile_suffix _)

theorem isShort_parent {p : Path} (h : p.isShort = true) : p.parent.isShort = true := by
  obtain ⟨r, hr⟩ := p.parts_parent_prefix
  have hlength : p.parent.parts.length - 1 ≤ p.parts.length - 1 := by
    rw [← hr, List.length_append]
    omega
  have hsize : p.parent.size ≤ p.size := by
    calc p.parent.size
        ≤ p.parent.parts.foldl (· + ·.utf8ByteSize) (p.parts.length - 1) := foldl_size_mono hlength _
      _ ≤ r.foldl (· + ·.utf8ByteSize) (p.parent.parts.foldl (· + ·.utf8ByteSize) (p.parts.length - 1)) :=
        le_foldl_size _ r
      _ = p.size := by rw [size, ← List.foldl_append, hr]
  simp only [isShort, decide_eq_true_eq] at h ⊢
  omega

end SpawnGate.Path

namespace SpawnGate.Locations

open SpawnGate.Path

theorem not_mem_of_isTeamName {team : String} (h : isTeamName team = true) : '/' ∉ team.toList := by
  simp only [isTeamName, Bool.and_eq_true, Bool.not_eq_true', List.any_eq_false] at h
  intro hmem
  simpa using h.2 '/' hmem

theorem stepsOf_of_isTeamName {team : String} (h : isTeamName team = true) :
    (ofText team).steps = [.name team] := by
  have hparts : split team.toList = [team.toList] := split_of_no_slash (not_mem_of_isTeamName h)
  simp only [isTeamName, Bool.and_eq_true, bne_iff_ne, ne_eq] at h
  obtain ⟨⟨⟨hempty, hdot⟩, hup⟩, -⟩ := h
  simp [steps_ofText, stepsOf, hparts, step?, hempty, hdot, hup]

theorem startsWith_slash_of_isTeamName {team : String} (h : isTeamName team = true) : team.startsWith "/" = false := by
  rw [String.startsWith_string_eq_false_iff]
  rintro ⟨r, hr⟩
  exact not_mem_of_isTeamName h (by rw [← hr]; simp)

/-- A team's file lies in the team's own directory under the teams directory of the home. -/
theorem steps_teamConfig (home : String) {team : String} (h : isTeamName team = true) :
    (ofText (teamConfig home team)).steps =
      (ofText home).steps ++ [.name ".claude", .name "teams", .name team, .name "config.json"] := by
  unfold teamConfig
  rw [steps_join _ (by decide +kernel), steps_join _ (startsWith_slash_of_isTeamName h),
    steps_join _ (by decide +kernel), stepsOf_of_isTeamName h]
  have hteams : (ofText teamsDirectory).steps = [.name ".claude", .name "teams"] := by decide
  have hfile : (ofText teamConfigFile).steps = [.name "config.json"] := by decide
  rw [hteams, hfile]
  simp

theorem isAbsolute_teamConfig (home : String) {team : String} (h : isTeamName team = true) :
    (ofText (teamConfig home team)).isAbsolute = (ofText home).isAbsolute := by
  unfold teamConfig
  rw [isAbsolute_join _ (by decide +kernel), isAbsolute_join _ (startsWith_slash_of_isTeamName h),
    isAbsolute_join _ (by decide +kernel)]

end SpawnGate.Locations
