import Mathlib.Data.List.TakeWhile
import SpawnGate.Text.Blank

/-!
Trimming takes white space off both ends and nothing else, so what it yields depends only on the
text between them.
-/

namespace SpawnGate.Text

def Blank (cs : List Char) : Prop := ∀ c ∈ cs, isBlank c = true

instance (cs : List Char) : Decidable (Blank cs) :=
  List.decidableBAll (isBlank · = true) cs

/-- The first text with white space put before and after it. -/
def Padded (r s : String) : Prop :=
  ∃ before after, Blank before ∧ Blank after ∧ s.toList = before ++ r.toList ++ after

theorem exists_blank_dropWhile (cs : List Char) :
    ∃ before, Blank before ∧ cs = before ++ cs.dropWhile isBlank := by
  refine ⟨cs.takeWhile isBlank, fun c hc => ?_, List.takeWhile_append_dropWhile.symm⟩
  exact List.mem_takeWhile_imp hc

theorem exists_blank_trimChars (cs : List Char) :
    ∃ before after, Blank before ∧ Blank after ∧ cs = before ++ trimChars cs ++ after := by
  obtain ⟨before, hbefore, hcs⟩ := exists_blank_dropWhile cs
  obtain ⟨after, hafter, hrev⟩ := exists_blank_dropWhile (cs.dropWhile isBlank).reverse
  refine ⟨before, after.reverse, hbefore, fun c hc => hafter c (by simpa using hc), ?_⟩
  have hmiddle : cs.dropWhile isBlank = trimChars cs ++ after.reverse := by
    rw [← List.reverse_reverse (cs.dropWhile isBlank), hrev, List.reverse_append]
    rfl
  rw [List.append_assoc, ← hmiddle]
  exact hcs

theorem trimChars_trimChars (cs : List Char) : trimChars (trimChars cs) = trimChars cs := by
  obtain ⟨before, after, hbefore, hafter, hcs⟩ := exists_blank_trimChars cs
  calc trimChars (trimChars cs)
      = trimChars (before ++ (trimChars cs ++ after)) := by
        rw [trimChars_blank_append hbefore, trimChars_append_blank hafter]
    _ = trimChars cs := by rw [← List.append_assoc, ← hcs]

theorem trim_trim (s : String) : trim (trim s) = trim s := by
  simp only [trim, String.toList_ofList, trimChars_trimChars]

theorem Padded.trim_eq {r s : String} (h : Padded r s) : trim s = trim r := by
  obtain ⟨before, after, hbefore, hafter, hs⟩ := h
  simp only [trim, hs]
  rw [List.append_assoc, trimChars_blank_append hbefore, trimChars_append_blank hafter]

theorem Padded.usable_eq {r s : String} (h : Padded r s) : usable s = usable r := by
  unfold usable
  rw [h.trim_eq]

theorem padded_trim (s : String) : Padded (trim s) s := by
  obtain ⟨before, after, hbefore, hafter, hs⟩ := exists_blank_trimChars s.toList
  exact ⟨before, after, hbefore, hafter, by simpa only [trim, String.toList_ofList] using hs⟩

theorem trim_eq_empty_iff (s : String) : trim s = "" ↔ Blank s.toList := by
  constructor
  · intro h
    obtain ⟨before, after, hbefore, hafter, hs⟩ := padded_trim s
    rw [h] at hs
    intro c hc
    rw [hs] at hc
    simp only [String.toList_empty, List.append_nil, List.mem_append] at hc
    exact hc.elim (hbefore c) (hafter c)
  · intro h
    simp [trim, trimChars_of_all h]

theorem usable_eq_some_iff (s t : String) : usable s = some t ↔ trim s = t ∧ t ≠ "" := by
  constructor
  · intro h
    exact ⟨(usable_eq_some h).1.symm, (usable_eq_some h).2⟩
  · rintro ⟨rfl, ht⟩
    simp [usable, ht]

theorem usable_eq_some_iff_not_blank (s t : String) : usable s = some t ↔ ¬ Blank s.toList ∧ trim s = t := by
  rw [usable_eq_some_iff, ← trim_eq_empty_iff, and_comm]
  apply and_congr_left
  rintro rfl
  rfl

theorem usable_of_usable {s t : String} (h : usable s = some t) : usable t = some t := by
  obtain ⟨rfl, ht⟩ := (usable_eq_some_iff s t).mp h
  exact (usable_eq_some_iff _ _).mpr ⟨trim_trim s, ht⟩

/-- A text that is not blank and has no white space around it. -/
def Neat (s : String) : Prop :=
  ¬ Blank s.toList ∧ trim s = s

theorem neat_iff (s : String) : Neat s ↔ usable s = some s := by
  rw [Neat, usable_eq_some_iff, ← trim_eq_empty_iff, and_comm]
  apply and_congr_right
  intro h
  rw [h]

theorem neat_of_usable {s t : String} (h : usable s = some t) : Neat t :=
  (neat_iff t).mpr (usable_of_usable h)

end SpawnGate.Text
