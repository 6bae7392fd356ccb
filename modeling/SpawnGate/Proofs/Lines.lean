import Mathlib.Data.List.Basic

/-!
Lines as bytes. A text without a newline has no newline among its UTF-8 bytes, and lines that have
none are found again by splitting at newlines.
-/

namespace SpawnGate.Lines

def newline : UInt8 := 10

def utf8 (s : String) : List UInt8 := s.toUTF8.data.toList

/-- Lines one after another, each with a newline at its end. -/
def framed (ls : List (List UInt8)) : List UInt8 := ls.flatMap (· ++ [newline])

theorem framed_append (ls ms : List (List UInt8)) : framed (ls ++ ms) = framed ls ++ framed ms :=
  List.flatMap_append

theorem framed_cons (l : List UInt8) (ls : List (List UInt8)) : framed (l :: ls) = l ++ newline :: framed ls := by
  rw [framed, List.flatMap_cons, List.append_assoc]
  rfl

/-- Nothing follows the last newline. -/
theorem splitOn_framed {ls : List (List UInt8)} (h : ∀ l ∈ ls, newline ∉ l) :
    (framed ls).splitOn newline = ls ++ [[]] := by
  induction ls with
  | nil => rfl
  | cons l ls ih =>
    obtain ⟨hl, hls⟩ := List.forall_mem_cons.mp h
    rw [framed_cons, List.splitOn_append_cons_self_of_not_mem hl, ih hls, List.cons_append]

theorem utf8_eq_flatMap (s : String) : utf8 s = s.toList.flatMap String.utf8EncodeChar := by
  rw [utf8, String.toUTF8_eq_toByteArray, ← String.utf8Encode_toList, List.utf8Encode]
  exact List.toList_data_toByteArray

theorem utf8_append (s t : String) : utf8 (s ++ t) = utf8 s ++ utf8 t := by
  rw [utf8_eq_flatMap, utf8_eq_flatMap, utf8_eq_flatMap, String.toList_append, List.flatMap_append]

theorem not_newline_of_high {b : UInt8} (m : UInt8) (hm : 0x80 ≤ m.toNat) : newline ≠ b ||| m := by
  intro h
  have hle : m.toNat ≤ b.toNat ||| m.toNat := Nat.right_le_or
  rw [← UInt8.toNat_or, ← h] at hle
  exact absurd (Nat.le_trans hm hle) (by decide)

/-- All bytes of a character that has more than one are high. -/
theorem eq_of_newline_mem {c : Char} (h : newline ∈ String.utf8EncodeChar c) : c = '\n' := by
  rcases c.utf8Size_eq with hsize | hsize | hsize | hsize
  · rw [String.utf8EncodeChar_eq_singleton hsize, List.mem_singleton] at h
    have hsmall : c.val.toNat ≤ 127 := by
      have hle := Char.utf8Size_eq_one_iff.mp hsize
      rw [UInt32.le_iff_toNat_le] at hle
      exact hle
    have hcode : c.val.toNat % 256 = 10 := by
      have hnat := congrArg UInt8.toNat h
      rw [UInt32.toNat_toUInt8] at hnat
      exact hnat.symm
    apply Char.ext
    apply UInt32.toNat.inj
    change c.val.toNat = 10
    omega
  · rw [String.utf8EncodeChar_eq_cons_cons hsize] at h
    simp [not_newline_of_high] at h
  · rw [String.utf8EncodeChar_eq_cons_cons_cons hsize] at h
    simp [not_newline_of_high] at h
  · rw [String.utf8EncodeChar_eq_cons_cons_cons_cons hsize] at h
    simp [not_newline_of_high] at h

theorem newline_not_mem_utf8 {s : String} (h : '\n' ∉ s.toList) : newline ∉ utf8 s := by
  rw [utf8_eq_flatMap]
  intro hmem
  obtain ⟨c, hc, hbyte⟩ := List.mem_flatMap.mp hmem
  obtain rfl := eq_of_newline_mem hbyte
  exact h hc

end SpawnGate.Lines
