import SpawnGate.Proofs.Files

/-!
What stands in a file, as bytes. A write changes the content of no other file, and what is added to a file stands after
what was there.
-/

namespace SpawnGate.FileSystem

def content (fs : FileSystem) (l : Location) : List UInt8 :=
  match fs.find? l with
  | some (.file bytes) => bytes.data.toList
  | _ => []

variable {fs fs' : FileSystem} {current l : Location} {p : Path}

theorem content_of_grows {made : List Location} (h : Grows fs fs' made) (l : Location) : fs'.content l = fs.content l := by
  rcases h l with hsame | ⟨hnone, hdirectory, -⟩
  · rw [content, content, hsame]
  · rw [content, content, hnone, hdirectory]

theorem content_write_of_ne {change : Option Entry → Option ByteArray} (h : target current p ≠ l) :
    (fs.write current p change).1.content l = fs.content l := by
  obtain ⟨fs', hgrows, hwrite | ⟨bytes, hroot, -, hwrite⟩⟩ := write_cases fs current p change
  · rw [hwrite]
    exact content_of_grows hgrows l
  · rw [hwrite, ← content_of_grows hgrows l, content, content, find?_set fs' hroot, if_neg (Ne.symm h)]

/-- A file is extended, or it stays as it was. -/
theorem content_append (fs : FileSystem) (current : Location) (p : Path) (bytes : ByteArray) :
    (fs.append current p bytes).1.content (target current p) = fs.content (target current p) ++
      if (fs.append current p bytes).2 then bytes.data.toList else [] := by
  obtain ⟨fs', hgrows, hwrite | ⟨new, hroot, hnew, hwrite⟩⟩ := write_cases fs current p (extension bytes)
  · rw [append, hwrite, content_of_grows hgrows]
    exact (List.append_nil _).symm
  · have hold : new.data.toList = fs'.content (target current p) ++ bytes.data.toList := by
      unfold content
      cases hentry : fs'.find? (target current p) with
      | none =>
        rw [hentry] at hnew
        obtain rfl := Option.some.inj hnew
        rfl
      | some e =>
        rw [hentry] at hnew
        cases e with
        | file old =>
          obtain rfl := Option.some.inj hnew
          exact ByteArray.toList_data_append
        | directory => cases hnew
        | socket => cases hnew
    rw [append, hwrite, ← content_of_grows hgrows, if_pos rfl, ← hold, content, find?_set fs' hroot, if_pos rfl]

end SpawnGate.FileSystem
