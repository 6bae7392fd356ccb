import SpawnGate.Proofs.Json.Doubles
import SpawnGate.Proofs.Lifecycle.Hooks
import SpawnGate.Proofs.Lifecycle.Request
import SpawnGate.Proofs.Lifecycle.Sources

/-!
The hook's own input in the line of its event. It is written as it was parsed, and what is read from the line is the
same input up to its numbers: each of them is what the literal that was written for it is read as.
-/

namespace SpawnGate

open Json

namespace Json

theorem Tree.member?_concat {k : String} {m : List Symbol × Tree} (h : text? m.1 = some k)
    (members : List (List Symbol × Tree)) : member? k (members ++ [m]) = some m.2 := by
  induction members with
  | nil => exact if_pos h
  | cons n r ih =>
    rw [List.cons_append, member?, ih]
    rfl

theorem Value.memberTrees_concat (members : List (String × Value)) (m : String × Value) :
    memberTrees (members ++ [m]) = memberTrees members ++ [(symbolsOf m.1, m.2.tree)] := by
  rw [memberTrees_eq_map, memberTrees_eq_map, List.map_append, List.map_singleton]

end Json

namespace Event

theorem fields_of_payload {e : Event} (h : e.payload.isNull = false) :
    e.fields = e.summary ++ [("payload", e.payload)] := by
  rw [fields, h]
  rfl

theorem readableWithin_of_mem_fields {e : Event} (hnumbers : e.payload.NumbersInRange)
    (hdepth : e.payload.depth ≤ payloadDepth) (hnull : e.payload.isNull = false) {m : String × Value}
    (hm : m ∈ e.fields) : m.2.tree.ReadableWithin payloadDepth := by
  rw [← Value.isSome_ofTree?_iff]
  rw [fields_of_payload hnull, List.mem_append, List.mem_singleton] at hm
  rcases hm with hm | rfl
  · obtain ⟨-, hwords, hflat⟩ := isPlain_of_mem_summary hm
    have hrange := Value.numbersInRange_of_allNumbers (hwords.mono fun _ => Number.IsWord.inRange)
    rw [Value.isSome_ofTree?_tree_iff hrange, hflat]
    exact Nat.zero_le _
  · exact (Value.isSome_ofTree?_tree_iff hnumbers _).mpr hdepth

theorem exists_payload_of_line {e : Event} (hordered : e.payload.Ordered) (hnumbers : e.payload.NumbersInRange)
    (hdepth : e.payload.depth ≤ payloadDepth) (hnull : e.payload.isNull = false) :
    ∃ line, Value.ofText? e.line = some line ∧ line.get? "payload" = some e.payload.reread := by
  have hreadable : (Tree.object (Value.memberTrees e.fields)).ReadableWithin Value.greatestDepth := by
    apply (Tree.readableWithin_object_iff payloadDepth _).mpr
    rw [Value.memberTrees_eq_map, List.forall_mem_map]
    intro m hm
    refine ⟨?_, readableWithin_of_mem_fields hnumbers hdepth hnull hm⟩
    rw [text?_symbolsOf]
    rfl
  obtain ⟨line, hline⟩ := Option.isSome_iff_exists.mp ((Value.isSome_ofTree?_iff _ _).mpr hreadable)
  refine ⟨line, ?_, ?_⟩
  · rw [Value.ofText?, tree_line, Option.bind_some, hline]
  · rw [Value.get?_of_ofTree? hline, Tree.get?_object, fields_of_payload hnull, Value.memberTrees_concat,
      Tree.member?_concat (text?_symbolsOf _), Option.bind_some]
    exact Value.ofTree?_tree_eq_reread hordered hnumbers hdepth

end Event

namespace Invocation

theorem input_of_logged? {i : Invocation} {a : Arguments} {w : World} {log : String} {e : Event}
    (h : i.logged? a w = some (log, e)) :
    ∃ given, (String.fromUTF8? i.stdin).bind Value.ofText? = some (.object given) ∧ e.payload = .object given := by
  simp only [logged?, Option.bind_eq_bind, Option.bind_eq_some_iff, Option.pure_def, Option.some.injEq,
    Prod.mk.injEq] at h
  obtain ⟨home, -, config, -, e', hevent, -, rfl⟩ := h
  have hpayload := (payload?_of_event? hevent).1
  simp only [event?, Option.bind_eq_bind, Option.bind_eq_some_iff] at hevent
  obtain ⟨payload, hsame, id, hid, -⟩ := hevent
  obtain rfl := Option.some.inj (hpayload.symm.trans hsame)
  exact input_of_payload? hpayload hid

/-- The payload of a logged line is the hook's own input, with each number as the literal that was written for it is
read. Integers and doubles with short literals stay as they were. -/
theorem hook_payload_reads_back (i : Invocation) (w : World) {a : Arguments} {log : String} {e : Event}
    (harguments : CommandLine.read (i.environment rootVariable) i.arguments = .run a)
    (hhook : a.command.isLifecycle = true) (hlogged : i.logged? a w = some (log, e))
    (hdepth : e.payload.depth < Value.greatestDepth) :
    ((i.run : World.Run Outcome).run w).2.files =
        ((i.recordedIn w).appended log (e.line ++ "\n").toUTF8).files ∧
      ∃ given line, (String.fromUTF8? i.stdin).bind Value.ofText? = some (.object given) ∧
        e.payload = .object given ∧ Value.ofText? e.line = some line ∧
        line.get? "payload" = some (Value.object given).reread ∧
        (line.get? "payload" = some (.object given) ↔ (Value.object given).AllNumbers fun n => n.reread = n) ∧
        (Value.object given).AllNumbers fun n => n.IsWord ∨ n.numeral.IsShort → n.reread = n := by
  obtain ⟨given, hgiven, hpayload⟩ := input_of_logged? hlogged
  obtain ⟨text, -, htext⟩ := Option.bind_eq_some_iff.mp hgiven
  obtain ⟨t, -, ht⟩ := Option.bind_eq_some_iff.mp htext
  have hroom : e.payload.depth ≤ Event.payloadDepth := Nat.le_pred_of_lt hdepth
  have hnull : e.payload.isNull = false := by
    rw [hpayload]
    rfl
  rw [← hpayload] at ht
  obtain ⟨line, hline, hmember⟩ := Event.exists_payload_of_line (Value.ordered_of_ofTree? ht)
    (Value.numbersInRange_of_ofTree? ht) hroom hnull
  refine ⟨files_run_of_logged? harguments hhook hlogged, given, line, hgiven, hpayload, hline, ?_, ?_, ?_⟩
  · rw [hmember, hpayload]
  · rw [hmember, hpayload, Option.some.injEq]
    exact Value.mapNumbers_eq_self_iff _ _
  · rw [← hpayload]
    exact Value.allNumbers_reread_of_ofTree? ht

def measuredTree (n : Numeral) : Tree :=
  .object [(symbolsOf "session_id", .string (symbolsOf "s")), (symbolsOf "x", .number n)]

def measured (n : Number) : List (String × Value) :=
  [("session_id", .string "s"), ("x", .number n)]

theorem ofText?_measured {text : String} {l : Numeral} {n : Number}
    (htext : Token.scan text.toList = some (measuredTree l).tokens) (hn : Number.ofNumeral? l = some n) :
    Value.ofText? text = some (.object (measured n)) := by
  have horder : ¬ "x" < "session_id" := by decide
  rw [Value.ofText?_of_written (Token.spells_of_scan htext)]
  simp [measuredTree, Value.greatestDepth, Value.ofTree?, Value.ofMembers?, text?_symbolsOf, hn, Members.ofList,
    Members.put, horder, measured]

theorem field?_measured (n : Number) : Hook.field? (.object (measured n)) "session_id" = some "s" := by
  have hid : Text.usable "s" = some "s" := by decide +kernel
  exact hid

def half : Number := .double ⟨false, 4503599627370496, -53⟩

def halfInput : String := "\x7b\"session_id\":\"s\",\"x\":0.5\x7d"

theorem ofText?_halfInput : Value.ofText? halfInput = some (.object (measured half)) :=
  ofText?_measured (l := ⟨false, [0], [5], none⟩) (by decide +kernel) (by decide +kernel)

theorem hook_payload_reads_back_half :
    CommandLine.read ((ending halfInput).environment rootVariable) (ending halfInput).arguments =
        .run endingArguments ∧
      endingArguments.command.isLifecycle = true ∧
      (ending halfInput).logged? endingArguments orchestrated =
        some (Locations.eventLog "/h", endedEvent (.object (measured half))) ∧
      (endedEvent (.object (measured half))).payload.depth < Value.greatestDepth ∧
      ∃ line, Value.ofText? (endedEvent (.object (measured half))).line = some line ∧
        line.get? "payload" = some (.object (measured half)) := by
  have hread : CommandLine.read ((ending halfInput).environment rootVariable) (ending halfInput).arguments =
      .run endingArguments := by decide +kernel
  have hlogged := logged?_ending ofText?_halfInput (field?_measured half)
  have hdepth : (endedEvent (.object (measured half))).payload.depth < Value.greatestDepth := by decide
  obtain ⟨-, given, line, -, hpayload, hline, -, hkept, -⟩ :=
    hook_payload_reads_back (ending halfInput) orchestrated hread rfl hlogged hdepth
  obtain rfl : measured half = given := Value.object.inj hpayload
  have hnumbers : (Value.object (measured half)).AllNumbers fun n => n.reread = n := by
    refine .object (List.forall_mem_cons.mpr ⟨.string "s", List.forall_mem_singleton.mpr (.number ?_)⟩)
    decide +kernel
  exact ⟨hread, rfl, hlogged, hdepth, line, hline, hkept.mpr hnumbers⟩

def large : Number := .double ⟨false, 4656612873077392, 31⟩

def largeInput : String := "\x7b\"session_id\":\"s\",\"x\":1.0e25\x7d"

theorem ofText?_largeInput : Value.ofText? largeInput = some (.object (measured large)) :=
  ofText?_measured (l := ⟨false, [1], [0], some (false, [2, 5])⟩) (by decide +kernel) (by decide +kernel)

/-- A hook that is given a number which does not survive two readings: the log says another one. -/
theorem exists_payload_changed :
    ∃ (i : Invocation) (w : World) (a : Arguments) (log : String) (e : Event) (line : Value),
      CommandLine.read (i.environment rootVariable) i.arguments = .run a ∧ a.command.isLifecycle = true ∧
      i.logged? a w = some (log, e) ∧ e.payload.depth < Value.greatestDepth ∧
      (String.fromUTF8? i.stdin).bind Value.ofText? = some e.payload ∧
      ((i.run : World.Run Outcome).run w).2.files =
        ((i.recordedIn w).appended log (e.line ++ "\n").toUTF8).files ∧
      ((i.recordedIn w).files.append w.directory (Path.ofText log) (e.line ++ "\n").toUTF8).2 = true ∧
      Value.ofText? e.line = some line ∧ line.get? "payload" ≠ some e.payload := by
  have hread : CommandLine.read ((ending largeInput).environment rootVariable) (ending largeInput).arguments =
      .run endingArguments := by decide +kernel
  have hlogged := logged?_ending ofText?_largeInput (field?_measured large)
  have hdepth : (endedEvent (.object (measured large))).payload.depth < Value.greatestDepth := by decide
  obtain ⟨line, hline, hmember⟩ : ∃ line, Value.ofText? (endedEvent (.object (measured large))).line = some line ∧
      line.get? "payload" = some (Value.object (measured large)).reread := by
    obtain ⟨t, -, ht⟩ := Option.bind_eq_some_iff.mp ofText?_largeInput
    exact Event.exists_payload_of_line (e := endedEvent (.object (measured large))) (Value.ordered_of_ofTree? ht)
      (Value.numbersInRange_of_ofTree? ht) (by decide) rfl
  refine ⟨ending largeInput, orchestrated, endingArguments, Locations.eventLog "/h",
    endedEvent (.object (measured large)), line, hread, rfl, hlogged, hdepth, ?_,
    files_run_of_logged? hread rfl hlogged, append_succeeds_ending ofText?_largeInput (field?_measured large) _,
    hline, ?_⟩
  · rw [ending, World.fromUTF8?_toUTF8, Option.bind_some]
    exact ofText?_largeInput
  · rw [hmember]
    intro hsame
    have hnumbers := (Value.mapNumbers_eq_self_iff _ _).mp (Option.some.inj hsame)
    have hchanged : large.reread ≠ large := by decide +kernel
    cases hnumbers with
    | object hnumbers =>
      cases hnumbers ("x", .number large) (by simp [measured]) with
      | number h => exact hchanged h

end Invocation

end SpawnGate
