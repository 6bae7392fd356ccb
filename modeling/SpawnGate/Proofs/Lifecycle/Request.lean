import SpawnGate.Daemon
import SpawnGate.Proofs.Json.Inline
import SpawnGate.Proofs.Json.ReadBack
import SpawnGate.Proofs.Lifecycle.Line

/-!
The daemon's line of an event. It tells what the log's line tells, in another order and without the
hook's own input, and it is read back whatever that input was.
-/

namespace SpawnGate

open Json Layout

namespace Json

theorem Tree.ofText?_newline {s : String} {t : Tree} (h : Tree.ofText? s = some t) :
    Tree.ofText? (s ++ "\n") = some t := by
  rw [Tree.ofText?_eq_some_iff] at h ⊢
  have hspace : Token.Spells [] ['\n'] := .space rfl .nil
  have hspelled := Token.Spells.append h hspace
  rw [List.append_nil] at hspelled
  rw [String.toList_append]
  exact hspelled

theorem Value.ofText?_text (v : Value) : Tree.ofText? v.text = some v.tree := by
  rw [Tree.ofText?_eq_some_iff, Value.text, String.toList_ofList]
  exact v.written_tree

end Json

namespace Event

theorem fields_withPayload_null (e : Event) : (e.withPayload .null).fields = e.summary :=
  List.append_nil e.summary

theorem nodup_keys_summary (e : Event) : (e.summary.map (·.1)).Nodup := by
  rw [← fields_withPayload_null]
  exact nodup_keys_fields _

theorem key_ne_payload {e : Event} {m : String × Value} (hm : m ∈ e.summary) : m.1 ≠ "payload" := by
  have hnone : (e.summary).filter (·.1 = "payload") = present "payload" none := by
    rw [← fields_withPayload_null, fields_eq]
    apply filter_fields (nodup_layout _)
    simp [layout, loggedPayload, withPayload, Value.isNull]
  have hother := List.filter_eq_nil_iff.mp hnone m hm
  rwa [decide_eq_true_eq] at hother

theorem filter_fields_eq_summary (e : Event) : e.fields.filter (·.1 ≠ "payload") = e.summary := by
  have hsummary : e.summary.filter (·.1 ≠ "payload") = e.summary := by
    apply List.filter_eq_self.mpr
    intro m hm
    rw [decide_eq_true_eq]
    exact key_ne_payload hm
  rw [fields, List.filter_append, hsummary]
  split
  · exact List.append_nil _
  · exact List.append_nil _

/-- Nothing of the payload is left in what the daemon gets, nor of its place. -/
theorem daemonPayload_eq (e : Event) : e.daemonPayload = .object (Members.ofList e.summary) := by
  have herased : (Members.erase "payload" (Members.ofList e.fields)).Perm e.summary := by
    have hperm := (Members.ofList_perm e.nodup_keys_fields).filter (·.1 ≠ "payload")
    rwa [filter_fields_eq_summary] at hperm
  have hsame := herased.trans (Members.ofList_perm e.nodup_keys_summary).symm
  have hascending : Members.Ascending (Members.erase "payload" (Members.ofList e.fields)) :=
    (Members.ascending_ofList e.fields).filter _
  rw [daemonPayload, Members.eq_of_perm hascending (Members.ascending_ofList e.summary) hsame]

/-- A text, null or an integer of 64 bits. -/
def IsPlain (v : Value) : Prop :=
  v.Ordered ∧ v.AllNumbers Number.IsWord ∧ v.depth = 0

theorem isPlain_string (s : String) : IsPlain (.string s) :=
  ⟨.string s, .string s, rfl⟩

theorem isPlain_stringOrNull (s : Option String) : IsPlain (stringOrNull s) := by
  cases s with
  | none => exact ⟨.null, .null, rfl⟩
  | some s => exact isPlain_string s

theorem isPlain_processId (p : UInt32) : IsPlain (.number (.integer p.toNat)) := by
  have hlimit : p.toNat < UInt32.size := p.toNat_lt
  refine ⟨.number _, .number ⟨?_, ?_⟩, rfl⟩
  · exact le_trans (by decide) (Int.natCast_nonneg p.toNat)
  · exact lt_trans (Int.ofNat_lt.mpr hlimit) (by decide)

theorem isPlain_of_mem_present {α : Type} {name : String} {toValue : α → Value}
    (h : ∀ a, IsPlain (toValue a)) {x : Option α} {m : String × Value} (hm : m ∈ present name (x.map toValue)) :
    IsPlain m.2 := by
  cases x with
  | none => cases hm
  | some a =>
    obtain rfl := List.mem_singleton.mp hm
    exact h a

theorem isPlain_of_mem_summary {e : Event} {m : String × Value} (hm : m ∈ e.summary) : IsPlain m.2 := by
  rw [summary, List.mem_append, List.mem_append, List.mem_append] at hm
  rcases hm with ((hm | hm) | hm) | hm
  · simp only [List.mem_cons, List.not_mem_nil, or_false] at hm
    rcases hm with rfl | rfl | rfl | rfl | rfl
    · exact isPlain_string _
    · exact isPlain_string _
    · exact isPlain_stringOrNull _
    · exact isPlain_stringOrNull _
    · exact isPlain_string _
  · exact isPlain_of_mem_present (fun s => isPlain_string _) hm
  · exact isPlain_of_mem_present isPlain_string hm
  · exact isPlain_of_mem_present isPlain_processId hm

theorem ofTree?_daemonPayload (e : Event) : Value.ofTree? payloadDepth e.daemonPayload.tree = some e.daemonPayload := by
  have hplain : ∀ m ∈ Members.ofList e.summary, IsPlain m.2 :=
    fun m hm => isPlain_of_mem_summary (Members.mem_of_mem_ofList hm)
  rw [daemonPayload_eq]
  apply Value.ofTree?_tree_of_words
  · exact .object (Members.ascending_ofList _) fun m hm => (hplain m hm).1
  · exact .object fun m hm => (hplain m hm).2.1
  · apply Nat.succ_le_succ
    rw [Value.memberDepth_le_iff]
    intro m hm
    rw [(hplain m hm).2.2]
    exact Nat.zero_le _

theorem ofText?_daemonPayload {e : Event} (h : e.receivedAt.IsValid) :
    ofText? e.daemonPayload.text = some (e.withPayload .null) := by
  have hreceived : (e.withPayload .null).receivedAt.IsValid := h
  have hperm : (Members.ofList e.summary).Perm (e.withPayload .null).fields := by
    rw [fields_withPayload_null]
    exact Members.ofList_perm e.nodup_keys_summary
  rw [ofText?, Value.ofText?_text, Option.bind_some, daemonPayload_eq, Value.tree]
  exact ofTree?_of_perm hreceived hperm

end Event

namespace DaemonRequest

def layout (r : DaemonRequest) : Layout :=
  [("version", some (.number (.integer r.version.toNat))), ("request_id", some (.string r.requestId)),
    ("command", some (.string r.command)), ("payload", some r.payload)]

theorem ofText?_line (r : DaemonRequest) :
    ofText? r.line = (Value.ofTree? Event.payloadDepth r.payload.tree).map fun payload => { r with payload } := by
  have htree : Tree.ofText? r.line = some (.object (Value.memberTrees r.fields)) :=
    Tree.ofText?_newline ((Tree.ofText?_eq_some_iff _ _).mpr (Value.written_recordText r.fields))
  have hnodup : (r.layout.map (·.1)).Nodup := by
    change fieldNames.Nodup
    decide
  have hslots : slots? fieldNames (.object (Value.memberTrees r.fields)) = some (r.layout.map fun m => slotOf m.2) :=
    slots?_of_perm hnodup (.refl _)
  have hversion := natBelow?_tree r.version.toNat_lt
  rw [ofText?, htree, Option.bind_some, hslots, Option.bind_some]
  simp only [layout, List.map_cons, List.map_nil, ofSlots?, required_slotOf, string?_tree, hversion,
    Option.bind_eq_bind, Option.bind_some, UInt32.ofNat_toNat]
  cases Value.ofTree? Event.payloadDepth r.payload.tree <;> rfl

theorem ofText?_hookEvent (e : Event) (requestId : String) :
    ofText? (hookEvent e requestId).line = some (hookEvent e requestId) := by
  have hpayload : (hookEvent e requestId).payload = e.daemonPayload := rfl
  rw [ofText?_line, hpayload, e.ofTree?_daemonPayload]
  rfl

theorem hookEvent_withPayload (e : Event) (payload : Value) (requestId : String) :
    hookEvent (e.withPayload payload) requestId = hookEvent e requestId := by
  rw [hookEvent, hookEvent, Event.daemonPayload_eq, Event.daemonPayload_eq]
  rfl

/-- The daemon gets one line for an event, with the fields of the log's line but for the hook's own input. The line
does not depend on that input, and the event is read back from it. -/
theorem hookEvent_line_tells (e : Event) (requestId : String) (h : e.receivedAt.IsValid) :
    ∃ body members, (hookEvent e requestId).line = body ++ "\n" ∧ '\n' ∉ body.toList ∧
      ofText? (hookEvent e requestId).line = some ⟨1, requestId, "hook-event", .object members⟩ ∧
      Tree.ofText? e.line = some (.object (Value.memberTrees e.fields)) ∧
      members.Perm (e.fields.filter (·.1 ≠ "payload")) ∧ (∀ m ∈ members, m.1 ≠ "payload") ∧
      Event.ofText? (Value.object members).text = some (e.withPayload .null) ∧
      ∀ payload, (hookEvent (e.withPayload payload) requestId).line = (hookEvent e requestId).line := by
  have hperm : (Members.ofList e.summary).Perm e.summary := Members.ofList_perm e.nodup_keys_summary
  refine ⟨recordText (hookEvent e requestId).fields, Members.ofList e.summary, rfl, ?_, ?_, e.tree_line, ?_, ?_,
    ?_, fun payload => ?_⟩
  · exact (inline_recordText _).newline_not_mem
  · rw [← Event.daemonPayload_eq]
    exact ofText?_hookEvent e requestId
  · rw [Event.filter_fields_eq_summary]
    exact hperm
  · intro m hm
    exact Event.key_ne_payload (hperm.mem_iff.mp hm)
  · rw [← Event.daemonPayload_eq]
    exact Event.ofText?_daemonPayload h
  · rw [hookEvent_withPayload]

def boxed : Nat → Value
  | 0 => .null
  | n + 1 => .array [boxed n]

/-- An event whose input is nested too deeply for its line in the log to be read. -/
def boxedEvent : Event :=
  ((Event.sessionStart "s\n" .compact ⟨⟨2024, 1, 2⟩, 0, 0⟩ 7).withIdentity (some "\"") none).withPayload (boxed 300)

theorem hookEvent_line_tells_boxed :
    boxedEvent.receivedAt.IsValid ∧ ∃ members,
      ofText? (hookEvent boxedEvent "r").line = some ⟨1, "r", "hook-event", .object members⟩ ∧
      Event.ofText? (Value.object members).text = some (boxedEvent.withPayload .null) := by
  have hreceived : boxedEvent.receivedAt.IsValid := by decide
  obtain ⟨-, members, -, -, hrequest, -, -, -, hevent, -⟩ := hookEvent_line_tells boxedEvent "r" hreceived
  exact ⟨hreceived, members, hrequest, hevent⟩

end DaemonRequest

end SpawnGate
