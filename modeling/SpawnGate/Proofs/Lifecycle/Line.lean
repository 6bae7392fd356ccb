import SpawnGate.Proofs.Calendar.Reading
import SpawnGate.Proofs.Lifecycle.Layout

/-!
An event is read back from its line: all of it but the payload as it was, and the payload wherever it
has room.
-/

namespace SpawnGate

open Json Calendar Layout

namespace Event

/-- The payload as far as it is written. -/
def loggedPayload (e : Event) : Option Value :=
  if e.payload.isNull then none else some e.payload

def layout (e : Event) : Layout :=
  [("event", some (.string e.kind.name)), ("session_id", some (.string e.sessionId)),
    ("agent", some (stringOrNull e.agent)), ("team", some (stringOrNull e.team)),
    ("received_at", some (.string e.receivedAt.write)),
    ("source", e.source.map fun s => .string s.name), ("reason", e.reason.map .string),
    ("process_id", e.processId.map fun p => .number (.integer p.toNat)), ("payload", e.loggedPayload)]

theorem fields_eq (e : Event) : e.fields = e.layout.fields := by
  have hpayload : (if e.payload.isNull then [] else [("payload", e.payload)]) =
      present "payload" e.loggedPayload := by
    unfold loggedPayload
    split <;> rfl
  rw [Event.fields, hpayload]
  simp only [summary, layout, Layout.fields, List.flatMap_cons, List.flatMap_nil, List.append_assoc,
    List.append_nil]
  rfl

theorem nodup_layout (e : Event) : (e.layout.map (·.1)).Nodup := by
  have hnames : e.layout.map (·.1) = fieldNames := rfl
  rw [hnames]
  decide

theorem nodup_keys_fields (e : Event) : (e.fields.map (·.1)).Nodup := by
  rw [fields_eq]
  exact e.nodup_layout.sublist (Layout.keys_fields_sublist _)

def payloadRead (e : Event) : Option Value :=
  (slotOf e.loggedPayload).defaulted (Value.ofTree? payloadDepth) .null

/-- An event is read from its fields, in whatever order they come. -/
theorem ofTree?_of_perm {e : Event} (h : e.receivedAt.IsValid) {members : List (String × Value)}
    (hperm : members.Perm e.fields) :
    ofTree? (.object (Value.memberTrees members)) = e.payloadRead.map fun payload => { e with payload } := by
  have hslots : slots? fieldNames (.object (Value.memberTrees members)) =
      some (e.layout.map fun m => slotOf m.2) := by
    rw [fields_eq] at hperm
    exact Layout.slots?_of_perm e.nodup_layout hperm
  have hsource : (slotOf (e.source.map fun s => .string s.name)).defaulted
      (Slot.nullable fun t => t.alternative?.bind StartSource.ofName?) none = some (e.source.map id) := by
    apply defaulted_slotOf
    · intro s
      simp
    · intro s
      rw [alternative?_tree, Option.bind_some, StartSource.ofName?_name, id]
  have hreason : (slotOf (e.reason.map .string)).defaulted (Slot.nullable Tree.string?) none =
      some (e.reason.map id) := by
    apply defaulted_slotOf
    · intro s
      simp
    · intro s
      rw [string?_tree, id]
  have hprocess : (slotOf (e.processId.map fun p => .number (.integer p.toNat))).defaulted
      (Slot.nullable (Tree.natBelow? UInt32.size)) none = some (e.processId.map UInt32.toNat) := by
    apply defaulted_slotOf
    · intro p
      simp
    · intro p
      rw [natBelow?_tree p.toNat_lt]
  have hback : (e.processId.map UInt32.toNat).map UInt32.ofNat = e.processId := by
    cases e.processId <;> simp
  rw [ofTree?, hslots, Option.bind_some]
  simp only [layout, List.map_cons, List.map_nil, ofSlots?, required_slotOf, alternative?_tree, string?_tree,
    optional_stringOrNull, hsource, hreason, hprocess, Option.map_id_fun, id, hback, EventKind.ofName?_name,
    Instant.ofText?_write h, Option.bind_eq_bind, Option.bind_some]
  unfold payloadRead
  cases (slotOf e.loggedPayload).defaulted (Value.ofTree? payloadDepth) .null <;> rfl

theorem tree_line (e : Event) : Tree.ofText? e.line = some (.object (Value.memberTrees e.fields)) :=
  (Tree.ofText?_eq_some_iff _ _).mpr (Value.written_recordText e.fields)

theorem ofText?_line {e : Event} (h : e.receivedAt.IsValid) :
    ofText? e.line = e.payloadRead.map fun payload => { e with payload } := by
  rw [ofText?, tree_line, Option.bind_some, ofTree?_of_perm h (List.Perm.refl _)]

theorem isSome_payloadRead_iff {e : Event} (h : e.payload.NumbersInRange) :
    e.payloadRead.isSome = true ↔ e.payload.depth ≤ payloadDepth := by
  unfold payloadRead loggedPayload
  cases hpayload : e.payload with
  | null => simp [Value.isNull, slotOf, Slot.defaulted, Value.depth]
  | _ =>
    rw [hpayload] at h
    exact Value.isSome_ofTree?_tree_iff h payloadDepth

/-- What tells whose transition an event is. -/
def identity (e : Event) : EventKind × String × Option String × Option String :=
  (e.kind, e.sessionId, e.agent, e.team)

/-- An event is read back from its line exactly if its payload leaves room for the event around it. -/
theorem identity_ofText?_line {e : Event} (h : e.receivedAt.IsValid) (hpayload : e.payload.NumbersInRange) :
    (ofText? e.line).map identity = if e.payload.depth ≤ payloadDepth then some e.identity else none := by
  have hread := isSome_payloadRead_iff hpayload
  rw [ofText?_line h]
  split
  · rename_i hdepth
    obtain ⟨payload, hsome⟩ := Option.isSome_iff_exists.mp (hread.mpr hdepth)
    rw [hsome]
    rfl
  · rename_i hdepth
    rw [← hread, Bool.not_eq_true, Option.isSome_eq_false_iff, Option.isNone_iff_eq_none] at hdepth
    rw [hdepth]
    rfl

end Event

end SpawnGate
