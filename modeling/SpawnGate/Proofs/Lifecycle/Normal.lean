import SpawnGate.Proofs.Calendar.Validity
import SpawnGate.Proofs.Lifecycle.Log

/-!
Events are read from far more texts than they are written as: fields in any order or in an array, unknown fields, any
offset. Reading one and writing it again gives the one text of that event, and to read and write that changes nothing.
-/

namespace SpawnGate

namespace Json

def Number.IsInteger : Number → Prop
  | .integer _ => True
  | .double _ => False

namespace Value

theorem allNumbers_isWord {v : Value} (hrange : v.NumbersInRange) (h : v.AllNumbers Number.IsInteger) :
    v.AllNumbers Number.IsWord := by
  induction h with
  | null => exact .null
  | boolean b => exact .boolean b
  | @number n hn =>
    cases hrange with
    | number hrange =>
      cases n with
      | integer n => exact .number hrange
      | double x => exact absurd hn id
  | string s => exact .string s
  | array _ ih =>
    cases hrange with
    | array hrange => exact .array fun v hv => ih v hv (hrange v hv)
  | object _ ih =>
    cases hrange with
    | object hrange => exact .object fun m hm => ih m hm (hrange m hm)

end Value

end Json

open Json Calendar

namespace Event

theorem receivedAt_and_payload_of_ofSlots? {slots : List Slot} {e : Event} (h : ofSlots? slots = some e) :
    (∃ s, Instant.ofText? s = some e.receivedAt) ∧
      (e.payload = .null ∨ ∃ t, Value.ofTree? payloadDepth t = some e.payload) := by
  unfold ofSlots? at h
  split at h
  · rename_i kind sessionId agent team receivedAt source reason processId payload
    simp only [Option.bind_eq_bind, Option.bind_eq_some_iff, Option.pure_def, Option.some.injEq] at h
    obtain ⟨_, -, _, -, _, -, _, -, t, ht, _, -, _, -, _, -, v, hv, rfl⟩ := h
    constructor
    · cases receivedAt with
      | given r =>
        obtain ⟨s, -, hs⟩ := Option.bind_eq_some_iff.mp ht
        exact ⟨s, hs⟩
      | unnamed => cases ht
      | unplaced => cases ht
    · cases payload with
      | given r => exact .inr ⟨r, hv⟩
      | unnamed => exact .inl (Option.some.inj hv).symm
      | unplaced => exact .inl (Option.some.inj hv).symm
  · cases h

theorem lossless_of_ofText? {s : String} {e : Event} (h : ofText? s = some e)
    (hnumbers : e.payload.AllNumbers Number.IsInteger) : e.Lossless := by
  obtain ⟨t, -, ht⟩ := Option.bind_eq_some_iff.mp h
  obtain ⟨slots, -, hslots⟩ := Option.bind_eq_some_iff.mp ht
  obtain ⟨⟨r, hr⟩, hpayload⟩ := receivedAt_and_payload_of_ofSlots? hslots
  have hvalid := Instant.isValid_of_ofText? hr
  rcases hpayload with hnull | ⟨p, hp⟩
  · rw [hnull] at hnumbers
    refine ⟨hvalid, ?_, ?_, ?_⟩
    · rw [hnull]
      exact .null
    · rw [hnull]
      exact .null
    · rw [hnull]
      exact Nat.zero_le 126
  · refine ⟨hvalid, Value.ordered_of_ofTree? hp, ?_, Value.depth_le_of_ofTree? hp⟩
    exact Value.allNumbers_isWord (Value.numbersInRange_of_ofTree? hp) hnumbers

/-- What is written for an event that was read is read as that event, and written again as the same text. -/
theorem reread_of_ofText? {s : String} {e : Event} (h : ofText? s = some e)
    (hnumbers : e.payload.AllNumbers Number.IsInteger) :
    ofText? e.line = some e ∧ (ofText? e.line).map line = some e.line := by
  have hread := ofText?_line_of_lossless (lossless_of_ofText? h hnumbers)
  refine ⟨hread, ?_⟩
  rw [hread, Option.map_some]

/-- An array of the fields up to the time, which is in a leap second and ahead of universal time. -/
def placedText : String :=
  "[\x7b\"session_end\":null\x7d,\"s\",null,\"t\",\"2024-01-01T01:04:60.25+02:00\"]"

def placedEvent : Event :=
  { bare .sessionEnd "s" ⟨⟨2023, 12, 31⟩, 83099, 1250000000⟩ with team := some "t" }

/-- An object with a payload that has a key twice, and with a member that is of no event. -/
def namedTree (count size : Numeral) : Tree :=
  .object [(symbolsOf "payload", .object [(symbolsOf "b", .boolean true), (symbolsOf "a", .array [.number count]),
      (symbolsOf "b", .null)]),
    (symbolsOf "source", .null), (symbolsOf "received_at", .string (symbolsOf "2024-01-02 03:04:05z")),
    (symbolsOf "size", .number size), (symbolsOf "session_id", .string (symbolsOf "s")),
    (symbolsOf "event", .string (symbolsOf "teammate_idle"))]

def namedText : String :=
  "\x7b\"payload\":\x7b\"b\":true,\"a\":[-1],\"b\":null\x7d,\"source\":null," ++
    "\"received_at\":\"2024-01-02 03:04:05z\",\"size\":1e999,\"session_id\":\"s\",\"event\":\"teammate_idle\"\x7d"

theorem ofText?_namedText :
    Tree.ofText? namedText = some (namedTree ⟨true, [1], [], none⟩ ⟨false, [1], [], some (false, [9, 9, 9])⟩) :=
  (Tree.ofText?_eq_some_iff _ _).mpr (Token.spells_of_scan (by decide +kernel))

def namedEvent : Event :=
  { bare .teammateIdle "s" ⟨⟨2024, 1, 2⟩, 11045, 0⟩ with
    payload := .object [("a", .array [.number (.integer (-1))]), ("b", .null)] }

theorem reread_of_ofText?_placed_and_named :
    ofText? placedText = some placedEvent ∧ ofText? namedText = some namedEvent ∧
      placedEvent.payload.AllNumbers Number.IsInteger ∧ namedEvent.payload.AllNumbers Number.IsInteger ∧
      ofText? placedEvent.line = some placedEvent ∧ ofText? namedEvent.line = some namedEvent ∧
      (ofText? placedEvent.line).map line = some placedEvent.line ∧
      (ofText? namedEvent.line).map line = some namedEvent.line := by
  have hplaced : ofText? placedText = some placedEvent := by rfl
  have hnamed : ofText? namedText = some namedEvent := by
    have hslots (count size : Numeral) : slots? fieldNames (namedTree count size) =
        some [.given (.string (symbolsOf "teammate_idle")), .given (.string (symbolsOf "s")), .unnamed, .unnamed,
          .given (.string (symbolsOf "2024-01-02 03:04:05z")), .given .null, .unnamed, .unnamed,
          .given (.object [(symbolsOf "b", .boolean true), (symbolsOf "a", .array [.number count]),
            (symbolsOf "b", .null)])] := by
      simp [slots?, namedTree, namedMembers?, text?_symbolsOf, namedSlot?, fieldNames]
    have hkind :
        (Tree.string (symbolsOf "teammate_idle")).alternative?.bind EventKind.ofName? = some .teammateIdle := by
      rw [Tree.alternative?, text?_symbolsOf]
      exact EventKind.ofName?_name .teammateIdle
    have htime : Instant.ofText? "2024-01-02 03:04:05z" = some namedEvent.receivedAt := by decide +kernel
    rw [ofText?, ofText?_namedText, Option.bind_some, ofTree?, hslots, Option.bind_some]
    simp only [ofSlots?, Slot.required, Tree.string?, text?_symbolsOf, Option.bind_some, hkind, htime]
    rfl
  have hnone : placedEvent.payload.AllNumbers Number.IsInteger := .null
  have hinteger : namedEvent.payload.AllNumbers Number.IsInteger := by
    refine .object (List.forall_mem_cons.mpr ⟨.array ?_, List.forall_mem_singleton.mpr .null⟩)
    exact List.forall_mem_singleton.mpr (.number trivial)
  obtain ⟨hplacedRead, hplacedLine⟩ := reread_of_ofText? hplaced hnone
  obtain ⟨hnamedRead, hnamedLine⟩ := reread_of_ofText? hnamed hinteger
  exact ⟨hplaced, hnamed, hnone, hinteger, hplacedRead, hnamedRead, hplacedLine, hnamedLine⟩

end Event

end SpawnGate
