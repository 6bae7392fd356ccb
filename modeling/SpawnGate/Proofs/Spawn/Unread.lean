import SpawnGate.Proofs.Spawn.Gate

/-!
What the members that a gate does not read can do to a spawn request: change nothing, as long as the
whole input can be read as a value; and otherwise hide the request.
-/

namespace SpawnGate

open Json

namespace Hook

def toolKeys : List String := ["subagent_type", "agent_kind", "name", "team_name"]

def keepKeys (keys : List String) (members : List (List Symbol × Tree)) : List (List Symbol × Tree) :=
  members.filter fun m => decide (∃ k ∈ keys, text? m.1 = some k)

def keepTool : Tree → Tree
  | .object inner => .object (keepKeys toolKeys inner)
  | t => t

/-- An input's members as far as the gate reads them. -/
def readPart (members : List (List Symbol × Tree)) : List (List Symbol × Tree) :=
  (keepKeys ["session_id", SpawnRequest.toolField] members).map fun m =>
    if text? m.1 = some SpawnRequest.toolField then (m.1, keepTool m.2) else m

theorem member?_keepKeys {keys : List String} {k : String} (h : k ∈ keys)
    (members : List (List Symbol × Tree)) :
    Tree.member? k (keepKeys keys members) = Tree.member? k members := by
  induction members with
  | nil => rfl
  | cons m r ih =>
    rw [keepKeys, List.filter_cons]
    split
    · rw [Tree.member?, Tree.member?]
      exact congrArg (Option.or · _) ih
    · rename_i hkey
      have hne : text? m.1 ≠ some k := by
        intro hk
        exact hkey (decide_eq_true ⟨k, h, hk⟩)
      rw [Tree.member?, if_neg hne, Option.or_none]
      exact ih

theorem member?_readPart_session (members : List (List Symbol × Tree)) :
    Tree.member? "session_id" (readPart members) = Tree.member? "session_id" members := by
  rw [readPart, Tree.member?_map (g := id), Option.map_id, id, member?_keepKeys (by decide)]
  · intro m
    split <;> rfl
  · intro m hm
    rw [if_neg]
    · rfl
    · rw [hm]
      decide

theorem member?_readPart_tool (members : List (List Symbol × Tree)) :
    Tree.member? SpawnRequest.toolField (readPart members) =
      (Tree.member? SpawnRequest.toolField members).map keepTool := by
  rw [readPart, Tree.member?_map (g := keepTool), member?_keepKeys (by decide)]
  · intro m
    split <;> rfl
  · intro m hm
    rw [if_pos hm]

theorem get?_keepTool {k : String} (h : k ∈ toolKeys) (t : Tree) : (keepTool t).get? k = t.get? k := by
  cases t with
  | object inner => exact member?_keepKeys h inner
  | _ => rfl

theorem textIn?_readPart_session (members : List (List Symbol × Tree)) :
    textIn? ["session_id"] (.object (readPart members)) = textIn? ["session_id"] (.object members) := by
  simp only [textIn?, Tree.get?_object, member?_readPart_session]

theorem textIn?_readPart_tool {k : String} (h : k ∈ toolKeys) (members : List (List Symbol × Tree)) :
    textIn? [SpawnRequest.toolField, k] (.object (readPart members)) =
      textIn? [SpawnRequest.toolField, k] (.object members) := by
  simp only [textIn?, Tree.get?_object, member?_readPart_tool, Option.bind_map]
  congr 1
  funext t
  rw [Function.comp_apply, get?_keepTool h]

end Hook

namespace SpawnRequest

open Hook

theorem ofTree_readPart (members : List (List Symbol × Tree)) :
    ofTree (.object (readPart members)) = ofTree (.object members) := by
  have htool {k : String} (h : k ∈ toolKeys) := textIn?_readPart_tool h members
  simp only [ofTree, htool (show "subagent_type" ∈ toolKeys by decide),
    htool (show "agent_kind" ∈ toolKeys by decide), htool (show "name" ∈ toolKeys by decide),
    htool (show "team_name" ∈ toolKeys by decide), textIn?_readPart_session]

end SpawnRequest

namespace Invocation

open Hook

/-- The same run with another input. -/
def given (i : Invocation) (s : String) : Invocation :=
  { i with stdin := s.toUTF8 }

theorem request_given (i : Invocation) (s : String) :
    (String.fromUTF8? (i.given s).stdin).bind SpawnRequest.ofText? = SpawnRequest.ofText? s := by
  have htext : String.fromUTF8? (i.given s).stdin = some s := World.fromUTF8?_toUTF8 s
  rw [htext, Option.bind_some]

theorem gate_given {m : Type → Type} [Monad m] [Host m] (i : Invocation) {s s' : String}
    (h : SpawnRequest.ofText? s = SpawnRequest.ofText? s') (root : String) :
    ((i.given s).gate root : m Outcome) = (i.given s').gate root := by
  unfold gate
  rw [request_given, request_given, h]
  rfl

/-- On a text that is an object, members that the gate does not read keep the request from being
found exactly where the text as a whole cannot be read as a value, and they do nothing else. -/
theorem gate_given_unread {s : String} {members : List (List Symbol × Tree)}
    (h : (Tree.object members).Written s.toList) :
    (SpawnRequest.ofText? s = none ↔ ¬ (Tree.object members).ReadableWithin Value.greatestDepth) ∧
      ∀ {s' : String} {members' : List (List Symbol × Tree)}, (Tree.object members').Written s'.toList →
        readPart members' = readPart members →
        (SpawnRequest.ofText? s' = SpawnRequest.ofText? s ↔
          ((Tree.object members').ReadableWithin Value.greatestDepth ↔
            (Tree.object members).ReadableWithin Value.greatestDepth)) ∧
        ∀ (i : Invocation) (root : String) (w : World),
          (((i.given s').gate root : World.Run Outcome).run w).1.status = 2 →
          ((((i.given s).gate root : World.Run Outcome).run w).1.status = 2 ↔
            (Tree.object members).ReadableWithin Value.greatestDepth) := by
  have hs := SpawnRequest.ofText?_of_written h
  have hallowed {s : String} (hnone : SpawnRequest.ofText? s = none) (i : Invocation) (root : String)
      (w : World) : (((i.given s).gate root : World.Run Outcome).run w).1.status ≠ 2 := by
    rw [run_gate_of_none root w ((request_given i s).trans hnone)]
    exact (by decide : Outcome.silent.status ≠ 2)
  constructor
  · rw [hs]
    split <;> simp_all
  · intro s' members' h' hpart
    have hs' := SpawnRequest.ofText?_of_written h'
    have hrequest : SpawnRequest.ofTree (.object members') = SpawnRequest.ofTree (.object members) := by
      rw [← SpawnRequest.ofTree_readPart members', hpart, SpawnRequest.ofTree_readPart]
    rw [hrequest] at hs'
    refine ⟨?_, fun i root w hblocked => ?_⟩
    · rw [hs, hs']
      by_cases hreadable : (Tree.object members).ReadableWithin Value.greatestDepth <;>
        by_cases hreadable' : (Tree.object members').ReadableWithin Value.greatestDepth <;>
          simp [hreadable, hreadable']
    · by_cases hreadable : (Tree.object members).ReadableWithin Value.greatestDepth
      · have hreadable' : (Tree.object members').ReadableWithin Value.greatestDepth := by
          by_contra hno
          rw [if_neg hno] at hs'
          exact hallowed hs' i root w hblocked
        rw [if_pos hreadable] at hs
        rw [if_pos hreadable'] at hs'
        rw [gate_given i (hs.trans hs'.symm) root]
        exact iff_of_true hblocked hreadable
      · rw [if_neg hreadable] at hs
        exact iff_of_false (hallowed hs i root w) hreadable

def symbols (s : String) : List Symbol :=
  s.toList.map .plain

/-- A spawn of an orchestrator without a name. -/
def openSpawn : List (List Symbol × Tree) :=
  [(symbols "session_id", .string (symbols "s")),
    (symbols "tool_input", .object [(symbols "subagent_type", .string (symbols "scrum-master"))])]

def openText : String :=
  "\x7b\"session_id\":\"s\",\"tool_input\":\x7b\"subagent_type\":\"scrum-master\"\x7d\x7d"

/-- The same spawn, with half of a surrogate pair in its prompt and a number out of range. -/
def hiddenSpawn : List (List Symbol × Tree) :=
  [(symbols "session_id", .string (symbols "s")),
    (symbols "tool_input", .object [(symbols "subagent_type", .string (symbols "scrum-master")),
      (symbols "prompt", .string [.unit 0xd800])]),
    (symbols "x", .number ⟨false, Decimal.digits 1, [], some (false, Decimal.digits 999)⟩)]

def hiddenText : String :=
  "\x7b\"session_id\":\"s\",\"tool_input\":\x7b\"subagent_type\":\"scrum-master\"," ++
    "\"prompt\":\"\\ud800\"\x7d,\"x\":1e999\x7d"

theorem written_openSpawn : (Tree.object openSpawn).Written openText.toList :=
  Token.spells_of_scan (by decide +kernel)

theorem written_hiddenSpawn : (Tree.object hiddenSpawn).Written hiddenText.toList :=
  Token.spells_of_scan (by decide +kernel)

theorem readPart_openSpawn : readPart openSpawn = readPart hiddenSpawn := rfl

theorem gate_given_hiddenSpawn :
    (Tree.object hiddenSpawn).Written hiddenText.toList ∧ (Tree.object openSpawn).Written openText.toList ∧
      readPart openSpawn = readPart hiddenSpawn ∧
      (((joiningTeam.given openText).gate "" : World.Run Outcome).run ledTeam).1.status = 2 ∧
      (((joiningTeam.given hiddenText).gate "" : World.Run Outcome).run ledTeam).1.status ≠ 2 := by
  have hblocked : (((joiningTeam.given openText).gate "" : World.Run Outcome).run ledTeam).1.status = 2 := by
    decide +kernel
  have hunread := (gate_given_unread written_hiddenSpawn).2 written_openSpawn readPart_openSpawn
  refine ⟨written_hiddenSpawn, written_openSpawn, readPart_openSpawn, hblocked, ?_⟩
  rw [Ne, hunread.2 joiningTeam "" ledTeam hblocked]
  decide +kernel

/-- Not every text that is an object has a request, even where the gate reads nothing odd. -/
theorem exists_object_without_request :
    ¬ ∀ (s : String) (members : List (List Symbol × Tree)), (Tree.object members).Written s.toList →
      (SpawnRequest.ofText? s).isSome = true := by
  intro h
  have hnone : SpawnRequest.ofText? hiddenText = none := by decide +kernel
  have hsome := h hiddenText hiddenSpawn written_hiddenSpawn
  rw [hnone] at hsome
  cases hsome

end Invocation

end SpawnGate
