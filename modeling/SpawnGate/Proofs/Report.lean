import SpawnGate.Proofs.Json.ReadBack
import SpawnGate.Proofs.Runs

/-!
The report of the session's id: where it comes from, and what its text in JSON says.
-/

namespace SpawnGate

namespace Invocation

open Json

/-- The id that is reported: the flag's, else the environment's, else the cache's. -/
def reported? (i : Invocation) (explicit cached : Option String) : Option (String × Session.Source) :=
  ((explicit.bind Text.usable).map (·, .flag)).or
    ((((i.environment sessionVariable).bind Text.usable).map (·, .env)).or (cached.map (·, .cache)))

def report (json : Bool) (cache : String) : Option (String × Session.Source) → Outcome
  | some (id, source) => ⟨0, sessionText json id source, ""⟩
  | none => ⟨1, "", noSession cache⟩

theorem run_showSession (i : Invocation) (json : Bool) (explicit : Option String) (w : World) :
    (i.showSession json explicit : World.Run Outcome).run w =
      (report json i.cache (i.reported? explicit ((w.text? i.cache).bind Text.usable)), w) := by
  unfold showSession Session.resolve reported?
  cases explicit.bind Text.usable with
  | some id => rfl
  | none =>
    cases (i.environment sessionVariable).bind Text.usable with
    | some id => rfl
    | none =>
      have hcurrent : (Session.current i.cache : World.Run (Option String)).run w =
          ((w.text? i.cache).bind Text.usable, w) := rfl
      simp only [World.run_bind, hcurrent]
      cases (w.text? i.cache).bind Text.usable <;> rfl

/-- What a report in JSON says. -/
def sessionValue (id : String) (source : Session.Source) : Value :=
  .object [("session_id", .string id), ("source", .string source.name)]

theorem written_sessionText (id : String) (source : Session.Source) :
    (sessionValue id source).tree.Written (sessionText true id source).toList := by
  have htext : (sessionText true id source).toList =
      ['{'] ++ '\n' :: ' ' :: ' ' :: (quote "session_id" ++ ([':'] ++ ' ' :: (quote id ++ ([','] ++
        '\n' :: ' ' :: ' ' :: (quote "source" ++ ([':'] ++ ' ' :: (quote source.name ++
          '\n' :: (['}'] ++ ['\n'])))))))) := by
    have hopen : "\x7b\n  \"session_id\": ".toList =
        '{' :: '\n' :: ' ' :: ' ' :: (quote "session_id" ++ [':', ' ']) := by decide
    have hnext : ",\n  \"source\": ".toList = ',' :: '\n' :: ' ' :: ' ' :: (quote "source" ++ [':', ' ']) := by decide
    have hclose : "\n\x7d\n".toList = ['\n', '}', '\n'] := by decide
    rw [sessionText, if_pos rfl]
    simp only [String.toList_append, String.toList_ofList, hopen, hnext, hclose, List.append_assoc, List.cons_append,
      List.nil_append]
  rw [htext]
  exact .token (.mark rfl) <| .space rfl <| .space rfl <| .space rfl <| .token (spelled_quote _) <|
    .token (.mark rfl) <| .space rfl <| .token (spelled_quote _) <| .token (.mark rfl) <|
    .space rfl <| .space rfl <| .space rfl <| .token (spelled_quote _) <| .token (.mark rfl) <| .space rfl <|
    .token (spelled_quote _) <| .space rfl <| .token (.mark rfl) <| .space rfl .nil

theorem ofText?_sessionText (id : String) (source : Session.Source) :
    Value.ofText? (sessionText true id source) = some (sessionValue id source) := by
  rw [Value.ofText?_of_written (written_sessionText id source)]
  apply Value.ofTree?_tree_of_words
  · have hkeys : ("session_id" : String) < "source" := by decide
    exact .object (List.pairwise_pair.mpr hkeys)
      (List.forall_mem_cons.mpr ⟨.string id, List.forall_mem_singleton.mpr (.string _)⟩)
  · exact .object (List.forall_mem_cons.mpr ⟨.string id, List.forall_mem_singleton.mpr (.string _)⟩)
  · exact Nat.succ_le_succ (Nat.zero_le _)

end Invocation

end SpawnGate
