import Mathlib.Data.List.Basic
import SpawnGate.CommandLine

/-!
How a root in the environment enters the arguments. It stands in where none is given, and an empty one is refused
wherever it would be looked at: on every level that has no root of its own.
-/

namespace SpawnGate.CommandLine

/-- The levels that the arguments enter, innermost first. -/
def levels? (args : List String) : Option (List Seen) :=
  match args.foldl Progress.step .start with
  | .closed r => (r.seen :: r.outer).mapM Seen.settle
  | .reading r => (r.seen :: r.outer).mapM Seen.settle
  | _ => none

/-- Each level has a root of its own. -/
def isRooted (args : List String) : Bool :=
  (levels? args).all fun levels => levels.all (·.root.isSome)

theorem mapM_filter {α β : Type} (f : α → Option β) (p : β → Bool) (as : List α) :
    as.mapM (fun a => (f a).filter p) = (as.mapM f).filter (·.all p) := by
  induction as with
  | nil => rfl
  | cons a as ih =>
    rw [List.mapM_cons, List.mapM_cons, ih]
    cases f a with
    | none => rfl
    | some b =>
      cases as.mapM f with
      | none => cases hb : p b <;> simp [Option.filter_some, hb]
      | some bs => cases hb : p b <;> cases hbs : bs.all p <;> simp [Option.filter_some, hb, hbs]

theorem mapM_settle (inherited : Option String) (levels : List Seen) :
    levels.mapM (settle inherited) =
      (levels.mapM Seen.settle).filter (·.all fun s => s.root.isSome ∨ inherited ≠ some "") :=
  mapM_filter Seen.settle _ levels

theorem mapM_settle_of_ne {inherited : Option String} (h : inherited ≠ some "") (levels : List Seen) :
    levels.mapM (settle inherited) = levels.mapM Seen.settle := by
  rw [mapM_settle]
  cases levels.mapM Seen.settle <;> simp [h, Option.filter]

theorem mapM_settle_empty (levels : List Seen) :
    levels.mapM (settle (some "")) = (levels.mapM Seen.settle).filter (·.all (·.root.isSome)) := by
  rw [mapM_settle]
  simp

theorem conclude_of_rooted {r : Reading}
    (h : ((r.seen :: r.outer).mapM Seen.settle).all (fun levels => levels.all (·.root.isSome)) = true) :
    conclude (some "") r = conclude none r := by
  unfold conclude
  rw [mapM_settle_empty, mapM_settle_of_ne (by simp)]
  cases hlevels : (r.seen :: r.outer).mapM Seen.settle with
  | none => rfl
  | some levels =>
    rw [hlevels, Option.all_some] at h
    rw [Option.filter_some, if_pos h]
    cases levels with
    | nil => rfl
    | cons seen outer =>
      -- The innermost level has a root, so what the environment has is not looked at.
      obtain ⟨root, hroot⟩ := Option.isSome_iff_exists.mp (List.all_eq_true.mp h seen List.mem_cons_self)
      simp only [List.findSome?_cons, hroot]
      rfl

theorem conclude_of_not_rooted {r : Reading}
    (h : ((r.seen :: r.outer).mapM Seen.settle).all (fun levels => levels.all (·.root.isSome)) = false) :
    conclude (some "") r = .misuse := by
  unfold conclude
  rw [mapM_settle_empty]
  cases hlevels : (r.seen :: r.outer).mapM Seen.settle with
  | none => rfl
  | some levels =>
    rw [hlevels, Option.all_some] at h
    rw [Option.filter_some, if_neg (by simp [h])]

theorem read_empty_of_rooted {args : List String} (h : isRooted args = true) :
    read (some "") args = read none args := by
  unfold isRooted levels? at h
  unfold read
  cases hprogress : args.foldl Progress.step .start with
  | done i => rfl
  | waiting r p => rfl
  | helping level => rfl
  | closed r =>
    rw [hprogress] at h
    exact conclude_of_rooted h
  | reading r =>
    rw [hprogress] at h
    exact conclude_of_rooted h

theorem read_empty_of_not_rooted {args : List String} (h : isRooted args = false) :
    read (some "") args = .misuse := by
  unfold isRooted levels? at h
  unfold read
  cases hprogress : args.foldl Progress.step .start with
  | done i =>
    rw [hprogress] at h
    cases h
  | waiting r p => rfl
  | helping level =>
    rw [hprogress] at h
    cases h
  | closed r =>
    rw [hprogress] at h
    exact conclude_of_not_rooted h
  | reading r =>
    rw [hprogress] at h
    exact conclude_of_not_rooted h

theorem exists_run_conclude {inherited : Option String} (hroot : inherited ≠ some "") {r : Reading} {a : Arguments}
    (h : conclude none r = .run a) : ∃ a', conclude inherited r = .run a' ∧ a'.command = a.command := by
  unfold conclude at h ⊢
  rw [mapM_settle_of_ne (by simp)] at h
  rw [mapM_settle_of_ne hroot]
  cases hlevels : (r.seen :: r.outer).mapM Seen.settle with
  | none =>
    rw [hlevels] at h
    cases h
  | some levels =>
    rw [hlevels] at h
    cases levels with
    | nil => cases h
    | cons seen outer =>
      simp only at h ⊢
      cases hcommand : command? seen r.level with
      | none =>
        rw [hcommand] at h
        cases h
      | some command =>
        rw [hcommand] at h
        cases h
        exact ⟨_, rfl, rfl⟩

/-- A root in the environment does not change which command is run, unless it is refused. -/
theorem exists_run_read {inherited : Option String} {args : List String}
    (hroot : inherited ≠ some "" ∨ isRooted args = true) {a : Arguments} (h : read none args = .run a) :
    ∃ a', read inherited args = .run a' ∧ a'.command = a.command := by
  by_cases hempty : inherited = some ""
  · subst hempty
    rw [read_empty_of_rooted (hroot.resolve_left (not_not.mpr rfl))]
    exact ⟨a, h, rfl⟩
  · unfold read at h ⊢
    cases hprogress : args.foldl Progress.step .start with
    | done i =>
      rw [hprogress] at h
      exact ⟨a, h, rfl⟩
    | waiting r p =>
      rw [hprogress] at h
      cases h
    | helping level =>
      rw [hprogress] at h
      cases h
    | closed r =>
      rw [hprogress] at h
      exact exists_run_conclude hempty h
    | reading r =>
      rw [hprogress] at h
      exact exists_run_conclude hempty h

end SpawnGate.CommandLine
