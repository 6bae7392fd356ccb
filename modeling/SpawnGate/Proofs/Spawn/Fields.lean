import SpawnGate.Proofs.Spawn.Reading

/-!
One member of a hook's input changed: each field of a spawn request depends on what stands at its own keys and on nothing
else, and a value without a usable text counts for as much as none. That holds as long as the new value can be read where
it stands; if it cannot, there is no request at all.
-/

namespace SpawnGate

open Json

namespace Json

namespace Tree

variable {k : String} {members : List (List Symbol × Tree)} {t : Tree} {room : Nat}

def adjust (k : String) (f : Tree → Tree) (members : List (List Symbol × Tree)) : List (List Symbol × Tree) :=
  members.map fun m => if text? m.1 = some k then (m.1, f m.2) else m

def erase (k : String) (members : List (List Symbol × Tree)) : List (List Symbol × Tree) :=
  members.filter fun m => text? m.1 ≠ some k

theorem member?_adjust (k k' : String) (f : Tree → Tree) (members : List (List Symbol × Tree)) :
    member? k' (adjust k f members) = if k = k' then (member? k members).map f else member? k' members := by
  have hkey : ∀ m : List Symbol × Tree, (if text? m.1 = some k then (m.1, f m.2) else m).1 = m.1 := by
    intro m
    split <;> rfl
  by_cases h : k = k'
  · subst h
    rw [if_pos rfl, adjust, member?_map hkey fun m hm => by rw [if_pos hm]]
  · have hother : ∀ m : List Symbol × Tree, text? m.1 = some k' →
        (if text? m.1 = some k then (m.1, f m.2) else m).2 = id m.2 := by
      intro m hm
      rw [if_neg fun hk => h (Option.some.inj (hk.symm.trans hm))]
      rfl
    rw [if_neg h, adjust, member?_map hkey hother, Option.map_id, id]

theorem member?_erase (k k' : String) (members : List (List Symbol × Tree)) :
    member? k' (erase k members) = if k = k' then none else member? k' members := by
  induction members with
  | nil => simp [erase, member?]
  | cons m r ih =>
    by_cases hm : text? m.1 = some k
    · rw [erase, List.filter_cons_of_neg (by simpa using hm)]
      refine ih.trans ?_
      by_cases h : k = k'
      · rw [if_pos h, if_pos h]
      · have hother : ¬ text? m.1 = some k' := fun hk => h (Option.some.inj (hm.symm.trans hk))
        rw [if_neg h, if_neg h, member?, if_neg hother, Option.or_none]
    · rw [erase, List.filter_cons_of_pos (by simpa using hm), member?, member?]
      by_cases h : k = k'
      · subst h
        rw [if_pos rfl, if_neg hm, Option.or_none]
        exact ih.trans (if_pos rfl)
      · rw [if_neg h]
        exact congrArg (Option.or · _) (ih.trans (if_neg h))

/-- Changes the members of the objects that keys lead to. -/
def changeAt (f : List (List Symbol × Tree) → List (List Symbol × Tree)) : List String → Tree → Tree
  | [], .object members => .object (f members)
  | k :: path, .object members => .object (adjust k (changeAt f path) members)
  | _, t => t

/-- Something stands where a path of keys leads. -/
def Stands : List String → Tree → Prop
  | [], _ => True
  | k :: path, .object members => ∃ m ∈ members, text? m.1 = some k ∧ Stands path m.2
  | _ :: _, _ => False

/-- Not a string, or a blank one. -/
def Unusable (t : Tree) : Prop :=
  ∀ raw, t.string? = some raw → Text.Blank raw.toList

def isObject : Tree → Bool
  | .object _ => true
  | _ => false

theorem isObject_changeAt (f : List (List Symbol × Tree) → List (List Symbol × Tree)) (path : List String) (t : Tree) :
    (changeAt f path t).isObject = t.isObject := by
  cases path <;> cases t <;> rfl

theorem readableWithin_adjust_iff {f : Tree → Tree} (h : (object members).ReadableWithin (room + 1)) :
    (object (adjust k f members)).ReadableWithin (room + 1) ↔
      ∀ m ∈ members, text? m.1 = some k → (f m.2).ReadableWithin room := by
  rw [readableWithin_object_iff] at h ⊢
  rw [adjust, List.forall_mem_map]
  refine forall₂_congr fun m hm => ?_
  by_cases hk : text? m.1 = some k
  · simp [hk]
  · simp only [hk, false_imp_iff, iff_true]
    exact h m hm

end Tree

/-- A key of the objects that other keys lead to. -/
structure Place where
  outer : List String
  key : String

namespace Place

def path (p : Place) : List String := p.outer ++ [p.key]

def replace (p : Place) (x : Tree) : Tree → Tree :=
  Tree.changeAt (Tree.adjust p.key fun _ => x) p.outer

def remove (p : Place) : Tree → Tree :=
  Tree.changeAt (Tree.erase p.key) p.outer

theorem readableWithin_replace_iff (p : Place) (x : Tree) {t : Tree} {room : Nat} (h : t.ReadableWithin room) :
    (p.replace x t).ReadableWithin room ↔ (t.Stands p.path → x.ReadableWithin (room - p.path.length)) := by
  obtain ⟨outer, key⟩ := p
  induction outer generalizing t room with
  | nil =>
    cases t with
    | object members =>
      cases room with
      | zero => exact absurd h (Tree.not_readableWithin_zero members)
      | succ room =>
        refine (Tree.readableWithin_adjust_iff h).trans ⟨?_, ?_⟩
        · rintro hx ⟨m, hm, hkey, -⟩
          exact hx m hm hkey
        · intro hx m hm hkey
          exact hx ⟨m, hm, hkey, trivial⟩
    | _ => exact iff_of_true h (by rintro ⟨⟩)
  | cons k outer ih =>
    cases t with
    | object members =>
      cases room with
      | zero => exact absurd h (Tree.not_readableWithin_zero members)
      | succ room =>
        have hinner := (Tree.readableWithin_object_iff room members).mp h
        have hroom : room + 1 - (Place.mk (k :: outer) key).path.length = room - (Place.mk outer key).path.length := by
          simp [path]
        rw [hroom]
        refine (Tree.readableWithin_adjust_iff h).trans ⟨?_, ?_⟩
        · rintro hx ⟨m, hm, hkey, hstands⟩
          exact (ih (hinner m hm).2).mp (hx m hm hkey) hstands
        · intro hx m hm hkey
          exact (ih (hinner m hm).2).mpr fun hstands => hx ⟨m, hm, hkey, hstands⟩
    | _ => exact iff_of_true h (by rintro ⟨⟩)

theorem readableWithin_remove (p : Place) {t : Tree} {room : Nat} (h : t.ReadableWithin room) :
    (p.remove t).ReadableWithin room := by
  obtain ⟨outer, key⟩ := p
  induction outer generalizing t room with
  | nil =>
    cases t with
    | object members =>
      cases room with
      | zero => exact absurd h (Tree.not_readableWithin_zero members)
      | succ room =>
        have hinner := (Tree.readableWithin_object_iff room members).mp h
        exact (Tree.readableWithin_object_iff room _).mpr fun m hm => hinner m (List.mem_of_mem_filter hm)
    | _ => exact h
  | cons k outer ih =>
    cases t with
    | object members =>
      cases room with
      | zero => exact absurd h (Tree.not_readableWithin_zero members)
      | succ room =>
        have hinner := (Tree.readableWithin_object_iff room members).mp h
        exact (Tree.readableWithin_adjust_iff h).mpr fun m hm _ => ih (hinner m hm).2
    | _ => exact h

end Place

end Json

namespace Hook

theorem textIn?_nil_of_unusable {x : Tree} (h : x.Unusable) : textIn? [] x = none := by
  rw [textIn?]
  cases hraw : x.string? with
  | none => rfl
  | some raw => simp [Text.usable, (Text.trim_eq_empty_iff raw).mpr (h raw hraw)]

theorem textIn?_of_not_isObject {x : Tree} (h : x.isObject = false) {path : List String} (hpath : path ≠ []) :
    textIn? path x = none := by
  cases path with
  | nil => exact absurd rfl hpath
  | cons k path =>
    cases x with
    | object members => cases h
    | _ => rfl

section Changes

variable {f : List (List Symbol × Tree) → List (List Symbol × Tree)} {key : String}

theorem textIn?_changeAt_of_not_isPrefix
    (hf : ∀ k members, k ≠ key → Tree.member? k (f members) = Tree.member? k members) {outer q : List String}
    (hq : ¬ outer ++ [key] <+: q) (t : Tree) : textIn? q (t.changeAt f outer) = textIn? q t := by
  induction outer generalizing q t with
  | nil =>
    cases t with
    | object members =>
      cases q with
      | nil => rfl
      | cons k q =>
        have hk : k ≠ key := by
          rintro rfl
          exact hq ⟨q, rfl⟩
        exact congrArg (Option.bind · (textIn? q)) (hf k members hk)
    | _ => rfl
  | cons k outer ih =>
    cases t with
    | object members =>
      cases q with
      | nil => rfl
      | cons k' q =>
        change (Tree.member? k' (Tree.adjust k _ members)).bind (textIn? q) = (Tree.member? k' members).bind (textIn? q)
        rw [Tree.member?_adjust]
        by_cases h : k = k'
        · subst h
          rw [if_pos rfl, Option.bind_map]
          have hinner : ¬ outer ++ [key] <+: q := fun hprefix => hq (List.cons_prefix_cons.mpr ⟨rfl, hprefix⟩)
          exact Option.bind_congr fun inner _ => ih hinner inner
        · rw [if_neg h]
    | _ => rfl

theorem textIn?_changeAt_eq_none {rest : List String}
    (hf : ∀ members, (Tree.member? key (f members)).bind (textIn? rest) = none) (outer : List String) (t : Tree) :
    textIn? (outer ++ key :: rest) (t.changeAt f outer) = none := by
  induction outer generalizing t with
  | nil =>
    cases t with
    | object members => exact hf members
    | _ => rfl
  | cons k outer ih =>
    cases t with
    | object members =>
      change (Tree.member? k (Tree.adjust k _ members)).bind (textIn? (outer ++ key :: rest)) = none
      rw [Tree.member?_adjust, if_pos rfl, Option.bind_map]
      cases Tree.member? k members with
      | none => rfl
      | some inner => exact ih inner
    | _ => rfl

end Changes

variable (p : Place) (x : Tree)

theorem textIn?_replace_of_not_isPrefix {q : List String} (hq : ¬ p.path <+: q) (t : Tree) :
    textIn? q (p.replace x t) = textIn? q t :=
  textIn?_changeAt_of_not_isPrefix (fun k members hk => by rw [Tree.member?_adjust, if_neg hk.symm]) hq t

theorem textIn?_remove_of_not_isPrefix {q : List String} (hq : ¬ p.path <+: q) (t : Tree) :
    textIn? q (p.remove t) = textIn? q t :=
  textIn?_changeAt_of_not_isPrefix (fun k members hk => by rw [Tree.member?_erase, if_neg hk.symm]) hq t

theorem textIn?_replace_eq_remove {q : List String} (h : ∀ rest, p.path ++ rest = q → textIn? rest x = none) (t : Tree) :
    textIn? q (p.replace x t) = textIn? q (p.remove t) := by
  -- At and below the place both give nothing, and elsewhere neither is seen.
  by_cases hq : p.path <+: q
  · obtain ⟨rest, rfl⟩ := hq
    have hrest := h rest rfl
    rw [Place.path, List.append_assoc, List.singleton_append]
    refine (textIn?_changeAt_eq_none (fun members => ?_) p.outer t).trans
      (textIn?_changeAt_eq_none (fun members => ?_) p.outer t).symm
    · rw [Tree.member?_adjust, if_pos rfl]
      cases Tree.member? p.key members with
      | none => rfl
      | some _ => exact hrest
    · rw [Tree.member?_erase, if_pos rfl]
      rfl
  · rw [textIn?_replace_of_not_isPrefix p x hq, textIn?_remove_of_not_isPrefix p hq]

theorem neat_textIn? {path : List String} {t : Tree} {s : String} (h : textIn? path t = some s) : Text.Neat s := by
  induction path generalizing t with
  | nil =>
    obtain ⟨raw, -, hraw⟩ := Option.bind_eq_some_iff.mp h
    exact Text.neat_of_usable hraw
  | cons k path ih =>
    obtain ⟨inner, -, hinner⟩ := Option.bind_eq_some_iff.mp h
    exact ih hinner

end Hook

namespace SpawnRequest

open Hook

inductive Field where
  | agentKind
  | teammate
  | team
  | callerId
deriving DecidableEq, Repr

def field (r : SpawnRequest) : Field → Option String
  | .agentKind => some r.agentKind
  | .teammate => r.teammate
  | .team => r.team
  | .callerId => some r.callerId

theorem eq_of_field {r r' : SpawnRequest} (h : ∀ f, r.field f = r'.field f) : r = r' := by
  obtain ⟨kind, teammate, team, caller⟩ := r
  obtain ⟨kind', teammate', team', caller'⟩ := r'
  obtain rfl : kind = kind' := Option.some.inj (h .agentKind)
  obtain rfl : teammate = teammate' := h .teammate
  obtain rfl : team = team' := h .team
  obtain rfl : caller = caller' := Option.some.inj (h .callerId)
  rfl

namespace Field

/-- Where a field is read; of several places the first with a usable text. -/
def paths : Field → List (List String)
  | agentKind => [[toolField, "subagent_type"], [toolField, "agent_kind"]]
  | teammate => [[toolField, "name"]]
  | team => [[toolField, "team_name"]]
  | callerId => [["session_id"]]

/-- A field that is a text in any case, the empty one if none can be read. -/
def IsFilled (f : Field) : Prop := f = agentKind ∨ f = callerId

def fill : Field → Option String → Option String
  | agentKind, text => some (text.getD "")
  | teammate, text => text
  | team, text => text
  | callerId, text => some (text.getD "")

theorem eq_of_isPrefix {f f' : Field} {p q : List String} (hp : p ∈ f.paths) (hq : q ∈ f'.paths) (h : p <+: q) :
    f = f' ∧ p = q := by
  -- The places are few, so each pair of fields is tried out.
  have hall : ∀ p ∈ f.paths, ∀ q ∈ f'.paths, p <+: q → f = f' ∧ p = q := by
    cases f <;> cases f' <;> decide
  exact hall p hp q hq h

theorem toolField_not_mem_paths (f : Field) : [toolField] ∉ f.paths := by
  cases f <;> decide

end Field

theorem field_ofTree (t : Tree) (f : Field) :
    (ofTree t).field f = f.fill (f.paths.findSome? fun path => textIn? path t) := by
  cases f with
  | agentKind =>
    simp only [field, ofTree, Field.fill, Field.paths, List.findSome?_cons, List.findSome?_nil]
    cases textIn? [toolField, "subagent_type"] t with
    | some kind => rfl
    | none => cases textIn? [toolField, "agent_kind"] t <;> rfl
  | teammate =>
    simp only [field, ofTree, Field.fill, Field.paths, List.findSome?_cons, List.findSome?_nil]
    cases textIn? [toolField, "name"] t <;> rfl
  | team =>
    simp only [field, ofTree, Field.fill, Field.paths, List.findSome?_cons, List.findSome?_nil]
    cases textIn? [toolField, "team_name"] t <;> rfl
  | callerId =>
    simp only [field, ofTree, Field.fill, Field.paths, List.findSome?_cons, List.findSome?_nil]
    cases textIn? ["session_id"] t <;> rfl

theorem field_ofTree_congr {t t' : Tree} {f : Field} (h : ∀ path ∈ f.paths, textIn? path t = textIn? path t') :
    (ofTree t).field f = (ofTree t').field f := by
  have hfound : ∀ paths : List (List String), (∀ path ∈ paths, textIn? path t = textIn? path t') →
      (paths.findSome? fun path => textIn? path t) = paths.findSome? fun path => textIn? path t' := by
    intro paths hpaths
    induction paths with
    | nil => rfl
    | cons path paths ih =>
      obtain ⟨hpath, hrest⟩ := List.forall_mem_cons.mp hpaths
      rw [List.findSome?_cons, List.findSome?_cons, hpath, ih hrest]
  rw [field_ofTree, field_ofTree, hfound f.paths h]

theorem ofTree_congr {t t' : Tree} (h : ∀ f : Field, ∀ path ∈ f.paths, textIn? path t = textIn? path t') :
    ofTree t = ofTree t' :=
  eq_of_field fun f => field_ofTree_congr (h f)

theorem field_replace {p : Place} {f f' : Field} (hp : p.path ∈ f.paths) (hne : f' ≠ f) (x o : Tree) :
    (ofTree (p.replace x o)).field f' = (ofTree o).field f' := by
  apply field_ofTree_congr
  intro path hpath
  apply textIn?_replace_of_not_isPrefix
  intro hprefix
  exact hne (Field.eq_of_isPrefix hp hpath hprefix).1.symm

theorem ofTree_replace_unusable {p : Place} {f : Field} (hp : p.path ∈ f.paths) {x : Tree} (hx : x.Unusable)
    (o : Tree) : ofTree (p.replace x o) = ofTree (p.remove o) := by
  apply ofTree_congr
  intro f' path hpath
  apply textIn?_replace_eq_remove
  rintro rest rfl
  have hsame := (Field.eq_of_isPrefix hp hpath (List.prefix_append _ _)).2
  obtain rfl : rest = [] := List.self_eq_append_right.mp hsame
  exact textIn?_nil_of_unusable hx

def tool : Place := ⟨[], toolField⟩

theorem ofTree_replace_tool {x : Tree} (hx : x.isObject = false) (o : Tree) :
    ofTree (tool.replace x o) = ofTree (tool.remove o) := by
  apply ofTree_congr
  intro f path hpath
  apply textIn?_replace_eq_remove
  rintro rest rfl
  apply textIn?_of_not_isObject hx
  rintro rfl
  exact f.toolField_not_mem_paths hpath

theorem neat_or_filled {o : Tree} {f : Field} {t : String} (h : (ofTree o).field f = some t) :
    Text.Neat t ∨ t = "" ∧ f.IsFilled := by
  have hread : ∀ {t}, (f.paths.findSome? fun path => textIn? path o) = some t → Text.Neat t := by
    intro t ht
    obtain ⟨path, -, hpath⟩ := List.exists_of_findSome?_eq_some ht
    exact neat_textIn? hpath
  have hfilled : ∀ {found : Option String}, (∀ {t}, found = some t → Text.Neat t) → some (found.getD "") = some t →
      Text.Neat t ∨ t = "" := by
    intro found hfound ht
    obtain rfl := Option.some.inj ht
    cases found with
    | none => exact .inr rfl
    | some t => exact .inl (hfound rfl)
  rw [field_ofTree] at h
  cases f with
  | agentKind => exact (hfilled hread h).imp_right fun ht => ⟨ht, .inl rfl⟩
  | teammate => exact .inl (hread h)
  | team => exact .inl (hread h)
  | callerId => exact (hfilled hread h).imp_right fun ht => ⟨ht, .inr rfl⟩

theorem ofText?_of_isObject {o : Tree} (ho : o.isObject = true) {s : String} (h : o.Written s.toList) :
    ofText? s = if o.ReadableWithin Value.greatestDepth then some (ofTree o) else none := by
  cases o with
  | object members => exact ofText?_of_written h
  | _ => cases ho

theorem isObject_of_ofText? {o : Tree} {s : String} (h : o.Written s.toList) {r : SpawnRequest} (hr : ofText? s = some r) :
    o.isObject = true := by
  obtain ⟨named, hvalue, -⟩ := (ofText?_eq_some_iff s r).mp hr
  rw [Value.ofText?_of_written h] at hvalue
  cases o with
  | object members => rfl
  | _ => simp [Value.ofTree?, Value.greatestDepth] at hvalue

/-- What all texts of a tree ask for. -/
def Asks (o : Tree) (r : Option SpawnRequest) : Prop :=
  ∀ s, o.Written s.toList → ofText? s = r

/-- A value can be read at a place in an input, or the input has nothing there. -/
def Fits (p : Place) (x o : Tree) : Prop :=
  o.Stands p.path → x.ReadableWithin (Value.greatestDepth - p.path.length)

/-- What an input asks for with another value at a place: this request if the value fits there, and otherwise nothing. -/
structure Replaced (p : Place) (x o : Tree) (r : SpawnRequest) : Prop where
  fitting : Fits p x o → Asks (p.replace x o) (some r)
  unfit : ¬ Fits p x o → Asks (p.replace x o) none

section Changes

variable {o : Tree} (ho : o.isObject = true) (hreadable : o.ReadableWithin Value.greatestDepth)
include ho hreadable

theorem replaced_ofTree (p : Place) (x : Tree) : Replaced p x o (ofTree (p.replace x o)) := by
  have hobject : (p.replace x o).isObject = true := (Tree.isObject_changeAt _ p.outer o).trans ho
  have hfits := p.readableWithin_replace_iff x hreadable
  constructor
  · intro hfit s hs
    rw [ofText?_of_isObject hobject hs, if_pos (hfits.mpr hfit)]
  · intro hunfit s hs
    rw [ofText?_of_isObject hobject hs, if_neg fun h => hunfit (hfits.mp h)]

theorem asks_remove (p : Place) : Asks (p.remove o) (some (ofTree (p.remove o))) := by
  have hobject : (p.remove o).isObject = true := (Tree.isObject_changeAt _ p.outer o).trans ho
  intro s hs
  rw [ofText?_of_isObject hobject hs, if_pos (p.readableWithin_remove hreadable)]

end Changes

/-- What stands at one key of an accepted input changes only the field that is read there, and counts as nothing if it has
no usable text. The tool's input counts as nothing if it is not an object. Both hold exactly where the new value can be
read; otherwise the whole request is missing. The agent kind is read at the second of its keys where the first has no
usable text. Every text is trimmed, and only those that a request always has may be empty. -/
theorem fields_read_apart {s : String} {o : Tree} (hs : o.Written s.toList) {r : SpawnRequest} (hr : ofText? s = some r) :
    (∀ (f : Field) (p : Place) (x : Tree), p.path ∈ f.paths → ∃ r', Replaced p x o r' ∧
      (∀ f', f' ≠ f → r'.field f' = r.field f') ∧ (x.Unusable → Asks (p.remove o) (some r'))) ∧
    (∀ x : Tree, x.isObject = false → ∃ r', Replaced tool x o r' ∧ Asks (tool.remove o) (some r')) ∧
    (∃ v, Value.ofText? s = some v ∧
      FirstText v [[toolField, "subagent_type"], [toolField, "agent_kind"]] r.agentKind) ∧
    ∀ f t, r.field f = some t → Text.Neat t ∨ t = "" ∧ f.IsFilled := by
  have ho := isObject_of_ofText? hs hr
  have hrequest := hr
  rw [ofText?_of_isObject ho hs] at hrequest
  obtain ⟨hreadable, hrequest⟩ := Option.ite_none_right_eq_some.mp hrequest
  obtain rfl := Option.some.inj hrequest
  refine ⟨?_, ?_, ?_, fun f t => neat_or_filled⟩
  · intro f p x hp
    refine ⟨_, replaced_ofTree ho hreadable p x, fun f' hne => field_replace hp hne x o, fun hx => ?_⟩
    rw [ofTree_replace_unusable hp hx]
    exact asks_remove ho hreadable p
  · intro x hx
    refine ⟨_, replaced_ofTree ho hreadable tool x, ?_⟩
    rw [ofTree_replace_tool hx]
    exact asks_remove ho hreadable tool
  · obtain ⟨members, hvalue, hkind⟩ := (ofText?_eq_some_iff s _).mp hr
    exact ⟨_, hvalue, (agentKind_ofValue_iff _ _).mp (by rw [← hkind])⟩

/-- A nameless orchestrator with a second kind, asked for by the session `caller`, if there is one. -/
def kindTree (caller : Option Tree) : Tree :=
  .object ((caller.map fun t => ("session_id".toList.map .plain, t)).toList ++
    [("tool_input".toList.map .plain, .object
      [("subagent_type".toList.map .plain, .string ("scrum-master".toList.map .plain)),
        ("agent_kind".toList.map .plain, .string (" pilot".toList.map .plain))])])

/-- The text of such an input, from the text of the caller's member. -/
def kindText (caller : String) : String :=
  "\x7b" ++ caller ++ "\"tool_input\":\x7b\"subagent_type\":\"scrum-master\",\"agent_kind\":\" pilot\"\x7d\x7d"

def namedCaller : Tree := kindTree (some (.string ("s".toList.map .plain)))

def tooLarge : Tree := .number ⟨false, Decimal.digits 1, [], some (false, Decimal.digits 999)⟩

theorem written_namedCaller : namedCaller.Written (kindText "\"session_id\":\"s\",").toList :=
  Token.spells_of_scan (by decide +kernel)

theorem ofText?_namedCaller :
    ofText? (kindText "\"session_id\":\"s\",") = some ⟨"scrum-master", none, none, "s"⟩ := by
  decide +kernel

theorem unusable_tooLarge : tooLarge.Unusable := by
  rintro raw ⟨⟩

/-- A kind that is not a string gives way to the other one. A session id that is not one counts as missing if it is a truth
value, but hides the request if it is a number out of range. -/
theorem fields_read_apart_namedCaller :
    namedCaller.Written (kindText "\"session_id\":\"s\",").toList ∧
      ofText? (kindText "\"session_id\":\"s\",") = some ⟨"scrum-master", none, none, "s"⟩ ∧
      (∃ r', Asks (Place.replace ⟨[toolField], "subagent_type"⟩ (.boolean true) namedCaller) (some r') ∧
        Asks (Place.remove ⟨[toolField], "subagent_type"⟩ namedCaller) (some r') ∧ r'.callerId = "s") ∧
      (∃ r', Asks (Place.remove ⟨[], "session_id"⟩ namedCaller) (some r') ∧ r'.agentKind = "scrum-master") ∧
      Asks (Place.replace ⟨[], "session_id"⟩ tooLarge namedCaller) none := by
  obtain ⟨hfields, -⟩ := fields_read_apart written_namedCaller ofText?_namedCaller
  obtain ⟨kind, hkind, hkindOthers, hkindRemoved⟩ :=
    hfields .agentKind ⟨[toolField], "subagent_type"⟩ (.boolean true) (by decide)
  obtain ⟨caller, hcaller, hcallerOthers, hcallerRemoved⟩ :=
    hfields .callerId ⟨[], "session_id"⟩ tooLarge (by decide)
  have hboolean : (Tree.boolean true).Unusable := by
    rintro raw ⟨⟩
  have hunfit : ¬ Fits ⟨[], "session_id"⟩ tooLarge namedCaller := by
    intro hfits
    exact absurd (hfits ⟨_, List.mem_cons_self, rfl, trivial⟩) (by decide +kernel)
  exact ⟨written_namedCaller, ofText?_namedCaller,
    ⟨kind, hkind.fitting fun _ => by decide, hkindRemoved hboolean, Option.some.inj (hkindOthers .callerId (by decide))⟩,
    ⟨caller, hcallerRemoved unusable_tooLarge, Option.some.inj (hcallerOthers .agentKind (by decide))⟩,
    hcaller.unfit hunfit⟩

/-- Not every value without a usable text counts as missing. -/
theorem exists_value_hiding_request :
    ¬ ∀ (s s' s'' : String) (o : Tree) (r : SpawnRequest) (f : Field) (p : Place) (x : Tree), o.Written s.toList →
      ofText? s = some r → p.path ∈ f.paths → x.Unusable → (p.replace x o).Written s'.toList →
      (p.remove o).Written s''.toList → ofText? s' = ofText? s'' := by
  intro h
  have hreplaced : (kindTree (some tooLarge)).Written (kindText "\"session_id\":1e999,").toList :=
    Token.spells_of_scan (by decide +kernel)
  have hremoved : (kindTree none).Written (kindText "").toList :=
    Token.spells_of_scan (by decide +kernel)
  have hsame := h _ _ _ namedCaller _ .callerId ⟨[], "session_id"⟩ tooLarge written_namedCaller ofText?_namedCaller
    (by decide) unusable_tooLarge hreplaced hremoved
  exact absurd hsame (by decide +kernel)

end SpawnRequest

end SpawnGate
