import SpawnGate.Json.Tree

/-!
The tokens that spell a tree. Building reads exactly these: a builder never forgets a token, and on
the tokens of a tree it ends with the tree.
-/

namespace SpawnGate.Json

namespace Tree

@[elab_as_elim]
theorem induction {motive : Tree → Prop} (null : motive .null) (boolean : ∀ b, motive (.boolean b))
    (number : ∀ n, motive (.number n)) (string : ∀ s, motive (.string s))
    (array : ∀ items, (∀ t ∈ items, motive t) → motive (.array items))
    (object : ∀ members, (∀ m ∈ members, motive m.2) → motive (.object members)) (t : Tree) :
    motive t :=
  Tree.rec (motive_1 := motive) (motive_2 := fun items => ∀ t ∈ items, motive t)
    (motive_3 := fun members => ∀ m ∈ members, motive m.2) (motive_4 := fun m => motive m.2)
    null boolean number string array object
    (by simp) (fun _ _ ht hr => by simpa using ⟨ht, hr⟩)
    (by simp) (fun _ _ hm hr => by simpa using ⟨hm, by simpa using hr⟩) (fun _ _ ht => ht) t

def withCommas : List (List Token) → List Token
  | [] => []
  | [x] => x
  | x :: y :: r => x ++ .comma :: withCommas (y :: r)

def followedByCommas (xs : List (List Token)) : List Token :=
  xs.flatMap (· ++ [.comma])

mutual

def tokens : Tree → List Token
  | .null => [.null]
  | .boolean b => [.boolean b]
  | .number n => [.number n]
  | .string s => [.string s]
  | .array items => .openArray :: withCommas (itemTokens items) ++ [.closeArray]
  | .object members => .openObject :: withCommas (memberTokens members) ++ [.closeObject]

def itemTokens : List Tree → List (List Token)
  | [] => []
  | t :: r => tokens t :: itemTokens r

def memberTokens : List (List Symbol × Tree) → List (List Token)
  | [] => []
  | (k, t) :: r => (.string k :: .colon :: tokens t) :: memberTokens r

end

theorem itemTokens_eq_map (items : List Tree) : itemTokens items = items.map tokens := by
  induction items with
  | nil => rfl
  | cons t r ih => rw [itemTokens, ih, List.map_cons]

theorem memberTokens_eq_map (members : List (List Symbol × Tree)) :
    memberTokens members = members.map fun m => .string m.1 :: .colon :: tokens m.2 := by
  induction members with
  | nil => rfl
  | cons m r ih => rw [memberTokens, ih, List.map_cons]

theorem withCommas_concat (xs : List (List Token)) (x : List Token) :
    withCommas (xs ++ [x]) = followedByCommas xs ++ x := by
  induction xs with
  | nil => simp [withCommas, followedByCommas]
  | cons y ys ih =>
    have hcons : withCommas (y :: (ys ++ [x])) = y ++ .comma :: withCommas (ys ++ [x]) := by
      cases ys <;> rfl
    rw [List.cons_append, hcons, ih]
    simp [followedByCommas]

namespace Frame

def consumed : Frame → List Token
  | array before => .openArray :: followedByCommas (itemTokens before.reverse)
  | object before key =>
    .openObject :: followedByCommas (memberTokens before.reverse) ++ [.string key, .colon]

end Frame

namespace Next

def consumed : Next → List Token
  | value => []
  | firstItem => []
  | firstKey => [.openObject]
  | key before => .openObject :: followedByCommas (memberTokens before.reverse)
  | colon before k => .openObject :: followedByCommas (memberTokens before.reverse) ++ [.string k]
  | after t => t.tokens

end Next

namespace Builder

/-- The tokens that led to a state. -/
def consumed (b : Builder) : List Token :=
  b.frames.reverse.flatMap Frame.consumed ++ b.next.consumed

theorem consumed_mk (frames : List Frame) (next : Next) :
    consumed ⟨frames, next⟩ = frames.reverse.flatMap Frame.consumed ++ next.consumed := rfl

theorem enter_consumed {frames : List Frame} {t : Token} {b : Builder} (h : enter frames t = some b) :
    b.consumed = frames.reverse.flatMap Frame.consumed ++ [t] := by
  cases t <;> simp only [enter, Option.some.injEq, reduceCtorEq] at h <;> subst h <;>
    simp [consumed, Next.consumed, Frame.consumed, tokens, itemTokens, followedByCommas]

theorem step_consumed {b b' : Builder} {t : Token} (h : step b t = some b') :
    b'.consumed = b.consumed ++ [t] := by
  unfold step at h
  split at h
  case h_1 frames t =>
    rw [enter_consumed h, consumed_mk]
    simp [Next.consumed]
  case h_3 frames t _ =>
    rw [enter_consumed h, consumed_mk]
    simp [Next.consumed]
  case h_12 => cases h
  all_goals
    obtain rfl := Option.some.inj h
    simp [consumed_mk, Next.consumed, Frame.consumed, tokens, itemTokens_eq_map, memberTokens_eq_map,
      withCommas_concat, withCommas, followedByCommas]

/-- Some tokens lead from one state to another. -/
def Reaches (b : Builder) (ts : List Token) (b' : Builder) : Prop :=
  ts.foldlM step b = some b'

theorem Reaches.nil (b : Builder) : Reaches b [] b := rfl

theorem reaches_cons_iff {b c : Builder} {t : Token} {ts : List Token} :
    Reaches b (t :: ts) c ↔ ∃ b', step b t = some b' ∧ Reaches b' ts c :=
  Option.bind_eq_some_iff

theorem Reaches.cons {b b' c : Builder} {t : Token} {ts : List Token} (h : step b t = some b')
    (hr : Reaches b' ts c) : Reaches b (t :: ts) c :=
  reaches_cons_iff.mpr ⟨b', h, hr⟩

theorem Reaches.append {b b' c : Builder} {ts us : List Token} (h : Reaches b ts b')
    (hr : Reaches b' us c) : Reaches b (ts ++ us) c := by
  induction ts generalizing b with
  | nil =>
    obtain rfl := Option.some.inj h
    exact hr
  | cons t ts ih =>
    obtain ⟨d, hd, h⟩ := reaches_cons_iff.mp h
    exact .cons hd (ih h)

theorem Reaches.consumed {b c : Builder} {ts : List Token} (h : Reaches b ts c) :
    c.consumed = b.consumed ++ ts := by
  induction ts generalizing b with
  | nil =>
    obtain rfl := Option.some.inj h
    simp
  | cons t ts ih =>
    obtain ⟨d, hd, h⟩ := reaches_cons_iff.mp h
    rw [ih h, step_consumed hd, List.append_assoc, List.singleton_append]

theorem eq_of_finish {b : Builder} {t : Tree} (h : b.finish = some t) : b = ⟨[], .after t⟩ := by
  unfold finish at h
  split at h
  · obtain rfl := Option.some.inj h
    rfl
  · cases h

/-- On the tokens of a tree, a builder that awaits a value ends up after that tree. -/
def Builds (t : Tree) : Prop :=
  ∀ frames, Reaches ⟨frames, .value⟩ t.tokens ⟨frames, .after t⟩

theorem Builds.firstItem {t : Tree} (h : Builds t) (frames : List Frame) :
    Reaches ⟨.array [] :: frames, .firstItem⟩ t.tokens ⟨.array [] :: frames, .after t⟩ := by
  have hvalue := h (.array [] :: frames)
  cases t <;> exact hvalue

/-- The items after one that is complete, and the end of their array. -/
theorem reaches_items {r : List Tree} (hr : ∀ u ∈ r, Builds u) (t : Tree) (before : List Tree)
    (frames : List Frame) :
    ∃ ts, withCommas (itemTokens (t :: r)) ++ [Token.closeArray] = t.tokens ++ ts ∧
      Reaches ⟨.array before :: frames, .after t⟩ ts
        ⟨frames, .after (.array (before.reverse ++ t :: r))⟩ := by
  induction r generalizing t before with
  | nil =>
    refine ⟨[.closeArray], rfl, .cons rfl ?_⟩
    simpa using Reaches.nil _
  | cons u r ih =>
    obtain ⟨hu, hr⟩ := List.forall_mem_cons.mp hr
    obtain ⟨ts, hts, hrest⟩ := ih hr u (t :: before)
    refine ⟨.comma :: (u.tokens ++ ts), ?_, .cons rfl ((hu _).append ?_)⟩
    · rw [← hts]
      simp [itemTokens, withCommas]
    · simpa using hrest

/-- The members after one that is complete, and the end of their object. -/
theorem reaches_members {r : List (List Symbol × Tree)} (hr : ∀ m ∈ r, Builds m.2)
    (m : List Symbol × Tree) (before : List (List Symbol × Tree)) (frames : List Frame) :
    ∃ ts, withCommas (memberTokens (m :: r)) ++ [Token.closeObject] =
        .string m.1 :: .colon :: (m.2.tokens ++ ts) ∧
      Reaches ⟨.object before m.1 :: frames, .after m.2⟩ ts
        ⟨frames, .after (.object (before.reverse ++ m :: r))⟩ := by
  induction r generalizing m before with
  | nil =>
    refine ⟨[.closeObject], rfl, .cons rfl ?_⟩
    simpa using Reaches.nil _
  | cons n r ih =>
    obtain ⟨hn, hr⟩ := List.forall_mem_cons.mp hr
    obtain ⟨ts, hts, hrest⟩ := ih hr n (m :: before)
    refine ⟨.comma :: .string n.1 :: .colon :: (n.2.tokens ++ ts), ?_,
      .cons rfl (.cons rfl (.cons rfl ((hn _).append ?_)))⟩
    · rw [← hts]
      simp [memberTokens, withCommas]
    · simpa using hrest

theorem builds (t : Tree) : Builds t := by
  induction t using Tree.induction with
  | null => exact fun _ => rfl
  | boolean b => exact fun _ => rfl
  | number n => exact fun _ => rfl
  | string s => exact fun _ => rfl
  | array items ih =>
    intro frames
    cases items with
    | nil => rfl
    | cons t r =>
      obtain ⟨ht, hr⟩ := List.forall_mem_cons.mp ih
      obtain ⟨ts, hts, hrest⟩ := reaches_items hr t [] frames
      rw [tokens, List.cons_append, hts]
      exact .cons rfl ((ht.firstItem frames).append hrest)
  | object members ih =>
    intro frames
    cases members with
    | nil => rfl
    | cons m r =>
      obtain ⟨hm, hr⟩ := List.forall_mem_cons.mp ih
      obtain ⟨ts, hts, hrest⟩ := reaches_members hr m [] frames
      rw [tokens, List.cons_append, hts]
      exact .cons rfl (.cons rfl (.cons rfl ((hm _).append hrest)))

end Builder

theorem ofTokens?_eq_some_iff (ts : List Token) (t : Tree) : ofTokens? ts = some t ↔ ts = t.tokens := by
  constructor
  · intro h
    obtain ⟨b, hb, hfinish⟩ := Option.bind_eq_some_iff.mp h
    have hconsumed := Builder.Reaches.consumed hb
    rw [Builder.eq_of_finish hfinish] at hconsumed
    exact hconsumed.symm
  · rintro rfl
    have hreaches : t.tokens.foldlM Builder.step Builder.start = some ⟨[], .after t⟩ :=
      Builder.builds t []
    rw [ofTokens?, hreaches]
    rfl

end Tree

end SpawnGate.Json
