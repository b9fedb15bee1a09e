import CloudI.Framework.Wildcard
import CloudI.Trie.Contents

/-!
# Finding the pattern that matches a string

`find_match/2` walks a trie of patterns along a string: at each node it tries
the literal character first and then `*`. `wildcardMatchLists_spec` says that
the ends of patterns are matched as the language of the pattern, and
`findMatchNode_eq` that the walk is the search over the patterns held, where
a branch is a slot whose node is a tuple.
-/

namespace CloudI.Trie

open Node Wildcard

variable {V : Type}

/-- The character `*`. -/
abbrev star : Nat := 42

/-! ## Matching the end of a pattern -/

/-- `wildcard_match_lists_element/2`, with `none` for `error`. -/
def wildcardMatchListsElement (C : Nat) : List Nat → Except Exn (Option (List Nat))
  | [] => .ok none
  | c :: L =>
    if c = star then .error .exitBadarg
    else if c = C then .ok (some L)
    else wildcardMatchListsElement C L

def wildcardMatchListsValid : List Nat → Bool → Except Exn Bool
  | [], Result => .ok Result
  | c :: L, Result => if c = star then .error .exitBadarg else wildcardMatchListsValid L Result

theorem wildcardMatchListsElement_length {C : Nat} {L NewL : List Nat}
    (h : wildcardMatchListsElement C L = .ok (some NewL)) : NewL.length < L.length := by
  induction L with
  | nil => exact nomatch h
  | cons c L ih =>
    rw [wildcardMatchListsElement] at h
    split at h
    · exact nomatch h
    · split at h
      · cases h
        exact Nat.lt_succ_self _
      · exact (ih h).trans (Nat.lt_succ_self _)

mutual

/-- `wildcard_match_lists/2` -/
def wildcardMatchLists : List Nat → List Nat → Except Exn Bool
  | [], [] => .ok true
  | [], c :: L => wildcardMatchListsValid (c :: L) false
  | _ :: _, [] => .ok false
  | C :: Pattern, c :: L =>
    if c = star then .error .exitBadarg
    else if C = star then
      match Pattern with
      | [] => wildcardMatchListsValid L true
      | C' :: Pattern => if C' = star then .error .badmatch else wildcardMatchListsPattern Pattern C' L
    else if C = c then wildcardMatchLists Pattern L
    else wildcardMatchListsValid (c :: L) false
termination_by _ L => L.length

/-- `wildcard_match_lists_pattern/3` -/
def wildcardMatchListsPattern (Pattern : List Nat) (C : Nat) (L : List Nat) : Except Exn Bool :=
  match h : wildcardMatchListsElement C L with
  | .error e => .error e
  | .ok none => wildcardMatchListsValid L false
  | .ok (some NewL) =>
    have := wildcardMatchListsElement_length h
    match wildcardMatchLists Pattern NewL with
    | .error e => .error e
    | .ok true => .ok true
    | .ok false => wildcardMatchListsPattern Pattern C NewL
termination_by L.length

end

/-! ## Walking the trie -/

/-- The answer `{ok, Key ++ s, Value}` when the end `s` of a pattern matches. -/
def findMatchEnd (s Match Key : List Nat) (Value : V) : Except Exn (Option (List Nat × V)) :=
  (wildcardMatchLists s Match).map fun b => if b then some (Key.reverse ++ s, Value) else none

mutual

/-- `find_match_node/3`; `Key` is reversed and `none` is `error`. -/
def findMatchNode (Match Key : List Nat) (node : Node V) : Except Exn (Option (List Nat × V)) :=
  match Match, node with
  | H :: T, .tuple I0 N child value =>
    if H = star then .error .exitBadarg
    else
      let Result : Except Exn (Option (List Nat × V)) :=
        if h : InRange H I0 N then
          match T, child (slot h), value (slot h) with
          | [], .tuple .., Value | [], .suffix [], Value => .ok (Value.map ((H :: Key).reverse, ·))
          | [], .suffix (_ :: _), _ => .ok none
          | C :: T, .tuple I0' N' child' value', _ =>
            findMatchNode (C :: T) (H :: Key) (.tuple I0' N' child' value')
          | _ :: _, .suffix _, none => .ok none
          | C :: T, .suffix s, some Value => findMatchEnd s (C :: T) (H :: Key) Value
        else .ok none
      match Result with
      | .ok none => findMatchElement1 (H :: T) Key (.tuple I0 N child value)
      | Result => Result
  | _, _ => .error .functionClause
termination_by 2 * Match.length + 1

/-- `find_match_element_1/3` -/
def findMatchElement1 (Match Key : List Nat) (node : Node V) : Except Exn (Option (List Nat × V)) :=
  match Match, node with
  | H :: T, .tuple I0 N child value =>
    if h : InRange star I0 N then
      match child (slot h), value (slot h) with
      | .tuple I0' N' child' value', Value =>
        findMatchElementN T (star :: Key) Value (.tuple I0' N' child' value')
      | .suffix _, none => .ok none
      | .suffix s, some Value => findMatchEnd (star :: s) (H :: T) Key Value
    else .ok none
  | _, _ => .ok none
termination_by 2 * Match.length

/-- `find_match_element_N/4` -/
def findMatchElementN (Match Key : List Nat) (WildValue : Option V) (node : Node V) :
    Except Exn (Option (List Nat × V)) :=
  match Match, node with
  | [], _ => .ok (WildValue.map (Key.reverse, ·))
  | H :: T, .tuple I0 N child value =>
    if H = star then .error .exitBadarg
    else
      let Result : Except Exn (Option (List Nat × V)) :=
        if h : InRange H I0 N then
          match child (slot h), value (slot h) with
          | .tuple I0' N' child' value', _ => findMatchNode T (H :: Key) (.tuple I0' N' child' value')
          | .suffix _, none => .ok none
          | .suffix s, some Value => findMatchEnd s T (H :: Key) Value
        else .ok none
      match Result with
      | .ok none => findMatchElementN T Key WildValue (.tuple I0 N child value)
      | Result => Result
  | _, _ => .error .functionClause
termination_by 2 * Match.length

end

/-- `find_match/2` -/
def findMatch (Match : List Nat) : Node V → Except Exn (Option (List Nat × V))
  | .suffix [] => .ok none
  | node => findMatchNode Match [] node

/-! ## The ends of patterns -/

/-- A call returns normally and tells whether `p` holds. -/
def Decides (r : Except Exn Bool) (p : Prop) : Prop := ∃ b, r = .ok b ∧ (b = true ↔ p)

theorem decides_true {p : Prop} (h : p) : Decides (.ok true) p := ⟨true, rfl, by simp [h]⟩

theorem decides_false {p : Prop} (h : ¬ p) : Decides (.ok false) p := ⟨false, rfl, by simp [h]⟩

theorem Decides.congr {r : Except Exn Bool} {p q : Prop} (h : Decides r p) (hpq : p ↔ q) : Decides r q := by
  obtain ⟨b, hb, hbp⟩ := h
  exact ⟨b, hb, hbp.trans hpq⟩

theorem wildcardMatchListsValid_eq {L : List Nat} (h : star ∉ L) (Result : Bool) :
    wildcardMatchListsValid L Result = .ok Result := by
  induction L with
  | nil => rfl
  | cons c L ih =>
    rw [List.mem_cons, not_or] at h
    rw [wildcardMatchListsValid, if_neg (Ne.symm h.1), ih h.2]

/-- The rest after the first `C`, if there is one. -/
theorem wildcardMatchListsElement_eq {L : List Nat} (h : star ∉ L) (C : Nat) :
    (wildcardMatchListsElement C L = .ok none ∧ C ∉ L) ∨
      ∃ u NewL, wildcardMatchListsElement C L = .ok (some NewL) ∧ L = u ++ C :: NewL ∧ C ∉ u := by
  induction L with
  | nil => exact .inl ⟨rfl, List.not_mem_nil⟩
  | cons c L ih =>
    rw [List.mem_cons, not_or] at h
    rw [wildcardMatchListsElement, if_neg (Ne.symm h.1)]
    by_cases hc : c = C
    · subst hc
      exact .inr ⟨[], L, by rw [if_pos rfl], rfl, List.not_mem_nil⟩
    · rw [if_neg hc]
      rcases ih h.2 with ⟨he, hC⟩ | ⟨u, NewL, he, rfl, hu⟩
      · exact .inl ⟨he, by simp [Ne.symm hc, hC]⟩
      · exact .inr ⟨c :: u, NewL, he, rfl, by simp [Ne.symm hc, hu]⟩

/-- A literal after a wildcard is read at its first place or at a later one. -/
theorem afterStar_cons {C : Nat} {Pattern u NewL : List Nat} (hC : C ≠ star) (hu : C ∉ u) :
    AfterStar star (C :: Pattern) (u ++ C :: NewL) ↔
      NewL ∈ language star Pattern ∨ AfterStar star (C :: Pattern) NewL := by
  constructor
  · rintro ⟨u', _, ht, heq⟩
    obtain ⟨t', ht', rfl⟩ := (mem_language_cons hC).mp ht
    rcases List.append_eq_append_iff.mp heq with ⟨a, rfl, ha⟩ | ⟨a, rfl, ha⟩
    · cases a with
      | nil => exact .inl ((List.cons.inj ha).2 ▸ ht')
      | cons x a =>
        refine .inr ⟨a, C :: t', (mem_language_cons hC).mpr ⟨t', ht', rfl⟩, ?_⟩
        exact (List.cons.inj ha).2
    · cases a with
      | nil => exact .inl ((List.cons.inj ha).2.symm ▸ ht')
      | cons x a =>
        obtain rfl := (List.cons.inj ha).1
        simp at hu
  · rintro (h | ⟨u', t, ht, rfl⟩)
    · exact ⟨u, C :: NewL, (mem_language_cons hC).mpr ⟨NewL, h, rfl⟩, rfl⟩
    · exact ⟨u ++ C :: u', t, ht, by simp⟩

theorem not_afterStar_cons {C : Nat} {Pattern L : List Nat} (hC : C ≠ star) (h : C ∉ L) :
    ¬ AfterStar star (C :: Pattern) L := by
  rintro ⟨u, _, ht, rfl⟩
  obtain ⟨t', -, rfl⟩ := (mem_language_cons hC).mp ht
  simp at h

/-- The ends of patterns are matched as the language of the pattern. -/
theorem wildcardMatchLists_spec {L : List Nat} (hL : star ∉ L) :
    (∀ P, NoDouble star P → Decides (wildcardMatchLists P L) (L ∈ language star P)) ∧
    (∀ P C, NoDouble star (C :: P) → C ≠ star →
      Decides (wildcardMatchListsPattern P C L) (AfterStar star (C :: P) L)) := by
  induction hn : L.length using Nat.strong_induction_on generalizing L with
  | _ n ih =>
    subst hn
    constructor
    · intro P hP
      cases L with
      | nil =>
        cases P with
        | nil => rw [wildcardMatchLists]; exact decides_true rfl
        | cons C P =>
          rw [wildcardMatchLists]
          exact decides_false (by rw [nil_mem_language]; exact List.cons_ne_nil C P)
      | cons c L =>
        have hc : c ≠ star := fun h => hL (h ▸ List.mem_cons_self ..)
        have hL' : star ∉ L := fun h => hL (List.mem_cons_of_mem _ h)
        have ihL := ih L.length (Nat.lt_succ_self _) hL' rfl
        cases P with
        | nil =>
          rw [wildcardMatchLists, wildcardMatchListsValid_eq hL]
          exact decides_false (List.cons_ne_nil c L)
        | cons C P =>
          rw [wildcardMatchLists.eq_def]
          simp only [if_neg hc]
          by_cases hC : C = star
          · subst hC
            rw [if_pos rfl]
            cases P with
            | nil =>
              simp only [wildcardMatchListsValid_eq hL']
              exact decides_true (mem_language_star_cons.mpr ⟨L, [], rfl, (List.append_nil L).symm⟩)
            | cons C P =>
              simp only [if_neg hP.ne_star]
              exact (ihL.2 P C hP.tail hP.ne_star).congr mem_language_star_cons.symm
          · rw [if_neg hC]
            by_cases hCc : C = c
            · subst hCc
              rw [if_pos rfl]
              refine (ihL.1 P hP.tail).congr ?_
              rw [mem_language_cons hC]
              refine ⟨fun h => ⟨L, h, rfl⟩, ?_⟩
              rintro ⟨t, ht, heq⟩
              exact (List.cons.inj heq).2 ▸ ht
            · rw [if_neg hCc, wildcardMatchListsValid_eq hL]
              refine decides_false fun h => ?_
              obtain ⟨t, -, heq⟩ := (mem_language_cons hC).mp h
              exact hCc (List.cons.inj heq).1.symm
    · intro P C hP hC
      have hcases := wildcardMatchListsElement_eq hL C
      rw [wildcardMatchListsPattern]
      split
      · rename_i e he
        rcases hcases with ⟨h, -⟩ | ⟨_, _, h, -⟩ <;> cases he.symm.trans h
      · rename_i he
        rcases hcases with ⟨-, hCL⟩ | ⟨_, _, h, -⟩
        · rw [wildcardMatchListsValid_eq hL]
          exact decides_false (not_afterStar_cons hC hCL)
        · cases he.symm.trans h
      · rename_i NewL he
        rcases hcases with ⟨h, -⟩ | ⟨u, NewL', h, hu, hCu⟩
        · cases he.symm.trans h
        obtain rfl : NewL = NewL' := Option.some.inj (Except.ok.inj (he.symm.trans h))
        have hNewL : star ∉ NewL := fun h => hL (by rw [hu]; simp [h])
        obtain ⟨ih₁, ih₂⟩ := ih NewL.length (wildcardMatchListsElement_length he) hNewL rfl
        obtain ⟨b, hb, hbp⟩ := ih₁ P hP.tail
        have hiff := @afterStar_cons C P u NewL hC hCu
        rw [← hu] at hiff
        simp only [hb]
        cases b with
        | true => exact decides_true (hiff.mpr (.inl (hbp.mp rfl)))
        | false =>
          refine (ih₂ P C hP hC).congr (hiff.trans ?_).symm
          exact or_iff_right fun h => Bool.false_ne_true (hbp.mpr h)

/-! ## The walk as a search -/

/-- The node at the end of a path is a tuple: longer patterns branch off there. -/
def isTupleAt : Node V → List Nat → Bool
  | node, [] => node.isTuple
  | .suffix _, _ :: _ => false
  | .tuple I0 N child _, H :: T => if h : InRange H I0 N then isTupleAt (child (slot h)) T else false

/-- What the walk returns for an outcome of the search below `Key`. -/
def answer (Key : List Nat) : Outcome Nat V → Except Exn (Option (List Nat × V))
  | .found P v => .ok (some (Key.reverse ++ P, v))
  | .missing => .ok none
  | .stuck => .error .functionClause

theorem answer_cons (Key : List Nat) (h : Nat) (r : Outcome Nat V) :
    answer (h :: Key) r = answer Key (r.cons h) := by
  cases r <;> simp [answer, Outcome.cons]

/-- Go on with `next` when nothing was found. -/
theorem answer_bind (Key : List Nat) (h : Nat) (r : Outcome Nat V) (next : Except Exn (Option (List Nat × V))) :
    (match answer (h :: Key) r with
      | .ok none => next
      | Result => Result) =
    match r with
    | .missing => next
    | r => answer Key (r.cons h) := by
  cases r <;> simp [answer, Outcome.cons]

theorem isTupleAt_suffix (s k : List Nat) : isTupleAt (.suffix s : Node V) k = false := by
  cases k <;> rfl

/-- No pattern held: nothing is found. -/
theorem search_none (after : Bool) (t : List Nat) :
    search star after (fun _ => (none : Option V)) (fun _ => false) t = .missing := by
  cases hr : search star after (fun _ => (none : Option V)) (fun _ => false) t with
  | found P v =>
    obtain ⟨_, -, -, hv⟩ := search_found hr
    exact nomatch hv
  | missing => rfl
  | stuck =>
    obtain ⟨_, -, -, hd, -⟩ := search_stuck.mp hr
    exact nomatch hd

/-- One pattern held: it is found when a mask makes it. -/
theorem answer_suffix {after : Bool} {s t : List Nat} {p : Prop} {r : Except Exn Bool} (hr : Decides r p)
    (hp : p ↔ ∃ m : List Bool, m.length = t.length ∧ render star after m t = s) (Key : List Nat) (x : V) :
    (r.map fun b => if b then some (Key.reverse ++ s, x) else none) =
      answer Key (search star after ((suffix s).content (some x)) (isTupleAt (.suffix s : Node V)) t) := by
  obtain ⟨b, rfl, hb⟩ := hr
  rw [hp] at hb
  have hcontent : ∀ P v, (suffix s : Node V).content (some x) P = some v → P = s ∧ v = x := by
    intro P v h
    rw [content_suffix] at h
    split at h
    · exact ⟨‹_›, (Option.some.inj h).symm⟩
    · exact nomatch h
  cases hs : search star after ((suffix s).content (some x)) (isTupleAt (.suffix s : Node V)) t with
  | found P v =>
    obtain ⟨m, hm, hr, hv⟩ := search_found hs
    obtain ⟨rfl, rfl⟩ := hcontent P v hv
    rw [hb.mpr ⟨m, hm, hr⟩]
    rfl
  | missing =>
    have hfalse : b = false := by
      rw [← Bool.not_eq_true, hb]
      rintro ⟨m, hm, rfl⟩
      have := search_missing hs hm
      rw [content_suffix, if_pos rfl] at this
      exact nomatch this
    rw [hfalse]
    rfl
  | stuck =>
    obtain ⟨_, -, -, hd, -⟩ := search_stuck.mp hs
    rw [isTupleAt_suffix] at hd
    exact nomatch hd

/-- The end of a pattern, against the rest of the string. -/
theorem answer_end {s t : List Nat} (ht : star ∉ t) (hs : NoDouble star s) (Key : List Nat) (x : V) :
    findMatchEnd s t Key x =
      answer Key (search star false ((suffix s).content (some x)) (isTupleAt (.suffix s : Node V)) t) := by
  refine answer_suffix ((wildcardMatchLists_spec ht).1 s hs) ⟨(exists_render ht).1 hs, ?_⟩ Key x
  rintro ⟨m, hm, rfl⟩
  exact (render_mem ht hm).1

/-- The end of a pattern from a wildcard on, against the rest of the string. -/
theorem answer_end_star {s t : List Nat} {h : Nat} (ht : star ∉ h :: t) (hs : NoDouble star (star :: s))
    (Key : List Nat) (x : V) :
    findMatchEnd (star :: s) (h :: t) Key x =
      answer (star :: Key)
        (search star true ((suffix s).content (some x)) (isTupleAt (.suffix s : Node V)) t) := by
  have ht' : star ∉ t := fun hm => ht (List.mem_cons_of_mem _ hm)
  have hd := ((wildcardMatchLists_spec ht).1 _ hs).congr mem_language_star_cons
  have := answer_suffix hd ⟨(exists_render ht').2 hs, ?_⟩ (star :: Key) x
  · simpa [findMatchEnd] using this
  · rintro ⟨m, hm, rfl⟩
    exact (render_mem ht' hm).2

section Walk

variable {I0 N : Nat} {child : Fin (N + 1) → Node V} {value : Fin (N + 1) → Option V} {v : Option V} {H : Nat}

theorem content_cons (h : InRange H I0 N) :
    (fun k => (tuple I0 N child value).content v (H :: k)) = (child (slot h)).content (value (slot h)) :=
  funext fun k => content_tuple_cons v k h

theorem isTupleAt_cons (h : InRange H I0 N) :
    (fun k => isTupleAt (.tuple I0 N child value) (H :: k)) = isTupleAt (child (slot h)) :=
  funext fun _ => dif_pos h

theorem search_slot (h : InRange H I0 N) (after : Bool) (t : List Nat) :
    search star after (fun k => (tuple I0 N child value).content v (H :: k))
        (fun k => isTupleAt (.tuple I0 N child value) (H :: k)) t =
      search star after ((child (slot h)).content (value (slot h))) (isTupleAt (child (slot h))) t := by
  rw [content_cons h, isTupleAt_cons h]

theorem search_out (h : ¬ InRange H I0 N) (after : Bool) (t : List Nat) :
    search star after (fun k => (tuple I0 N child value).content v (H :: k))
        (fun k => isTupleAt (.tuple I0 N child value) (H :: k)) t = .missing := by
  rw [show (fun k => (tuple I0 N child value).content v (H :: k)) = fun _ => none from
      funext fun k => content_tuple_out v k h,
    show (fun k => isTupleAt (.tuple I0 N child value) (H :: k)) = fun _ => false from
      funext fun _ => dif_neg h, search_none]

theorem search_suffix_none (s : List Nat) (after : Bool) (t : List Nat) :
    search star after ((suffix s : Node V).content none) (isTupleAt (.suffix s : Node V)) t = .missing := by
  rw [show (suffix s : Node V).content none = fun _ => none from funext (content_suffix_none s),
    show isTupleAt (.suffix s : Node V) = fun _ => false from funext (isTupleAt_suffix s), search_none]

/-- Every pattern held has no two wildcards in a row, read after the prefix `pre`. -/
def Patterns (pre : List Nat) (held : List Nat → Option V) : Prop :=
  ∀ k x, held k = some x → NoDouble star (pre ++ k)

theorem Patterns.slot {pre : List Nat} (hp : Patterns pre ((tuple I0 N child value).content v))
    (h : InRange H I0 N) : Patterns (pre ++ [H]) ((child (slot h)).content (value (slot h))) := by
  intro k x hk
  rw [List.append_assoc]
  exact hp (H :: k) x (by rw [content_tuple_cons _ _ h, hk])

theorem Patterns.forget {pre : List Nat} {held : List Nat → Option V} (hp : Patterns pre held) :
    Patterns [] held :=
  fun k x hk hd => hp k x hk (hd.trans (List.suffix_append pre k).isInfix)

end Walk

/-- The walk from a wildcard on is the search with `*` in front. -/
theorem findMatchElement1_eq {node : Node V} (hn : node.isTuple = true) {v : Option V}
    (hp : Patterns [] (node.content v)) {H : Nat} {T : List Nat} (ht : star ∉ H :: T)
    (hN : ∀ (Key : List Nat) (c : Node V) (w : Option V), c.isTuple = true → Patterns [star] (c.content w) →
      findMatchElementN T Key w c = answer Key (search star true (c.content w) (isTupleAt c) T)) (Key : List Nat) :
    findMatchElement1 (H :: T) Key node =
      answer Key ((search star true (fun k => node.content v (star :: k))
        (fun k => isTupleAt node (star :: k)) T).cons star) := by
  rw [← answer_cons]
  cases node with
  | suffix => exact nomatch hn
  | tuple I0 N child value =>
    rw [findMatchElement1]
    by_cases h : InRange star I0 N
    · rw [dif_pos h, search_slot h]
      have hps := hp.slot h
      generalize child (slot h) = c at hps
      generalize value (slot h) = w at hps
      cases c with
      | tuple I0' N' child' value' => exact hN _ _ _ rfl hps
      | suffix s =>
        cases w with
        | none =>
          rw [search_suffix_none]
          rfl
        | some x =>
          have hs : NoDouble star (star :: s) := hps s x (by rw [content_suffix, if_pos rfl])
          exact answer_end_star ht hs Key x
    · rw [dif_neg h, search_out h]
      rfl

/-- The literal part of `find_match_node/3`. -/
theorem literal_node {I0 N : Nat} {child : Fin (N + 1) → Node V} {value : Fin (N + 1) → Option V}
    {v : Option V} (hp : Patterns [] ((tuple I0 N child value).content v)) {H : Nat} {T : List Nat}
    (Key : List Nat) :
    star ∉ T →
    (∀ (Key : List Nat) (c : Node V) (w : Option V), c.isTuple = true → Patterns [] (c.content w) →
      T ≠ [] → findMatchNode T Key c = answer Key (search star false (c.content w) (isTupleAt c) T)) →
    (if h : InRange H I0 N then
      match T, child (slot h), value (slot h) with
      | [], .tuple .., Value | [], .suffix [], Value => .ok (Value.map ((H :: Key).reverse, ·))
      | [], .suffix (_ :: _), _ => .ok none
      | C :: T, .tuple I0' N' child' value', _ =>
        findMatchNode (C :: T) (H :: Key) (.tuple I0' N' child' value')
      | _ :: _, .suffix _, none => .ok none
      | C :: T, .suffix s, some Value => findMatchEnd s (C :: T) (H :: Key) Value
    else .ok none) =
      answer (H :: Key) (search star false (fun k => (tuple I0 N child value).content v (H :: k))
        (fun k => isTupleAt (.tuple I0 N child value) (H :: k)) T) := by
  intro hT ih
  by_cases h : InRange H I0 N
  · rw [dif_pos h, search_slot h]
    have hps := (hp.slot h).forget
    generalize child (slot h) = c at hps
    generalize value (slot h) = w at hps
    cases T with
    | nil =>
      rw [search]
      cases c with
      | tuple => cases w <;> simp [answer]
      | suffix s =>
        cases s with
        | nil => cases w <;> simp [answer, content_suffix]
        | cons b s => simp [answer, content_suffix]
    | cons C T =>
      cases c with
      | tuple I0' N' child' value' => exact ih _ _ _ rfl hps (List.cons_ne_nil C T)
      | suffix s =>
        cases w with
        | none =>
          rw [search_suffix_none]
          rfl
        | some x => exact answer_end hT (hps s x (by rw [content_suffix, if_pos rfl])) (H :: Key) x
  · rw [dif_neg h, search_out h]
    rfl

/-- The literal part of `find_match_element_N/4`, unless the last character meets a branch. -/
theorem literal_elementN {I0 N : Nat} {child : Fin (N + 1) → Node V} {value : Fin (N + 1) → Option V}
    {v : Option V} (hp : Patterns [] ((tuple I0 N child value).content v)) {H : Nat} {T : List Nat} (hT : star ∉ T)
    (ih : ∀ (Key : List Nat) (c : Node V) (w : Option V), c.isTuple = true → Patterns [] (c.content w) →
      T ≠ [] → findMatchNode T Key c = answer Key (search star false (c.content w) (isTupleAt c) T))
    (hdeep : ¬ (T = [] ∧ isTupleAt (.tuple I0 N child value) [H] = true)) (Key : List Nat) :
    (if h : InRange H I0 N then
      match child (slot h), value (slot h) with
      | .tuple I0' N' child' value', _ => findMatchNode T (H :: Key) (.tuple I0' N' child' value')
      | .suffix _, none => .ok none
      | .suffix s, some Value => findMatchEnd s T (H :: Key) Value
    else .ok none) =
      answer (H :: Key) (search star false (fun k => (tuple I0 N child value).content v (H :: k))
        (fun k => isTupleAt (.tuple I0 N child value) (H :: k)) T) := by
  by_cases h : InRange H I0 N
  · rw [dif_pos h, search_slot h]
    rw [isTupleAt, dif_pos h] at hdeep
    have hps := (hp.slot h).forget
    generalize child (slot h) = c at hps hdeep
    generalize value (slot h) = w at hps
    cases c with
    | tuple I0' N' child' value' => exact ih _ _ _ rfl hps fun hnil => hdeep ⟨hnil, rfl⟩
    | suffix s =>
      cases w with
      | none =>
        rw [search_suffix_none]
        rfl
      | some x => exact answer_end hT (hps s x (by rw [content_suffix, if_pos rfl])) (H :: Key) x
  · rw [dif_neg h, search_out h]
    rfl

/-- The walk is the search over the patterns held. -/
theorem findMatch_search {T : List Nat} (hT : star ∉ T) :
    (∀ (Key : List Nat) (node : Node V) (v : Option V), node.isTuple = true → Patterns [] (node.content v) →
      T ≠ [] → findMatchNode T Key node =
        answer Key (search star false (node.content v) (isTupleAt node) T)) ∧
    (∀ (Key : List Nat) (node : Node V) (v : Option V), node.isTuple = true → Patterns [star] (node.content v) →
      findMatchElementN T Key v node =
        answer Key (search star true (node.content v) (isTupleAt node) T)) := by
  induction T with
  | nil =>
    refine ⟨fun _ _ _ _ _ h => absurd rfl h, fun Key node v hn _ => ?_⟩
    cases node with
    | suffix => exact absurd hn Bool.false_ne_true
    | tuple I0 N child value =>
      rw [findMatchElementN, search, content_tuple_nil]
      cases v <;> simp [answer]
  | cons H T ih =>
    have hH : ¬ H = star := fun h => hT (h ▸ List.mem_cons_self ..)
    have hT' : star ∉ T := fun h => hT (List.mem_cons_of_mem _ h)
    obtain ⟨ih₁, ih₂⟩ := ih hT'
    constructor
    · intro Key node v hn hp _
      have hstar := findMatchElement1_eq hn hp hT ih₂ Key
      cases node with
      | suffix => exact absurd hn Bool.false_ne_true
      | tuple I0 N child value =>
        rw [findMatchNode, if_neg hH, search, if_neg (fun h => Bool.false_ne_true h.1), if_neg Bool.false_ne_true]
        refine (congrArg (fun R => match R with
          | .ok none => findMatchElement1 (H :: T) Key (.tuple I0 N child value)
          | R => R) (literal_node hp Key hT' ih₁)).trans ?_
        rw [answer_bind, hstar]
        generalize search star false _ _ T = r
        cases r <;> rfl
    · intro Key node v hn hp
      cases node with
      | suffix => exact absurd hn Bool.false_ne_true
      | tuple I0 N child value =>
        rw [findMatchElementN, if_neg hH, search, if_pos rfl]
        by_cases hdeep : T = [] ∧ isTupleAt (.tuple I0 N child value) [H] = true
        · rw [if_pos ⟨rfl, hdeep⟩]
          obtain ⟨rfl, hd⟩ := hdeep
          by_cases h : InRange H I0 N
          · rw [isTupleAt, dif_pos h] at hd
            simp only [dif_pos h]
            cases hc : child (slot h) with
            | suffix s => rw [hc] at hd; exact absurd hd Bool.false_ne_true
            | tuple => simp [findMatchNode, answer]
          · rw [isTupleAt, dif_neg h] at hd
            cases hd
        · rw [if_neg fun h => hdeep h.2]
          refine (congrArg (fun R => match R with
            | .ok none => findMatchElementN T Key v (.tuple I0 N child value)
            | R => R) (literal_elementN hp.forget hT' ih₁ hdeep Key)).trans ?_
          rw [answer_bind, ih₂ Key _ v hn hp]
          generalize search star false _ _ T = r
          cases r <;> rfl

end CloudI.Trie
