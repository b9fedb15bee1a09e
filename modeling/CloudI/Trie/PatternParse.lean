import CloudI.Framework.Lists
import CloudI.Trie.FindMatch

/-!
# Parsing a string by a pattern

`pattern_parse/3` gives the strings that the wildcards of a pattern stand for,
and `pattern_suffix/2` what follows the pattern in a string. Both try the
places of the literal after a wildcard from left to right.
`patternParse5_spec` says that a parse succeeds exactly when the pattern
matches, and that the accumulators then hold what `assemble` makes of the
strings found; the three forms of the result are read off `assemble`.
-/

namespace CloudI.Trie

open Wildcard

/-! ## The parser -/

inductive PatternOption where
  | default
  | withSuffix
  | expanded
  deriving DecidableEq, Repr

/-- A string, or `{exact, String}`. -/
inductive Parameter where
  | string (s : List Nat)
  | exact (s : List Nat)
  deriving DecidableEq, Repr

/-- The parameters, or `{Parameters, Suffix}`. -/
inductive PatternResult where
  | parameters (l : List Parameter)
  | withSuffix (l : List Parameter) (suffix : List Nat)
  deriving DecidableEq, Repr

/-- `[{exact, lists:reverse(Suffix)} | Parameters]` unless the suffix is empty. -/
def addExact (Suffix : List Nat) (Parameters : List Parameter) : List Parameter :=
  if Suffix ≠ [] then .exact Suffix.reverse :: Parameters else Parameters

/-- `pattern_parse_result/3` -/
def patternParseResult : PatternOption → List Parameter → List Nat → PatternResult
  | .default, Parameters, _ => .parameters Parameters.reverse
  | .withSuffix, Parameters, Suffix => .withSuffix Parameters.reverse Suffix.reverse
  | .expanded, Parameters, Suffix => .parameters (addExact Suffix Parameters).reverse

/-- `pattern_parse_element/3`, with `none` for `error`. -/
def patternParseElement (C : Nat) : List Nat → List Nat → Except Exn (Option (List Nat × List Nat))
  | [], _ => .ok none
  | H :: T, Segment =>
    if H = C then .ok (some (T, Segment.reverse))
    else if H = star then .error .exitBadarg
    else patternParseElement C T (H :: Segment)

theorem patternParseElement_length {C : Nat} {L Segment NewL NewSegment : List Nat}
    (h : patternParseElement C L Segment = .ok (some (NewL, NewSegment))) : NewL.length < L.length := by
  induction L generalizing Segment with
  | nil => cases h
  | cons H T ih =>
    rw [patternParseElement] at h
    split at h
    · cases h
      exact Nat.lt_succ_self _
    · split at h
      · cases h
      · exact (ih h).trans (Nat.lt_succ_self _)

/-- The parameters at a wildcard: the literals read before it are kept by `expanded` alone. -/
def newParsed (opt : PatternOption) (Suffix : List Nat) (Parsed : List Parameter) : List Parameter :=
  if opt = .expanded then addExact Suffix Parsed else Parsed

mutual

/-- `pattern_parse/5`, with `none` for `error`. -/
def patternParse5 : List Nat → List Nat → List Parameter → List Nat → PatternOption →
    Except Exn (Option PatternResult)
  | [], [], Parsed, Suffix, opt => .ok (some (patternParseResult opt Parsed Suffix))
  | [], _ :: _, _, _, _ => .ok none
  | _ :: _, [], _, _, _ => .ok none
  | C :: Pattern, H :: T, Parsed, Suffix, opt =>
    if H = star then .error .exitBadarg
    else if C = star then
      match Pattern with
      | [] => .ok (some (patternParseResult opt (.string (H :: T) :: newParsed opt Suffix Parsed) []))
      | C' :: Pattern =>
        if C' = star then .error .exitBadarg
        else patternParsePattern Pattern C' T [H] (newParsed opt Suffix Parsed) opt
    else if C = H then patternParse5 Pattern T Parsed (C :: Suffix) opt
    else .ok none
termination_by _ L => L.length

/-- `pattern_parse_pattern/6` -/
def patternParsePattern (Pattern : List Nat) (C : Nat) (L Segment : List Nat) (Parsed : List Parameter)
    (opt : PatternOption) : Except Exn (Option PatternResult) :=
  match h : patternParseElement C L Segment with
  | .error e => .error e
  | .ok none => .ok none
  | .ok (some (NewL, NewSegment)) =>
    have := patternParseElement_length h
    match patternParse5 Pattern NewL (.string NewSegment :: Parsed) [C] opt with
    | .error e => .error e
    | .ok none => patternParsePattern Pattern C NewL (C :: NewSegment.reverse) Parsed opt
    | .ok (some Success) => .ok (some Success)
termination_by L.length

end

/-- `pattern_parse/3` -/
def patternParse3 (Pattern L : List Nat) (opt : PatternOption) : Except Exn (Option PatternResult) :=
  patternParse5 Pattern L [] [] opt

/-- `pattern_parse/2` -/
def patternParse (Pattern L : List Nat) : Except Exn (Option PatternResult) := patternParse3 Pattern L .default

/-! ## The suffix after a pattern -/

/-- `pattern_suffix_element/2`, with `none` for `error`. -/
def patternSuffixElement (C : Nat) : List Nat → Except Exn (Option (List Nat))
  | [] => .ok none
  | H :: T =>
    if H = C then .ok (some T)
    else if H = star then .error .exitBadarg
    else patternSuffixElement C T

theorem patternSuffixElement_length {C : Nat} {L NewL : List Nat}
    (h : patternSuffixElement C L = .ok (some NewL)) : NewL.length < L.length := by
  induction L with
  | nil => cases h
  | cons H T ih =>
    rw [patternSuffixElement] at h
    split at h
    · cases h
      exact Nat.lt_succ_self _
    · split at h
      · cases h
      · exact (ih h).trans (Nat.lt_succ_self _)

mutual

/-- `pattern_suffix/2`, with `none` for `error`. -/
def patternSuffix : List Nat → List Nat → Except Exn (Option (List Nat))
  | [], [] => .ok (some [])
  | [], c :: L => .ok (some (c :: L))
  | _ :: _, [] => .ok none
  | C :: Pattern, H :: T =>
    if H = star then .error .exitBadarg
    else if C = star then
      match Pattern with
      | [] => .ok (some [])
      | C' :: Pattern => if C' = star then .error .exitBadarg else patternSuffixPattern Pattern C' T
    else if C = H then patternSuffix Pattern T
    else .ok none
termination_by _ L => L.length

/-- `pattern_suffix_pattern/3` -/
def patternSuffixPattern (Pattern : List Nat) (C : Nat) (L : List Nat) : Except Exn (Option (List Nat)) :=
  match h : patternSuffixElement C L with
  | .error e => .error e
  | .ok none => .ok none
  | .ok (some NewL) =>
    have := patternSuffixElement_length h
    match patternSuffix Pattern NewL with
    | .error e => .error e
    | .ok none => patternSuffixPattern Pattern C NewL
    | .ok (some Success) => .ok (some Success)
termination_by L.length

end

/-! ## Filling in the wildcards -/

/-- The pattern with the strings put in place of its wildcards, when there is one string for each of them. -/
def fill : List Nat → List (List Nat) → Option (List Nat)
  | [], [] => some []
  | [], _ :: _ => none
  | c :: P, W =>
    if c = star then
      match W with
      | [] => none
      | w :: W => (fill P W).map (w ++ ·)
    else (fill P W).map (c :: ·)

variable {L : List Nat}

theorem fill_star_eq_some {P : List Nat} {W : List (List Nat)} :
    fill (star :: P) W = some L ↔ ∃ w W' L', W = w :: W' ∧ fill P W' = some L' ∧ L = w ++ L' := by
  cases W with
  | nil => simp [fill]
  | cons w W => simp [fill, eq_comm]

theorem fill_cons_eq_some {c : Nat} (hc : c ≠ star) {P : List Nat} {W : List (List Nat)} :
    fill (c :: P) W = some L ↔ ∃ L', fill P W = some L' ∧ L = c :: L' := by
  simp [fill, hc, eq_comm]

/-- What `pattern_parse/5` returns when the wildcards stand for the strings. -/
def assemble : List Nat → List (List Nat) → List Parameter → List Nat → PatternOption → PatternResult
  | [], _, Parsed, Suffix, opt => patternParseResult opt Parsed Suffix
  | c :: P, W, Parsed, Suffix, opt =>
    if c = star then
      match W with
      | [] => patternParseResult opt Parsed Suffix
      | w :: W => assemble P W (.string w :: newParsed opt Suffix Parsed) [] opt
    else assemble P W Parsed (c :: Suffix) opt

theorem assemble_star (P : List Nat) (w : List Nat) (W : List (List Nat)) (Parsed : List Parameter) (Suffix : List Nat)
    (opt : PatternOption) : assemble (star :: P) (w :: W) Parsed Suffix opt =
      assemble P W (.string w :: newParsed opt Suffix Parsed) [] opt := rfl

theorem assemble_cons {c : Nat} (hc : c ≠ star) (P : List Nat) (W : List (List Nat)) (Parsed : List Parameter)
    (Suffix : List Nat) (opt : PatternOption) :
    assemble (c :: P) W Parsed Suffix opt = assemble P W Parsed (c :: Suffix) opt := by
  rw [assemble.eq_def]
  simp only [if_neg hc]

/-- The strings are nonempty and fill in the pattern. -/
def Fills (P : List Nat) (W : List (List Nat)) (L : List Nat) : Prop := fill P W = some L ∧ ∀ w ∈ W, w ≠ []

/-! ## The parser tries all alignments -/

/-- The rest after the first `C`, if there is one, and the segment with what was read before it. -/
theorem patternParseElement_eq (h : star ∉ L) (C : Nat) :
    (C ∉ L ∧ ∀ Segment, patternParseElement C L Segment = .ok none) ∨
      ∃ u NewL, L = u ++ C :: NewL ∧ C ∉ u ∧
        ∀ Segment, patternParseElement C L Segment = .ok (some (NewL, Segment.reverse ++ u)) := by
  induction L with
  | nil => exact .inl ⟨List.not_mem_nil, fun _ => rfl⟩
  | cons c L ih =>
    rw [List.mem_cons, not_or] at h
    by_cases hc : c = C
    · subst hc
      exact .inr ⟨[], L, rfl, List.not_mem_nil, fun _ => by rw [patternParseElement, if_pos rfl, List.append_nil]⟩
    · simp only [patternParseElement, if_neg hc, if_neg (Ne.symm h.1)]
      rcases ih h.2 with ⟨hC, he⟩ | ⟨u, NewL, rfl, hu, he⟩
      · exact .inl ⟨by simp [Ne.symm hc, hC], fun Segment => he _⟩
      · refine .inr ⟨c :: u, NewL, rfl, by simp [Ne.symm hc, hu], fun Segment => ?_⟩
        rw [he, List.reverse_cons, List.append_assoc]
        rfl

theorem patternParsePattern_of_not_mem {C : Nat}
    (he : ∀ Segment, patternParseElement C L Segment = .ok none) (P Segment : List Nat)
    (Parsed : List Parameter) (opt : PatternOption) : patternParsePattern P C L Segment Parsed opt = .ok none := by
  rw [patternParsePattern]
  split
  · rename_i h
    cases h.symm.trans (he Segment)
  · rfl
  · rename_i h
    cases h.symm.trans (he Segment)

/-- The literal is read at its first place, and at a later one when the rest cannot be parsed. -/
theorem patternParsePattern_of_mem {C : Nat} {L u NewL : List Nat}
    (he : ∀ Segment, patternParseElement C L Segment = .ok (some (NewL, Segment.reverse ++ u)))
    (P Segment : List Nat) (Parsed : List Parameter) (opt : PatternOption) :
    patternParsePattern P C L Segment Parsed opt =
      match patternParse5 P NewL (.string (Segment.reverse ++ u) :: Parsed) [C] opt with
      | .error e => .error e
      | .ok none => patternParsePattern P C NewL (C :: (Segment.reverse ++ u).reverse) Parsed opt
      | .ok (some Success) => .ok (some Success) := by
  rw [patternParsePattern]
  split
  · rename_i h
    cases h.symm.trans (he Segment)
  · rename_i h
    cases h.symm.trans (he Segment)
  · rename_i h
    cases h.symm.trans (he Segment)
    rfl

/-- A parse fails without a match, and else returns what some strings that fill in the pattern assemble to. -/
structure Parses (P L : List Nat) : Prop where
  fails : L ∉ language star P → ∀ Parsed Suffix opt, patternParse5 P L Parsed Suffix opt = .ok none
  succeeds : L ∈ language star P → ∃ W, Fills P W L ∧ ∀ Parsed Suffix opt,
    patternParse5 P L Parsed Suffix opt = .ok (some (assemble P W Parsed Suffix opt))

/-- The same after a wildcard has read the segment. -/
structure ParsesAfter (P : List Nat) (C : Nat) (L : List Nat) : Prop where
  fails : ¬ AfterStar star (C :: P) L → ∀ Segment Parsed opt,
    patternParsePattern P C L Segment Parsed opt = .ok none
  succeeds : AfterStar star (C :: P) L → ∃ u t W, L = u ++ t ∧ Fills (C :: P) W t ∧ ∀ Segment Parsed opt,
    patternParsePattern P C L Segment Parsed opt =
      .ok (some (assemble (C :: P) W (.string (Segment.reverse ++ u) :: Parsed) [] opt))

theorem parses_nil (P : List Nat) : Parses P [] := by
  cases P with
  | nil =>
    refine ⟨fun h => absurd (nil_mem_language.mpr rfl) h, fun _ => ⟨[], ⟨rfl, by simp⟩, fun Parsed Suffix opt => ?_⟩⟩
    rw [patternParse5]
    rfl
  | cons C P =>
    refine ⟨fun _ _ _ _ => by rw [patternParse5], fun h => ?_⟩
    rw [nil_mem_language] at h
    cases h

theorem parses_literal {C c : Nat} {P L : List Nat} (hc : c ≠ star) (hC : C ≠ star) (h : Parses P L) :
    Parses (C :: P) (c :: L) := by
  by_cases hCc : C = c
  · subst hCc
    have hmem : C :: L ∈ language star (C :: P) ↔ L ∈ language star P := by
      rw [mem_language_cons hC]
      simp
    refine ⟨fun hm Parsed Suffix opt => ?_, fun hm => ?_⟩
    · rw [patternParse5.eq_def]
      simp only [if_neg hc, if_true]
      exact h.fails (mt hmem.mpr hm) _ _ _
    · obtain ⟨W, ⟨hfill, hW⟩, hr⟩ := h.succeeds (hmem.mp hm)
      refine ⟨W, ⟨(fill_cons_eq_some hC).mpr ⟨L, hfill, rfl⟩, hW⟩, fun Parsed Suffix opt => ?_⟩
      rw [patternParse5.eq_def, assemble_cons hC]
      simp only [if_neg hc, if_true]
      exact hr _ _ _
  · refine ⟨fun _ Parsed Suffix opt => ?_, fun hm => ?_⟩
    · rw [patternParse5.eq_def]
      simp only [if_neg hc, if_neg hC, if_neg hCc]
    · obtain ⟨t, -, heq⟩ := (mem_language_cons hC).mp hm
      exact absurd (List.cons.inj heq).1.symm hCc

theorem parses_last {c : Nat} (hc : c ≠ star) (L : List Nat) : Parses [star] (c :: L) := by
  have hm : c :: L ∈ language star [star] := mem_language_star_cons.mpr ⟨L, [], rfl, (List.append_nil L).symm⟩
  refine ⟨fun h => absurd hm h, fun _ => ⟨[c :: L], ⟨by simp [fill], by simp⟩,
    fun Parsed Suffix opt => ?_⟩⟩
  rw [patternParse5.eq_def, assemble_star]
  simp only [if_neg hc, if_true]
  rfl

theorem parses_star {C c : Nat} {P L : List Nat} (hc : c ≠ star) (hC : C ≠ star) (h : ParsesAfter P C L) :
    Parses (star :: C :: P) (c :: L) := by
  refine ⟨fun hm Parsed Suffix opt => ?_, fun hm => ?_⟩
  · rw [patternParse5.eq_def]
    simp only [if_neg hc, if_neg hC, if_true]
    exact h.fails (mt mem_language_star_cons.mpr hm) _ _ _
  · obtain ⟨u, t, W, rfl, ⟨hfill, hW⟩, hr⟩ := h.succeeds (mem_language_star_cons.mp hm)
    refine ⟨(c :: u) :: W, ⟨fill_star_eq_some.mpr ⟨_, _, _, rfl, hfill, rfl⟩, by simpa using hW⟩,
      fun Parsed Suffix opt => ?_⟩
    rw [patternParse5.eq_def, assemble_star]
    simp only [if_neg hc, if_neg hC, if_true]
    exact hr _ _ _

theorem parsesAfter_step {C : Nat} {P L u NewL : List Nat} (hC : C ≠ star) (hu : L = u ++ C :: NewL) (hCu : C ∉ u)
    (he : ∀ Segment, patternParseElement C L Segment = .ok (some (NewL, Segment.reverse ++ u)))
    (h : Parses P NewL) (h' : ParsesAfter P C NewL) : ParsesAfter P C L := by
  have hiff := @afterStar_cons C P u NewL hC hCu
  rw [← hu] at hiff
  have hstep := fun Segment Parsed opt => patternParsePattern_of_mem he P Segment Parsed opt
  refine ⟨fun hm Segment Parsed opt => ?_, fun hm => ?_⟩
  · rw [hiff, not_or] at hm
    rw [hstep, h.fails hm.1]
    exact h'.fails hm.2 _ _ _
  · by_cases hP : NewL ∈ language star P
    · obtain ⟨W, ⟨hfill, hW⟩, hr⟩ := h.succeeds hP
      refine ⟨u, C :: NewL, W, hu, ⟨(fill_cons_eq_some hC).mpr ⟨NewL, hfill, rfl⟩, hW⟩, fun Segment Parsed opt => ?_⟩
      rw [hstep, hr, assemble_cons hC]
    · -- the literal at its first place belongs to the segment
      obtain ⟨u', t, W, hu', hF, hr⟩ := h'.succeeds ((hiff.mp hm).resolve_left hP)
      refine ⟨u ++ C :: u', t, W, by rw [hu, hu']; simp, hF, fun Segment Parsed opt => ?_⟩
      rw [hstep, h.fails hP]
      refine (hr _ _ _).trans ?_
      simp

theorem patternParse5_spec (hL : star ∉ L) :
    (∀ P, NoDouble star P → Parses P L) ∧ ∀ P C, NoDouble star (C :: P) → C ≠ star → ParsesAfter P C L := by
  induction hn : L.length using Nat.strong_induction_on generalizing L with
  | _ n ih =>
    subst hn
    constructor
    · intro P hP
      cases L with
      | nil => exact parses_nil P
      | cons c L =>
        have hc : c ≠ star := fun h => hL (h ▸ List.mem_cons_self ..)
        obtain ⟨ihparse, ihpattern⟩ :=
          ih L.length (Nat.lt_succ_self _) (fun h => hL (List.mem_cons_of_mem _ h)) rfl
        cases P with
        | nil =>
          refine ⟨fun _ _ _ _ => by rw [patternParse5], fun h => ?_⟩
          cases mem_language_nil.mp h
        | cons C P =>
          by_cases hC : C = star
          · subst hC
            cases P with
            | nil => exact parses_last hc L
            | cons C P => exact parses_star hc hP.ne_star (ihpattern P C hP.tail hP.ne_star)
          · exact parses_literal hc hC (ihparse P hP.tail)
    · intro P C hP hC
      rcases patternParseElement_eq hL C with ⟨hCL, he⟩ | ⟨u, NewL, hu, hCu, he⟩
      · exact ⟨fun _ => patternParsePattern_of_not_mem he P, fun h => absurd h (not_afterStar_cons hC hCL)⟩
      · have hNewL : star ∉ NewL := fun h => hL (by rw [hu]; simp [h])
        have hlen : NewL.length < L.length := by
          rw [hu, List.length_append, List.length_cons]
          omega
        obtain ⟨ihparse, ihpattern⟩ := ih NewL.length hlen hNewL rfl
        exact parsesAfter_step hC hu hCu he (ihparse P hP.tail) (ihpattern P C hP hC)

/-! ## The three forms of the result -/

def Parameter.text : Parameter → List Nat
  | .string s | .exact s => s

def Parameter.string? : Parameter → Option (List Nat)
  | .string s => some s
  | .exact _ => none

theorem fill_literal {P : List Nat} (hP : star ∉ P) {W : List (List Nat)} (h : fill P W = some L) :
    W = [] ∧ L = P := by
  induction P generalizing L with
  | nil =>
    cases W with
    | nil => exact ⟨rfl, (Option.some.inj h).symm⟩
    | cons => cases h
  | cons c P ih =>
    rw [List.mem_cons, not_or] at hP
    obtain ⟨L', hL', rfl⟩ := (fill_cons_eq_some (Ne.symm hP.1)).mp h
    obtain ⟨hW, rfl⟩ := ih hP.2 hL'
    exact ⟨hW, rfl⟩

/-- The text after the last wildcard string: all of it when the pattern has no wildcard. -/
def TextAfter (P : List Nat) (W : List (List Nat)) (L s : List Nat) : Prop :=
  star ∉ P ∧ s = L ∨ ∃ P' W' w L', P = P' ++ star :: s ∧ star ∉ s ∧ W = W' ++ [w] ∧ fill P' W' = some L' ∧
    L = L' ++ w ++ s

theorem assemble_default {P : List Nat} {W : List (List Nat)} (h : fill P W = some L)
    (Parsed : List Parameter) (Suffix : List Nat) :
    assemble P W Parsed Suffix .default = .parameters (Parsed.reverse ++ W.map .string) := by
  induction P generalizing W L Parsed Suffix with
  | nil =>
    cases W with
    | nil => simp [assemble, patternParseResult]
    | cons => cases h
  | cons c P ih =>
    by_cases hc : c = star
    · subst hc
      obtain ⟨w, W', L', rfl, hL', -⟩ := fill_star_eq_some.mp h
      rw [assemble_star, ih hL']
      simp [newParsed]
    · obtain ⟨L', hL', -⟩ := (fill_cons_eq_some hc).mp h
      rw [assemble_cons hc, ih hL']

theorem assemble_withSuffix {P : List Nat} {W : List (List Nat)} (h : fill P W = some L)
    (Parsed : List Parameter) (Suffix : List Nat) :
    ∃ s, TextAfter P W L s ∧ assemble P W Parsed Suffix .withSuffix =
      .withSuffix (Parsed.reverse ++ W.map .string) (if star ∈ P then s else Suffix.reverse ++ s) := by
  induction P generalizing W L Parsed Suffix with
  | nil =>
    cases W with
    | nil => exact ⟨L, .inl ⟨List.not_mem_nil, rfl⟩, by cases h; simp [assemble, patternParseResult]⟩
    | cons => cases h
  | cons c P ih =>
    by_cases hc : c = star
    · subst hc
      obtain ⟨w, W', L', rfl, hL', rfl⟩ := fill_star_eq_some.mp h
      obtain ⟨s, hs, hr⟩ := ih hL' (.string w :: newParsed .withSuffix Suffix Parsed) []
      refine ⟨s, .inr ?_, ?_⟩
      · rcases hs with ⟨hP, rfl⟩ | ⟨P', W'', w', L'', rfl, hstar, rfl, hL'', rfl⟩
        · obtain ⟨rfl, rfl⟩ := fill_literal hP hL'
          exact ⟨[], [], w, [], rfl, hP, rfl, rfl, rfl⟩
        · exact ⟨star :: P', w :: W'', w', w ++ L'', rfl, hstar, rfl,
            fill_star_eq_some.mpr ⟨w, W'', L'', rfl, hL'', rfl⟩, by simp⟩
      · rw [assemble_star, hr]
        simp [newParsed]
    · obtain ⟨L', hL', rfl⟩ := (fill_cons_eq_some hc).mp h
      obtain ⟨s, hs, hr⟩ := ih hL' Parsed (c :: Suffix)
      rw [assemble_cons hc, hr]
      rcases hs with ⟨hP, rfl⟩ | ⟨P', W', w, L'', rfl, hstar, rfl, hL'', rfl⟩
      · refine ⟨c :: s, .inl ⟨by simp [Ne.symm hc, hP], rfl⟩, ?_⟩
        simp [Ne.symm hc, hP]
      · refine ⟨s, .inr ⟨c :: P', W', w, c :: L'', rfl, hstar, rfl,
          (fill_cons_eq_some hc).mpr ⟨L'', hL'', rfl⟩, ?_⟩, ?_⟩
        · simp
        · simp

/-- The entries that `addExact` puts before the parameters. -/
theorem addExact_eq (Suffix : List Nat) (Parameters : List Parameter) :
    ∃ l, (addExact Suffix Parameters).reverse = Parameters.reverse ++ l ∧ l.flatMap Parameter.text = Suffix.reverse ∧
      l.filterMap Parameter.string? = [] := by
  by_cases h : Suffix = []
  · exact ⟨[], by simp [addExact, h], by simp [h], rfl⟩
  · exact ⟨[.exact Suffix.reverse], by simp [addExact, h], by simp [Parameter.text], rfl⟩

theorem assemble_expanded {P : List Nat} {W : List (List Nat)} (h : fill P W = some L)
    (Parsed : List Parameter) (Suffix : List Nat) :
    ∃ l, assemble P W Parsed Suffix .expanded = .parameters (Parsed.reverse ++ l) ∧
      l.flatMap Parameter.text = Suffix.reverse ++ L ∧ l.filterMap Parameter.string? = W := by
  induction P generalizing W L Parsed Suffix with
  | nil =>
    cases W with
    | nil =>
      obtain ⟨l, hl, ht, hs⟩ := addExact_eq Suffix Parsed
      exact ⟨l, by rw [← hl]; rfl, by cases h; simp [ht], hs⟩
    | cons => cases h
  | cons c P ih =>
    by_cases hc : c = star
    · subst hc
      obtain ⟨w, W', L', rfl, hL', rfl⟩ := fill_star_eq_some.mp h
      obtain ⟨l, hl, ht, hs⟩ := ih hL' (.string w :: newParsed .expanded Suffix Parsed) []
      obtain ⟨l', hl', ht', hs'⟩ := addExact_eq Suffix Parsed
      refine ⟨l' ++ .string w :: l, ?_, ?_, ?_⟩
      · rw [assemble_star, hl, newParsed, if_pos rfl, List.reverse_cons, hl']
        simp
      · rw [List.flatMap_append, List.flatMap_cons, ht, ht']
        simp [Parameter.text]
      · rw [List.filterMap_append, hs', List.filterMap_cons, hs]
        rfl
    · obtain ⟨L', hL', rfl⟩ := (fill_cons_eq_some hc).mp h
      obtain ⟨l, hl, ht, hs⟩ := ih hL' Parsed (c :: Suffix)
      exact ⟨l, by rw [assemble_cons hc, hl], by rw [ht]; simp, hs⟩

/-- The string is parsed as the strings of the wildcards, in the three forms. -/
structure ParsedAs (P L : List Nat) (W : List (List Nat)) : Prop where
  nonempty : ∀ w ∈ W, w ≠ []
  fills : fill P W = some L
  default : patternParse P L = .ok (some (.parameters (W.map .string)))
  withSuffix : ∃ s, TextAfter P W L s ∧
    patternParse3 P L .withSuffix = .ok (some (.withSuffix (W.map .string) s))
  expanded : ∃ l, patternParse3 P L .expanded = .ok (some (.parameters l)) ∧ l.flatMap Parameter.text = L ∧
    l.filterMap Parameter.string? = W

/-- `pattern_parse` answers `error` exactly when the pattern does not match, as
`wildcard_match_lists/2` does, and otherwise gives the strings of the wildcards. -/
theorem pattern_parse_matches {P L : List Nat} (hP : NoDouble star P) (hL : star ∉ L) :
    Decides (wildcardMatchLists P L) (L ∈ language star P) ∧
      (L ∉ language star P → ∀ opt, patternParse3 P L opt = .ok none) ∧
      (L ∈ language star P → ∃ W, ParsedAs P L W) := by
  have hparse := (patternParse5_spec hL).1 P hP
  refine ⟨(wildcardMatchLists_spec hL).1 P hP, fun hm opt => hparse.fails hm [] [] opt, fun hm => ?_⟩
  obtain ⟨W, ⟨hfill, hW⟩, hr⟩ := hparse.succeeds hm
  have hr := hr [] []
  obtain ⟨s, hs, hsuffix⟩ := assemble_withSuffix hfill [] []
  obtain ⟨l, hl, ht, hstring⟩ := assemble_expanded hfill [] []
  refine ⟨W, hW, hfill, ?_, ⟨s, hs, ?_⟩, l, ?_, by simpa using ht, hstring⟩
  · rw [patternParse, patternParse3, hr, assemble_default hfill]
    rfl
  · rw [patternParse3, hr, hsuffix]
    simp
  · rw [patternParse3, hr, hl]
    rfl

/-- The string `aababb` parsed by the pattern `aa*a*`. -/
theorem pattern_parse_aababb : ∃ W, ParsedAs [97, 97, star, 97, star] [97, 97, 98, 97, 98, 98] W := by
  refine (pattern_parse_matches (by decide) (by decide)).2.2 ?_
  rw [mem_language_cons (by decide)]
  exact ⟨_, (mem_language_cons (by decide)).mpr ⟨_, mem_language_star_cons.mpr ⟨[], _,
    (mem_language_cons (by decide)).mpr ⟨_, mem_language_star_cons.mpr ⟨[98], [], rfl, rfl⟩, rfl⟩, rfl⟩, rfl⟩, rfl⟩

/-! ## The suffix after a match -/

/-- A prefix of the string matches. -/
def Begins (P L : List Nat) : Prop := ∃ M ∈ language star P, ∃ S, L = M ++ S

theorem patternSuffixElement_eq (h : star ∉ L) (C : Nat) :
    (C ∉ L ∧ patternSuffixElement C L = .ok none) ∨
      ∃ u NewL, L = u ++ C :: NewL ∧ C ∉ u ∧ patternSuffixElement C L = .ok (some NewL) := by
  induction L with
  | nil => exact .inl ⟨List.not_mem_nil, rfl⟩
  | cons c L ih =>
    rw [List.mem_cons, not_or] at h
    by_cases hc : c = C
    · subst hc
      exact .inr ⟨[], L, rfl, List.not_mem_nil, by rw [patternSuffixElement, if_pos rfl]⟩
    · simp only [patternSuffixElement, if_neg hc, if_neg (Ne.symm h.1)]
      rcases ih h.2 with ⟨hC, he⟩ | ⟨u, NewL, rfl, hu, he⟩
      · exact .inl ⟨by simp [Ne.symm hc, hC], he⟩
      · exact .inr ⟨c :: u, NewL, rfl, by simp [Ne.symm hc, hu], he⟩

/-- `pattern_suffix/2` answers `error` when no prefix matches, and otherwise
what follows a prefix that does; that is nothing after a last wildcard. -/
structure Suffixes (P L : List Nat) (r : Except Exn (Option (List Nat))) : Prop where
  fails : ¬ Begins P L → r = .ok none
  succeeds : Begins P L → ∃ M ∈ language star P, ∃ S, L = M ++ S ∧ r = .ok (some S) ∧ ([star] <:+ P → S = [])

theorem begins_cons {C c : Nat} {P L : List Nat} (hC : C ≠ star) : Begins (C :: P) (c :: L) ↔ C = c ∧ Begins P L := by
  constructor
  · rintro ⟨M, hM, S, hS⟩
    obtain ⟨t, ht, rfl⟩ := (mem_language_cons hC).mp hM
    obtain ⟨rfl, rfl⟩ := List.cons.inj hS
    exact ⟨rfl, t, ht, S, rfl⟩
  · rintro ⟨rfl, M, hM, S, rfl⟩
    exact ⟨C :: M, (mem_language_cons hC).mpr ⟨M, hM, rfl⟩, S, rfl⟩

/-- A match after a wildcard goes on from one of the places of the literal. -/
theorem begins_star_cons {C c : Nat} {P L : List Nat} (hC : C ≠ star) :
    Begins (star :: C :: P) (c :: L) ↔ ∃ u t, L = u ++ C :: t ∧ Begins P t := by
  constructor
  · rintro ⟨M, hM, S, hS⟩
    obtain ⟨x, u, t, ht, rfl⟩ := mem_language_star.mp hM
    obtain ⟨t', ht', rfl⟩ := (mem_language_cons hC).mp ht
    exact ⟨u, t' ++ S, by simpa using (List.cons.inj hS).2, t', ht', S, rfl⟩
  · rintro ⟨u, t, rfl, M, hM, S, rfl⟩
    refine ⟨c :: (u ++ C :: M),
      mem_language_star_cons.mpr ⟨u, C :: M, (mem_language_cons hC).mpr ⟨M, hM, rfl⟩, rfl⟩, S, ?_⟩
    simp

/-- The literal is read at its first place or at a later one. -/
theorem begins_star_first {C c : Nat} {P u NewL : List Nat} (hC : C ≠ star) (hu : C ∉ u) :
    Begins (star :: C :: P) (c :: (u ++ C :: NewL)) ↔ Begins P NewL ∨ Begins (star :: C :: P) (c :: NewL) := by
  rw [begins_star_cons hC, begins_star_cons hC]
  constructor
  · rintro ⟨u', t, heq, ht⟩
    rcases List.append_eq_append_iff.mp heq with ⟨a, rfl, ha⟩ | ⟨a, rfl, ha⟩
    · cases a with
      | nil => exact .inl ((List.cons.inj ha).2 ▸ ht)
      | cons x a => exact .inr ⟨a, t, (List.cons.inj ha).2, ht⟩
    · cases a with
      | nil => exact .inl ((List.cons.inj ha).2.symm ▸ ht)
      | cons x a =>
        obtain rfl := (List.cons.inj ha).1
        simp at hu
  · rintro (h | ⟨u', t, rfl, ht⟩)
    · exact ⟨u, NewL, rfl, h⟩
    · exact ⟨u ++ C :: u', t, by simp, ht⟩

/-- What follows a later place of the literal follows a match of the whole. -/
theorem mem_star_extend {C c : Nat} {P M : List Nat} (u : List Nat) (h : c :: M ∈ language star (star :: C :: P)) :
    c :: (u ++ M) ∈ language star (star :: C :: P) := by
  rw [mem_language_star_cons] at h ⊢
  obtain ⟨v, t, ht, rfl⟩ := h
  exact ⟨u ++ v, t, ht, by simp⟩

theorem suffix_star_cons {C : Nat} {P : List Nat} (hC : C ≠ star) : [star] <:+ C :: P ↔ [star] <:+ P := by
  rw [List.suffix_cons_iff]
  refine or_iff_right fun h => hC ?_
  exact (List.cons.inj h).1.symm

theorem suffixes_literal {C c : Nat} {P L : List Nat} (hc : c ≠ star) (hC : C ≠ star)
    (h : Suffixes P L (patternSuffix P L)) : Suffixes (C :: P) (c :: L) (patternSuffix (C :: P) (c :: L)) := by
  rw [patternSuffix.eq_def]
  simp only [if_neg hc, if_neg hC]
  by_cases hCc : C = c
  · subst hCc
    rw [if_pos rfl]
    refine ⟨fun hb => h.fails fun hb' => hb ((begins_cons hC).mpr ⟨rfl, hb'⟩), fun hb => ?_⟩
    obtain ⟨M, hM, S, rfl, hr, hlast⟩ := h.succeeds ((begins_cons hC).mp hb).2
    exact ⟨C :: M, (mem_language_cons hC).mpr ⟨M, hM, rfl⟩, S, rfl, hr, fun hs => hlast ((suffix_star_cons hC).mp hs)⟩
  · rw [if_neg hCc]
    exact ⟨fun _ => rfl, fun hb => absurd ((begins_cons hC).mp hb).1 hCc⟩

theorem suffixes_last {c : Nat} (hc : c ≠ star) (L : List Nat) :
    Suffixes [star] (c :: L) (patternSuffix [star] (c :: L)) := by
  have hm : c :: L ∈ language star [star] := mem_language_star_cons.mpr ⟨L, [], rfl, (List.append_nil L).symm⟩
  rw [patternSuffix.eq_def]
  simp only [if_neg hc, if_true]
  refine ⟨fun hb => absurd ⟨_, hm, [], (List.append_nil _).symm⟩ hb, fun _ => ?_⟩
  exact ⟨c :: L, hm, [], (List.append_nil _).symm, rfl, fun _ => rfl⟩

/-- The literal after a wildcard is not in the rest of the string. -/
theorem suffixes_absent {C c : Nat} {P L : List Nat} (hC : C ≠ star) (hCL : C ∉ L)
    (he : patternSuffixElement C L = .ok none) : Suffixes (star :: C :: P) (c :: L) (patternSuffixPattern P C L) := by
  refine ⟨fun _ => ?_, fun hb => ?_⟩
  · rw [patternSuffixPattern]
    split
    · rename_i h
      cases h.symm.trans he
    · rfl
    · rename_i h
      cases h.symm.trans he
  · obtain ⟨u, t, rfl, -⟩ := (begins_star_cons hC).mp hb
    simp at hCL

/-- The step at the first place of the literal after a wildcard. -/
theorem suffixes_step {C c : Nat} {P L u NewL : List Nat} (hC : C ≠ star) (hu : L = u ++ C :: NewL) (hCu : C ∉ u)
    (he : patternSuffixElement C L = .ok (some NewL)) (h : Suffixes P NewL (patternSuffix P NewL))
    (h' : Suffixes (star :: C :: P) (c :: NewL) (patternSuffixPattern P C NewL)) :
    Suffixes (star :: C :: P) (c :: L) (patternSuffixPattern P C L) := by
  have hstep : patternSuffixPattern P C L =
      match patternSuffix P NewL with
      | .error e => .error e
      | .ok none => patternSuffixPattern P C NewL
      | .ok (some Success) => .ok (some Success) := by
    rw [patternSuffixPattern]
    split
    · rename_i h
      cases h.symm.trans he
    · rename_i h
      cases h.symm.trans he
    · rename_i h
      cases h.symm.trans he
      rfl
  have hiff := @begins_star_first C c P u NewL hC hCu
  rw [← hu] at hiff
  refine ⟨fun hb => ?_, fun hb => ?_⟩
  · rw [hiff, not_or] at hb
    rw [hstep, h.fails hb.1]
    exact h'.fails hb.2
  · by_cases hP : Begins P NewL
    · obtain ⟨M, hM, S, rfl, hr, hlast⟩ := h.succeeds hP
      refine ⟨c :: (u ++ C :: M), mem_language_star_cons.mpr ⟨u, C :: M, (mem_language_cons hC).mpr ⟨M, hM, rfl⟩, rfl⟩,
        S, by rw [hu]; simp, by rw [hstep, hr], fun hs => hlast ?_⟩
      rcases List.suffix_cons_iff.mp hs with hs | hs
      · cases hs
      · exact (suffix_star_cons hC).mp hs
    · obtain ⟨M, hM, S, hS, hr, hlast⟩ := h'.succeeds ((hiff.mp hb).resolve_left hP)
      obtain ⟨x, m, t, -, rfl⟩ := mem_language_star.mp hM
      have hNewL : NewL = m ++ t ++ S := (List.cons.inj hS).2
      obtain rfl := (List.cons.inj hS).1
      refine ⟨c :: ((u ++ [C]) ++ (m ++ t)), mem_star_extend _ hM, S, ?_, by rw [hstep, h.fails hP]; exact hr, hlast⟩
      rw [hu, hNewL]
      simp

theorem patternSuffix_spec (hL : star ∉ L) :
    (∀ P, NoDouble star P → Suffixes P L (patternSuffix P L)) ∧
    ∀ P C, NoDouble star (C :: P) → C ≠ star → ∀ c,
      Suffixes (star :: C :: P) (c :: L) (patternSuffixPattern P C L) := by
  induction hn : L.length using Nat.strong_induction_on generalizing L with
  | _ n ih =>
    subst hn
    constructor
    · intro P hP
      cases P with
      | nil =>
        have hr : patternSuffix [] L = .ok (some L) := by cases L <;> rw [patternSuffix]
        refine ⟨fun hb => absurd ⟨[], nil_mem_language.mpr rfl, L, rfl⟩ hb, fun _ => ?_⟩
        exact ⟨[], nil_mem_language.mpr rfl, L, rfl, hr, fun hs => absurd hs (by simp)⟩
      | cons C P =>
        cases L with
        | nil =>
          refine ⟨fun _ => by rw [patternSuffix], fun ⟨M, hM, S, hS⟩ => ?_⟩
          rw [(List.append_eq_nil_iff.mp hS.symm).1, nil_mem_language] at hM
          cases hM
        | cons c L =>
          have hc : c ≠ star := fun h => hL (h ▸ List.mem_cons_self ..)
          obtain ⟨ihsuffix, ihpattern⟩ :=
            ih L.length (Nat.lt_succ_self _) (fun h => hL (List.mem_cons_of_mem _ h)) rfl
          by_cases hC : C = star
          · subst hC
            cases P with
            | nil => exact suffixes_last hc L
            | cons C P =>
              rw [patternSuffix.eq_def]
              simp only [if_neg hc, if_neg hP.ne_star, if_true]
              exact ihpattern P C hP.tail hP.ne_star c
          · exact suffixes_literal hc hC (ihsuffix P hP.tail)
    · intro P C hP hC c
      rcases patternSuffixElement_eq hL C with ⟨hCL, he⟩ | ⟨u, NewL, hu, hCu, he⟩
      · exact suffixes_absent hC hCL he
      · have hNewL : star ∉ NewL := fun h => hL (by rw [hu]; simp [h])
        have hlen : NewL.length < L.length := by
          rw [hu, List.length_append, List.length_cons]
          omega
        obtain ⟨ihsuffix, ihpattern⟩ := ih NewL.length hlen hNewL rfl
        exact suffixes_step hC hu hCu he (ihsuffix P hP.tail) (ihpattern P C hP hC c)

/-- `pattern_suffix/2` is the text after a prefix that matches, and `error` when there is none. -/
theorem pattern_suffix_matches {P L : List Nat} (hP : NoDouble star P) (hL : star ∉ L) :
    (patternSuffix P L = .ok none ↔ ¬ Begins P L) ∧
      (Begins P L → ∃ M ∈ language star P, ∃ S, L = M ++ S ∧ patternSuffix P L = .ok (some S)) ∧
      ([star] <:+ P → Begins P L → patternSuffix P L = .ok (some [])) := by
  obtain ⟨hfail, hsucc⟩ := (patternSuffix_spec hL).1 P hP
  refine ⟨⟨fun hr hb => ?_, hfail⟩, fun hb => ?_, fun hs hb => ?_⟩
  · obtain ⟨M, -, S, -, hr', -⟩ := hsucc hb
    rw [hr] at hr'
    cases hr'
  · obtain ⟨M, hM, S, hS, hr, -⟩ := hsucc hb
    exact ⟨M, hM, S, hS, hr⟩
  · obtain ⟨M, -, S, -, hr, hlast⟩ := hsucc hb
    rw [hr, hlast hs]

/-- The string `///get` starts with the pattern `*/`. -/
theorem pattern_suffix_get : ∃ S, patternSuffix [star, 47] [47, 47, 47, 103, 101, 116] = .ok (some S) := by
  obtain ⟨M, -, S, -, hr⟩ := (pattern_suffix_matches (P := [star, 47]) (L := [47, 47, 47, 103, 101, 116])
    (by decide) (by decide)).2.1 ⟨[47, 47, 47], mem_language_star_cons.mpr ⟨[47], [47],
      (mem_language_cons (by decide)).mpr ⟨[], rfl, rfl⟩, rfl⟩, _, rfl⟩
  exact ⟨S, hr⟩

end CloudI.Trie
