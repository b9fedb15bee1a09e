import Mathlib.Computability.Language

/-!
# Patterns with a wildcard

A pattern is a word in which the character `star` stands for any nonempty
word (`.+`); `language` is the language of a pattern. A mask says of each
character of a word whether it is read literally or by a wildcard, and
`render` is the pattern a mask makes of the word: `render_mem` and
`exists_render` say that the patterns that match a word are the ones its masks
make.

`search` looks a word up in a set of patterns: it tries the masks of the word
in lexicographic order, literal before wild, and stops at the first pattern
held (`search_found`, `search_missing`). It is stuck when it reads the last
character literally right after a wild one where longer patterns branch off
(`search_stuck`).
-/

namespace CloudI.Wildcard

variable {α : Type*}

section Language

variable [DecidableEq α] (star : α)

/-- The words one character of a pattern stands for. -/
def charLanguage (c : α) : Language α := { w | if c = star then w ≠ [] else w = [c] }

/-- The words a pattern matches. -/
def language (P : List α) : Language α := (P.map (charLanguage star)).prod

variable {star}

theorem mem_charLanguage {c : α} {w : List α} :
    w ∈ charLanguage star c ↔ if c = star then w ≠ [] else w = [c] := Iff.rfl

@[simp] theorem mem_language_nil {w : List α} : w ∈ language star [] ↔ w = [] := Iff.rfl

theorem mem_language_cons {c : α} (h : c ≠ star) {P w : List α} :
    w ∈ language star (c :: P) ↔ ∃ t ∈ language star P, w = c :: t := by
  rw [language, List.map_cons, List.prod_cons, Language.mem_mul]
  simp only [mem_charLanguage, if_neg h]
  constructor
  · rintro ⟨_, rfl, t, ht, rfl⟩
    exact ⟨t, ht, rfl⟩
  · rintro ⟨t, ht, rfl⟩
    exact ⟨[c], rfl, t, ht, rfl⟩

theorem mem_language_star {P w : List α} :
    w ∈ language star (star :: P) ↔ ∃ x u, ∃ t ∈ language star P, w = x :: (u ++ t) := by
  rw [language, List.map_cons, List.prod_cons, Language.mem_mul]
  simp only [mem_charLanguage, if_true]
  constructor
  · rintro ⟨_ | ⟨x, u⟩, hu, t, ht, rfl⟩
    · exact absurd rfl hu
    · exact ⟨x, u, t, ht, rfl⟩
  · rintro ⟨x, u, t, ht, rfl⟩
    exact ⟨x :: u, List.cons_ne_nil x u, t, ht, rfl⟩

/-- Only the empty pattern matches the empty word. -/
theorem nil_mem_language {P : List α} : [] ∈ language star P ↔ P = [] := by
  cases P with
  | nil => simp
  | cons c P =>
    by_cases hc : c = star
    · subst hc
      simp [mem_language_star]
    · simp [mem_language_cons hc]

end Language

/-! ## Masks -/

/-- The pattern a mask makes of a word; `after` is whether the character
before was wild, so that a run of wild characters makes one `star`. -/
def render (star : α) : Bool → List Bool → List α → List α
  | after, true :: m, _ :: t => if after then render star true m t else star :: render star true m t
  | _, false :: m, h :: t => h :: render star false m t
  | _, _, _ => []

variable {star : α}

/-- No two wildcards in a row. -/
def NoDouble (star : α) (P : List α) : Prop := ¬ [star, star] <:+: P

instance [DecidableEq α] (P : List α) : Decidable (NoDouble star P) :=
  inferInstanceAs (Decidable ¬ [star, star] <:+: P)

theorem NoDouble.tail {c : α} {P : List α} (h : NoDouble star (c :: P)) : NoDouble star P :=
  fun hP => h (hP.trans (List.suffix_cons c P).isInfix)

theorem NoDouble.ne_star {c : α} {P : List α} (h : NoDouble star (star :: c :: P)) : c ≠ star := by
  rintro rfl
  exact h (List.prefix_append [c, c] P).isInfix

section Masks

variable [DecidableEq α]

/-- The rest of a word after a wild character: what the pattern matches, after
any number of characters more. -/
def AfterStar (star : α) (P w : List α) : Prop := ∃ u, ∃ t ∈ language star P, w = u ++ t

theorem mem_language_star_cons {P t : List α} {h : α} :
    h :: t ∈ language star (star :: P) ↔ AfterStar star P t := by
  rw [mem_language_star]
  constructor
  · rintro ⟨x, u, t', ht', hw⟩
    exact ⟨u, t', ht', (List.cons.inj hw).2⟩
  · rintro ⟨u, t', ht', rfl⟩
    exact ⟨h, u, t', ht', rfl⟩

/-- A word matches each pattern its masks make. -/
theorem render_mem {w : List α} (hw : star ∉ w) {m : List Bool} (hm : m.length = w.length) :
    w ∈ language star (render star false m w) ∧ AfterStar star (render star true m w) w := by
  induction w generalizing m with
  | nil =>
    obtain rfl := List.length_eq_zero_iff.mp hm
    exact ⟨rfl, [], [], rfl, rfl⟩
  | cons h t ih =>
    obtain ⟨b, m, rfl⟩ := List.exists_cons_of_length_eq_add_one hm
    rw [List.mem_cons, not_or] at hw
    obtain ⟨ih₁, ih₂⟩ := ih hw.2 (by simpa using hm)
    cases b with
    | false =>
      have hlit : h :: t ∈ language star (h :: render star false m t) :=
        (mem_language_cons (Ne.symm hw.1)).mpr ⟨t, ih₁, rfl⟩
      exact ⟨hlit, [], _, hlit, rfl⟩
    | true =>
      refine ⟨mem_language_star_cons.mpr ih₂, ?_⟩
      obtain ⟨u, t', ht', hu⟩ := ih₂
      exact ⟨h :: u, t', ht', by rw [hu]; rfl⟩

/-- Each pattern a word matches is made by a mask. -/
theorem exists_render {P w : List α} (hw : star ∉ w) :
    (NoDouble star P → w ∈ language star P →
      ∃ m : List Bool, m.length = w.length ∧ render star false m w = P) ∧
    (NoDouble star (star :: P) → AfterStar star P w →
      ∃ m : List Bool, m.length = w.length ∧ render star true m w = P) := by
  induction w generalizing P with
  | nil =>
    refine ⟨fun _ h => ⟨[], rfl, (nil_mem_language.mp h).symm⟩, fun _ ⟨u, t, ht, hu⟩ => ⟨[], rfl, ?_⟩⟩
    rw [(List.append_eq_nil_iff.mp hu.symm).2] at ht
    exact (nil_mem_language.mp ht).symm
  | cons h t ih =>
    rw [List.mem_cons, not_or] at hw
    have ih := fun P' => @ih P' hw.2
    -- a literal first character, in either state
    have hlit : ∀ {c P'}, P = c :: P' → c ≠ star → NoDouble star P → h :: t ∈ language star P →
        ∃ m : List Bool, m.length = t.length ∧ h :: render star false m t = P := by
      rintro c P' rfl hc hP hmem
      obtain ⟨t', ht', heq⟩ := (mem_language_cons hc).mp hmem
      obtain ⟨rfl, rfl⟩ := List.cons.inj heq
      obtain ⟨m, hm, hr⟩ := (ih P').1 hP.tail ht'
      exact ⟨m, hm, by rw [hr]⟩
    constructor
    · intro hP hmem
      cases P with
      | nil => exact absurd hmem (List.cons_ne_nil h t)
      | cons c P' =>
        by_cases hc : c = star
        · subst hc
          obtain ⟨m, hm, hr⟩ := (ih P').2 hP (mem_language_star_cons.mp hmem)
          exact ⟨true :: m, by rw [List.length_cons, hm, List.length_cons], by rw [render, if_neg nofun, hr]⟩
        · obtain ⟨m, hm, hr⟩ := hlit rfl hc hP hmem
          exact ⟨false :: m, by rw [List.length_cons, hm, List.length_cons], hr⟩
    · rintro hP ⟨_ | ⟨x, u⟩, t', ht', heq⟩
      · obtain rfl : h :: t = t' := heq
        cases P with
        | nil => exact absurd ht' (List.cons_ne_nil h t)
        | cons c P' =>
          obtain ⟨m, hm, hr⟩ := hlit rfl hP.ne_star hP.tail ht'
          exact ⟨false :: m, by rw [List.length_cons, hm, List.length_cons], hr⟩
      · obtain ⟨m, hm, hr⟩ := (ih P).2 hP ⟨u, t', ht', (List.cons.inj heq).2⟩
        exact ⟨true :: m, by rw [List.length_cons, hm, List.length_cons], by rw [render, if_pos rfl, hr]⟩

end Masks

/-! ## The search -/

/-- How a search ends. -/
inductive Outcome (α V : Type*) where
  | found (P : List α) (v : V)
  | missing
  | stuck

/-- The outcome with a character in front of the pattern found. -/
def Outcome.cons {V : Type*} (c : α) : Outcome α V → Outcome α V
  | found P v => found (c :: P) v
  | missing => missing
  | stuck => stuck

/-- Search the patterns `held`, of which `deep` are branched: the first
character literally, and else wild, as far as `after` a wild character it is
not the last one before a branch. -/
def search {V : Type*} (star : α) (after : Bool) (held : List α → Option V) (deep : List α → Bool) :
    List α → Outcome α V
  | [] => (held []).elim .missing (.found [])
  | h :: t =>
    if after = true ∧ t = [] ∧ deep [h] = true then .stuck
    else
      match search star false (fun k => held (h :: k)) (fun k => deep (h :: k)) t with
      | .missing =>
        if after then search star true held deep t
        else (search star true (fun k => held (star :: k)) (fun k => deep (star :: k)) t).cons star
      | r => r.cons h

section Search

variable {V : Type*} {held : List α → Option V} {deep : List α → Bool} {after : Bool} {w : List α}

theorem Outcome.cons_eq_found {c : α} {r : Outcome α V} {P : List α} {v : V} (h : r.cons c = .found P v) :
    ∃ P', P = c :: P' ∧ r = .found P' v := by
  cases r with
  | found P' v' => cases h; exact ⟨P', rfl, rfl⟩
  | missing => exact nomatch h
  | stuck => exact nomatch h

@[simp] theorem Outcome.cons_eq_missing {c : α} {r : Outcome α V} : r.cons c = .missing ↔ r = .missing := by
  cases r <;> simp [Outcome.cons]

@[simp] theorem Outcome.cons_eq_stuck {c : α} {r : Outcome α V} : r.cons c = .stuck ↔ r = .stuck := by
  cases r <;> simp [Outcome.cons]

theorem render_literal (star : α) (after : Bool) (m : List Bool) (h : α) (t : List α) :
    render star after (false :: m) (h :: t) = h :: render star false m t := by
  cases after <;> rfl

/-- What is found is held, and made by a mask. -/
theorem search_found {P : List α} {v : V} (hs : search star after held deep w = .found P v) :
    ∃ m : List Bool, m.length = w.length ∧ render star after m w = P ∧ held P = some v := by
  fun_induction search star after held deep w generalizing P with
  | case1 after held deep =>
    cases hv : held [] with
    | none => rw [hv] at hs; exact nomatch hs
    | some x =>
      rw [hv] at hs
      cases hs
      exact ⟨[], rfl, by cases after <;> rfl, hv⟩
  | case2 => exact nomatch hs
  | case3 held deep h t _ _ _ ih =>
    obtain ⟨m, hm, hr, hv⟩ := ih hs
    exact ⟨true :: m, by rw [List.length_cons, hm, List.length_cons], by rw [render, if_pos rfl, hr], hv⟩
  | case4 after held deep h t _ _ hafter _ ih =>
    obtain ⟨P', rfl, hP'⟩ := Outcome.cons_eq_found hs
    obtain ⟨m, hm, hr, hv⟩ := ih hP'
    exact ⟨true :: m, by rw [List.length_cons, hm, List.length_cons], by rw [render, if_neg hafter, hr], hv⟩
  | case5 after held deep h t _ _ ih =>
    obtain ⟨P', rfl, hP'⟩ := Outcome.cons_eq_found hs
    obtain ⟨m, hm, hr, hv⟩ := ih hP'
    exact ⟨false :: m, by rw [List.length_cons, hm, List.length_cons], by rw [render_literal, hr], hv⟩

/-- When the search misses, no mask makes a pattern held. -/
theorem search_missing (hs : search star after held deep w = .missing) {m : List Bool}
    (hm : m.length = w.length) : held (render star after m w) = none := by
  fun_induction search star after held deep w generalizing m with
  | case1 after held deep =>
    obtain rfl := List.length_eq_zero_iff.mp hm
    cases hv : held [] with
    | none => cases after <;> exact hv
    | some x => rw [hv] at hs; exact nomatch hs
  | case2 => exact nomatch hs
  | case3 held deep h t hmiss _ ih₁ ih₂ =>
    obtain ⟨b, m, rfl⟩ := List.exists_cons_of_length_eq_add_one hm
    cases b with
    | false => exact ih₁ hmiss (by simpa using hm)
    | true =>
      rw [render, if_pos rfl]
      exact ih₂ hs (by simpa using hm)
  | case4 after held deep h t _ hmiss hafter ih₁ ih₂ =>
    obtain ⟨b, m, rfl⟩ := List.exists_cons_of_length_eq_add_one hm
    cases b with
    | false =>
      rw [render_literal]
      exact ih₁ hmiss (by simpa using hm)
    | true =>
      rw [render, if_neg hafter]
      exact ih₂ (Outcome.cons_eq_missing.mp hs) (by simpa using hm)
  | case5 after held deep h t _ hne _ => exact (hne (Outcome.cons_eq_missing.mp hs)).elim

/-- A mask reads the last character literally right after a wild one, where
longer patterns branch off, and no mask before it makes a pattern held. -/
def Blocked (star : α) (after : Bool) (held : List α → Option V) (deep : List α → Bool) (w : List α) : Prop :=
  ∃ m : List Bool, m.length = w.length ∧ [true, false] <:+ after :: m ∧
    deep (render star after m w) = true ∧
    ∀ m' < m, m'.length = w.length → held (render star after m' w) = none

/-- Blocked after a first literal character. -/
theorem blocked_literal {h : α} {t : List α} (hdeep : ¬ (after = true ∧ t = [] ∧ deep [h] = true))
    {m : List Bool} (hm : m.length = t.length) (hsuf : [true, false] <:+ after :: false :: m)
    (hd : deep (render star after (false :: m) (h :: t)) = true)
    (hmin : ∀ m' < false :: m, m'.length = t.length + 1 → held (render star after m' (h :: t)) = none) :
    Blocked star false (fun k => held (h :: k)) (fun k => deep (h :: k)) t := by
  rw [render_literal] at hd
  refine ⟨m, hm, ?_, hd, fun m' hlt hm' => ?_⟩
  · rcases List.suffix_cons_iff.mp hsuf with heq | hsuf
    · obtain ⟨hafter, hnil⟩ := List.cons.inj heq
      obtain rfl : m = [] := (List.cons.inj hnil).2.symm
      obtain rfl := List.length_eq_zero_iff.mp hm.symm
      exact absurd ⟨hafter.symm, rfl, hd⟩ hdeep
    · exact hsuf
  · have := hmin (false :: m') (List.cons_lt_cons_iff.mpr (.inr ⟨rfl, hlt⟩))
      (by rw [List.length_cons, hm'])
    rwa [render_literal] at this

/-- Blocked after a first wild character, when the literal one is of no use. -/
theorem blocked_wild {h : α} {t : List α} (hdeep : ¬ (after = true ∧ t = [] ∧ deep [h] = true))
    (hlit : ¬ Blocked star false (fun k => held (h :: k)) (fun k => deep (h :: k)) t)
    (hnone : ∀ m : List Bool, m.length = t.length → held (h :: render star false m t) = none) :
    Blocked star after held deep (h :: t) ↔
      Blocked star true (fun k => held (if after then k else star :: k))
        (fun k => deep (if after then k else star :: k)) t := by
  have hwild : ∀ m, render star after (true :: m) (h :: t) =
      if after then render star true m t else star :: render star true m t := fun m => by rw [render]
  constructor
  · rintro ⟨m, hm, hsuf, hd, hmin⟩
    obtain ⟨b, m, rfl⟩ := List.exists_cons_of_length_eq_add_one hm
    have hm' : m.length = t.length := by simpa using hm
    cases b with
    | false => exact absurd (blocked_literal hdeep hm' hsuf hd hmin) hlit
    | true =>
      refine ⟨m, hm', ?_, by rw [hwild] at hd; exact hd, fun m' hlt hlen => ?_⟩
      · rcases List.suffix_cons_iff.mp hsuf with heq | hsuf
        · exact absurd (List.cons.inj (List.cons.inj heq).2).1 nofun
        · exact hsuf
      · have := hmin (true :: m') (List.cons_lt_cons_iff.mpr (.inr ⟨rfl, hlt⟩))
          (by rw [List.length_cons, hlen]; rfl)
        rwa [hwild] at this
  · rintro ⟨m, hm, hsuf, hd, hmin⟩
    refine ⟨true :: m, by rw [List.length_cons, hm]; rfl, hsuf.trans (List.suffix_cons after _),
      by rw [hwild]; exact hd, fun m' hlt hlen => ?_⟩
    obtain ⟨b, m', rfl⟩ := List.exists_cons_of_length_eq_add_one hlen
    have hlen' : m'.length = t.length := by simpa using hlen
    cases b with
    | false => rw [render_literal]; exact hnone m' hlen'
    | true =>
      rw [hwild]
      rcases List.cons_lt_cons_iff.mp hlt with hb | ⟨-, hlt'⟩
      · exact absurd hb (by decide)
      · exact hmin m' hlt' hlen'

/-- The search is stuck exactly when it is blocked. -/
theorem search_stuck : search star after held deep w = .stuck ↔ Blocked star after held deep w := by
  fun_induction search star after held deep w with
  | case1 after held deep =>
    constructor
    · intro hs
      cases hv : held [] with
      | none => rw [hv] at hs; exact nomatch hs
      | some x => rw [hv] at hs; exact nomatch hs
    · rintro ⟨m, hm, hsuf, -⟩
      obtain rfl := List.length_eq_zero_iff.mp hm
      have := hsuf.length_le
      simp at this
  | case2 after held deep h t hcond =>
    obtain ⟨rfl, rfl, hdeep⟩ := hcond
    refine ⟨fun _ => ⟨[false], rfl, List.suffix_rfl, hdeep, fun m' hlt hm' => ?_⟩, fun _ => rfl⟩
    obtain ⟨b, rfl⟩ := List.length_eq_one_iff.mp hm'
    cases b <;> exact absurd hlt (by decide)
  | case3 held deep h t hmiss hcond ih₁ ih₂ =>
    refine ih₂.trans (blocked_wild hcond (fun hb => ?_) fun m hm => search_missing hmiss hm).symm
    exact nomatch hmiss.symm.trans (ih₁.mpr hb)
  | case4 after held deep h t hcond hmiss hafter ih₁ ih₂ =>
    obtain rfl := Bool.eq_false_iff.mpr hafter
    rw [Outcome.cons_eq_stuck]
    refine ih₂.trans (blocked_wild hcond (fun hb => ?_) fun m hm => search_missing hmiss hm).symm
    exact nomatch hmiss.symm.trans (ih₁.mpr hb)
  | case5 after held deep h t hcond hne ih =>
    rw [Outcome.cons_eq_stuck]
    constructor
    · intro hs
      obtain ⟨m, hm, hsuf, hd, hmin⟩ := ih.mp hs
      refine ⟨false :: m, by rw [List.length_cons, hm]; rfl, hsuf.trans (List.suffix_cons after _),
        by rw [render_literal]; exact hd, fun m' hlt hlen => ?_⟩
      obtain ⟨b, m', rfl⟩ := List.exists_cons_of_length_eq_add_one hlen
      rcases List.cons_lt_cons_iff.mp hlt with hb | ⟨rfl, hlt'⟩
      · exact absurd hb (by cases b <;> decide)
      · rw [render_literal]
        exact hmin m' hlt' (by simpa using hlen)
    · rintro ⟨m, hm, hsuf, hd, hmin⟩
      obtain ⟨b, m, rfl⟩ := List.exists_cons_of_length_eq_add_one hm
      have hm' : m.length = t.length := by simpa using hm
      cases b with
      | false => exact ih.mpr (blocked_literal hcond hm' hsuf hd hmin)
      | true =>
        -- a pattern found literally comes before every mask with a wild character here
        cases hr : search star false (fun k => held (h :: k)) (fun k => deep (h :: k)) t with
        | missing => exact (hne hr).elim
        | stuck => rfl
        | found P v =>
          obtain ⟨m₁, hm₁, hP, hv⟩ := search_found hr
          have := hmin (false :: m₁) (List.cons_lt_cons_iff.mpr (.inl (by decide)))
            (by rw [List.length_cons, hm₁]; rfl)
          rw [render_literal, hP] at this
          exact nomatch this.symm.trans hv

/-! ## What the search prefers -/

section Prefers

variable [DecidableEq α] {P Q R u : List α} {v : V}

/-- A pattern that has a literal character where the one found has a wildcard, after the same literal characters, is
not held or does not match. -/
theorem search_literal_first (hw : star ∉ w) (hu : star ∉ u)
    (hs : search star false held deep w = .found (u ++ star :: P) v)
    {c : α} (hc : c ≠ star) (hQ : NoDouble star Q) (hheld : held (u ++ c :: Q) ≠ none) :
    w ∉ language star (u ++ c :: Q) := by
  induction u generalizing held deep w with
  | nil =>
    intro hmem
    obtain ⟨t, ht, rfl⟩ := (mem_language_cons hc).mp hmem
    rw [List.mem_cons, not_or] at hw
    rw [search, if_neg (fun h => Bool.false_ne_true h.1)] at hs
    split at hs
    · -- the literal character was tried before
      rename_i hmiss
      obtain ⟨m, hm, hr⟩ := (exists_render hw.2).1 hQ ht
      have hnone := search_missing hmiss hm
      rw [hr] at hnone
      exact hheld hnone
    · obtain ⟨P', hP, -⟩ := Outcome.cons_eq_found hs
      exact hc (List.cons.inj hP).1.symm
  | cons a u ih =>
    rw [List.mem_cons, not_or] at hu
    intro hmem
    obtain ⟨t, ht, rfl⟩ := (mem_language_cons (Ne.symm hu.1)).mp hmem
    rw [List.mem_cons, not_or] at hw
    rw [search, if_neg (fun h => Bool.false_ne_true h.1)] at hs
    split at hs
    · rw [if_neg Bool.false_ne_true] at hs
      obtain ⟨P', hP, -⟩ := Outcome.cons_eq_found hs
      exact hu.1 (List.cons.inj hP).1.symm
    · obtain ⟨P', hP, hfound⟩ := Outcome.cons_eq_found hs
      rw [← (List.cons.inj hP).2] at hfound
      exact ih hw.2 hu.2 hfound hheld ht

/-- What a pattern up to a wildcard matches at the start of a word, and with more behind the wildcard later in it, the
longer pattern matches from the start. -/
theorem language_shift {A t t' y : List α} (ht : ∃ x, x ∈ language star A ∧ x <+: t)
    (ht' : t' ∈ language star (A ++ star :: R)) (heq : t = y ++ t') : t ∈ language star (A ++ star :: R) := by
  induction A generalizing t t' y with
  | nil =>
    rw [List.nil_append, mem_language_star] at ht' ⊢
    obtain ⟨x, u, z, hz, rfl⟩ := ht'
    cases y with
    | nil => exact ⟨x, u, z, hz, heq⟩
    | cons b y => exact ⟨b, y ++ x :: u, z, hz, by rw [heq]; simp⟩
  | cons a A ih =>
    by_cases ha : a = star
    · subst ha
      rw [List.cons_append, mem_language_star] at ht' ⊢
      obtain ⟨x, u, z, hz, rfl⟩ := ht'
      cases y with
      | nil => exact ⟨x, u, z, hz, heq⟩
      | cons b y => exact ⟨b, y ++ x :: u, z, hz, by rw [heq]; simp⟩
    · obtain ⟨x, hx, s, rfl⟩ := ht
      obtain ⟨x', hx', rfl⟩ := (mem_language_cons ha).mp hx
      rw [List.cons_append, mem_language_cons ha] at ht' ⊢
      obtain ⟨z, hz, rfl⟩ := ht'
      refine ⟨x' ++ s, ?_, rfl⟩
      cases y with
      | nil =>
        rw [show x' ++ s = z from (List.cons.inj heq).2]
        exact hz
      | cons b y =>
        refine ih ⟨x', hx', s, rfl⟩ hz (y := y ++ [a]) ?_
        rw [List.append_assoc]
        exact (List.cons.inj heq).2

/-- What the search matches a word with: a pattern, or the rest of one after a wild character. -/
def Matches (star : α) (after : Bool) (P w : List α) : Prop :=
  if after then AfterStar star P w else w ∈ language star P

/-- A pattern that goes on after the wildcard that ends the one found is not held or does not match. -/
theorem search_longest (hw : star ∉ w) (hs : search star after held deep w = .found P v)
    (hP : (after = true ∧ P = []) ∨ ∃ P₀, P = P₀ ++ [star]) (hR : R ≠ [])
    (hN : NoDouble star (if after then star :: (P ++ R) else P ++ R)) (hheld : held (P ++ R) ≠ none) :
    ¬ Matches star after (P ++ R) w := by
  fun_induction search star after held deep w generalizing P with
  | case1 after held deep =>
    intro hmem
    have hnil : P = [] := by
      cases hv : held [] with
      | none => rw [hv] at hs; cases hs
      | some x => rw [hv] at hs; cases hs; rfl
    subst hnil
    rcases hP with ⟨rfl, -⟩ | ⟨P₀, hP₀⟩
    · obtain ⟨u, t, ht, hu⟩ := hmem
      rw [(List.append_eq_nil_iff.mp hu.symm).2, nil_mem_language] at ht
      exact hR ht
    · exact absurd hP₀.symm (List.append_ne_nil_of_right_ne_nil _ (List.cons_ne_nil _ _))
  | case2 => cases hs
  | case3 held deep h t hmiss hcond ih₁ ih₂ =>
    rw [List.mem_cons, not_or] at hw
    rintro ⟨u, t', ht', heq⟩
    cases u with
    | nil =>
      -- the literal character was tried before
      rw [List.nil_append] at heq
      subst heq
      rw [if_pos rfl] at hN
      obtain ⟨c, Q, hQ⟩ := List.exists_cons_of_ne_nil (List.append_ne_nil_of_right_ne_nil P hR)
      rw [hQ] at ht' hN hheld
      obtain ⟨t'', hmem, heq⟩ := (mem_language_cons hN.ne_star).mp ht'
      obtain ⟨rfl, rfl⟩ := List.cons.inj heq
      obtain ⟨m, hm, hr⟩ := (exists_render hw.2).1 hN.tail.tail hmem
      have hnone := search_missing hmiss hm
      rw [hr] at hnone
      exact hheld hnone
    | cons b u => exact ih₂ hw.2 hs hP hN hheld ⟨u, t', ht', (List.cons.inj heq).2⟩
  | case4 after held deep h t hcond hmiss hafter ih₁ ih₂ =>
    rw [List.mem_cons, not_or] at hw
    obtain rfl := Bool.eq_false_iff.mpr hafter
    obtain ⟨P', rfl, hfound⟩ := Outcome.cons_eq_found hs
    rw [if_neg Bool.false_ne_true] at hN
    intro hmem
    refine ih₂ hw.2 hfound ?_ hN hheld (mem_language_star_cons.mp hmem)
    rcases hP with ⟨hfalse, -⟩ | ⟨_ | ⟨a, P₀⟩, hP₀⟩
    · cases hfalse
    · exact .inl ⟨rfl, (List.cons.inj hP₀).2⟩
    · exact .inr ⟨P₀, (List.cons.inj hP₀).2⟩
  | case5 after held deep h t hcond hne ih =>
    rw [List.mem_cons, not_or] at hw
    obtain ⟨P', rfl, hfound⟩ := Outcome.cons_eq_found hs
    obtain ⟨A, rfl⟩ : ∃ A, P' = A ++ [star] := by
      rcases hP with ⟨-, hnil⟩ | ⟨_ | ⟨a, P₀⟩, hP₀⟩
      · cases hnil
      · exact absurd (List.cons.inj hP₀).1.symm hw.1
      · exact ⟨P₀, (List.cons.inj hP₀).2⟩
    have hNt : NoDouble star (A ++ [star] ++ R) := by
      cases after with
      | false => exact NoDouble.tail hN
      | true => exact NoDouble.tail (NoDouble.tail hN)
    have hlater := ih hw.2 hfound (.inr ⟨A, rfl⟩) hNt hheld
    have hcons : ∀ {x : List α}, x ∈ language star (h :: A ++ [star] ++ R) ↔
        ∃ t' ∈ language star (A ++ [star] ++ R), x = h :: t' := mem_language_cons (Ne.symm hw.1)
    cases after with
    | false =>
      intro hmem
      obtain ⟨t', ht', heq⟩ := hcons.mp hmem
      exact hlater ((List.cons.inj heq).2 ▸ ht')
    | true =>
      rintro ⟨u, t', ht', heq⟩
      obtain ⟨t'', ht'', rfl⟩ := hcons.mp ht'
      refine hlater ?_
      show t ∈ language star (A ++ [star] ++ R)
      cases u with
      | nil => exact (List.cons.inj heq).2 ▸ ht''
      | cons b u =>
        -- what was found matches from here, so the longer pattern does as well
        rw [List.append_assoc, List.singleton_append] at ht'' ⊢
        obtain ⟨m, hm, hr, -⟩ := search_found hfound
        have hmem := (render_mem hw.2 hm).1
        rw [hr] at hmem
        refine language_shift ?_ ht'' (y := u ++ [h]) ?_
        · rw [language, List.map_append, List.prod_append, Language.mem_mul] at hmem
          obtain ⟨x, hx, z, -, rfl⟩ := hmem
          exact ⟨x, hx, List.prefix_append x z⟩
        · rw [List.append_assoc]
          exact (List.cons.inj heq).2

end Prefers

end Search

end CloudI.Wildcard
