import CloudI.Trie.StoredPatterns

/-!
# Which of the patterns is found

When more than one pattern of a trie matches a string, `find_match/2` takes a literal character before a wildcard, and
after the wildcard at the end of what it returns no pattern goes on (`find_match_specific`). The trie may be any one,
also after patterns were erased.
-/

namespace CloudI.Trie

open Node Wildcard

variable {V : Type}

/-- The call on a trie of patterns is the search over them. -/
theorem findMatch_eq_search {node : Node V} (ht : IsTrie node)
    (hp : ∀ Q v, lookup node Q = some v → NoDouble star Q) {Match : List Nat} (hne : Match ≠ [])
    (hstar : star ∉ Match) :
    findMatch Match node = answer [] (search star false (lookup node) (isTupleAt node) Match) := by
  rcases ht with rfl | ht
  · rw [lookup, search_suffix_none]
    rfl
  · rw [lookup, ← (findMatch_search hstar).1 [] node none ht hp hne]
    cases node with
    | suffix => exact nomatch ht
    | tuple => rfl

theorem findMatch_found {node : Node V} (ht : IsTrie node) (hp : ∀ Q v, lookup node Q = some v → NoDouble star Q)
    {Match P : List Nat} {v : V} (hstar : star ∉ Match) (hf : findMatch Match node = .ok (some (P, v))) :
    search star false (lookup node) (isTupleAt node) Match = .found P v := by
  cases Match with
  | nil =>
    rcases ht with rfl | ht
    · cases hf
    · cases node with
      | suffix => exact absurd ht Bool.false_ne_true
      | tuple =>
        rw [findMatch, findMatchNode] at hf
        · cases hf
        all_goals simp
  | cons H T =>
    rw [findMatch_eq_search ht hp (List.cons_ne_nil H T) hstar] at hf
    cases hs : search star false (lookup node) (isTupleAt node) (H :: T) with
    | found P' v' =>
      rw [hs] at hf
      cases hf
      rfl
    | missing =>
      rw [hs] at hf
      cases hf
    | stuck =>
      rw [hs] at hf
      cases hf

/-- No other pattern that matches has a literal character where the one returned has its first wildcard, and no pattern
that matches goes on after the wildcard that ends it. -/
theorem find_match_specific {node : Node V} (ht : IsTrie node)
    (hp : ∀ Q v, lookup node Q = some v → NoDouble star Q) {Match P Q : List Nat} {v : V} (hstar : star ∉ Match)
    (hf : findMatch Match node = .ok (some (P, v))) (hQ : lookup node Q ≠ none) (hmem : Match ∈ language star Q) :
    (∀ u c P' Q', star ∉ u → c ≠ star → P = u ++ star :: P' → Q ≠ u ++ c :: Q') ∧
      ∀ P₀ R, P = P₀ ++ [star] → R ≠ [] → Q ≠ P ++ R := by
  have hs := findMatch_found ht hp hstar hf
  obtain ⟨x, hx⟩ := Option.ne_none_iff_exists'.mp hQ
  have hN := hp Q x hx
  constructor
  · rintro u c P' Q' hu hc rfl rfl
    have hQ' : NoDouble star Q' := fun hd =>
      hN (hd.trans ((List.suffix_cons c Q').trans (List.suffix_append u (c :: Q'))).isInfix)
    exact search_literal_first hstar hu hs hc hQ' hQ hmem
  · rintro P₀ R hP hR rfl
    exact search_longest hstar hs (.inr ⟨P₀, hP⟩) hR hN hQ hmem

/-- Of the patterns `a*` and `*b`, the string `ab` has the first one. -/
theorem find_match_specific_literal :
    ∃ node : Node Nat, storeAll [(⟨[97, star], by decide⟩, 1), (⟨[star, 98], by decide⟩, 2)] = .ok node ∧
      findMatch [97, 98] node = .ok (some ([97, star], 1)) ∧ lookup node [star, 98] ≠ none ∧
      ∀ P₀ R, [97, star] = P₀ ++ [star] → R ≠ [] → [star, 98] ≠ [97, star] ++ R := by
  obtain ⟨node, hr, h⟩ := storeAll_stores [((⟨[97, star], by decide⟩ : Pattern), 1), (⟨[star, 98], by decide⟩, 2)]
  have hf : (do findMatch [97, 98] (← storeAll [((⟨[97, star], by decide⟩ : Pattern), 1),
      (⟨[star, 98], by decide⟩, 2)])) = .ok (some ([97, star], 1)) := by decide +kernel
  rw [hr] at hf
  have hQ : lookup node [star, 98] ≠ none := by
    rw [h.lookup_eq]
    decide
  have hp : ∀ Q v, lookup node Q = some v → NoDouble star Q := fun Q v hv =>
    (h.patterns Q v (by rw [← h.lookup_eq, hv])).2
  have hmem : [97, 98] ∈ language star [star, 98] :=
    mem_language_star.mpr ⟨97, [], [98], (mem_language_cons (by decide)).mpr ⟨[], rfl, rfl⟩, rfl⟩
  exact ⟨node, hr, hf, hQ, (find_match_specific h.trie hp (by decide) hf hQ hmem).2⟩

end CloudI.Trie
