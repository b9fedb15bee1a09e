import CloudI.Api.Go.Rejects
import CloudI.Api.OCaml.Rejects
import CloudI.Api.Python.Rejects

/-!
# Malformed terms

For each of the decoders, `Clean` is that a string is decoded or rejected with
the error that the decoder has for it, and decoded only if every length that it
read is inside of the data. `clean_iff` says exactly when it is.
-/

namespace CloudI.Api

/-! ## Go -/

namespace Go

variable (lib : Library) (depth : Nat) (data : List UInt8)

/-- The positions that `BinaryToTerm` comes to, with the depth that is left there. -/
abbrev Reaches : Nat → Place → Prop := Visits (body lib) .depth depth (1, ⟨data, 1⟩)

/-- A term or an error is returned; and if it is a term, all lengths are inside of the data, and no value has fewer
bytes than its lengths say. -/
structure Clean : Prop where
  returns : ∀ e, binaryToTerm lib depth data = .error e → ¬e.Crash
  lengths : ∀ t, binaryToTerm lib depth data = .ok t → ∀ m p, Reaches lib depth data m p → ∀ tag : Tag,
    p.2.data[p.2.pos]? = some tag.byte →
      (∀ s ∈ layout.lengths tag (p.2.pos + 1) p.2.data, s.1 + s.2 ≤ p.2.data.length) ∧
        ∀ x, binaryToTerms lib m p.1 p.2 = .ok x → ¬Shortened tag (p.2.pos + 1) p.2.data x.2.1

/-- The stack does not end, no pair is put into a map, and no length wraps where the data is accepted. -/
structure Holds : Prop where
  returns : Started data → ∀ m p, Reaches lib depth data m p →
    ∃ n, m = n + 1 ∧ ¬BadMap (descend (body lib) .depth n) p
  lengths : ∀ t, binaryToTerm lib depth data = .ok t → ∀ m p, Reaches lib depth data m p → ∀ tag : Tag,
    p.2.data[p.2.pos]? = some tag.byte → ¬Wraps tag (p.2.pos + 1) p.2.data

variable {lib depth data}

theorem clean_iff (hlib : lib.Returns) : Clean lib depth data ↔ Holds lib depth data := by
  constructor
  · intro h
    refine ⟨fun hs m p hv => ?_, fun t ht => (accepted_lengths_iff ht).mp (h.lengths t ht)⟩
    by_contra hn
    obtain ⟨e, he, hc⟩ := (panics_iff hlib).mpr ⟨hs, m, p, hv, by
      cases m with
      | zero => exact .inl rfl
      | succ n => exact .inr ⟨n, rfl, not_not.mp fun hb => hn ⟨n, rfl, hb⟩⟩⟩
    exact h.returns e he hc
  · intro h
    refine ⟨fun e he hc => ?_, fun t ht => (accepted_lengths_iff ht).mpr (h.lengths t ht)⟩
    obtain ⟨hs, m, p, hv, hm⟩ := (panics_iff hlib).mp ⟨e, he, hc⟩
    obtain ⟨n, rfl, hb⟩ := h.returns hs m p hv
    rcases hm with hm | ⟨n', hn, hb'⟩
    · cases hm
    · cases hn
      exact hb hb'

theorem noLibrary_returns : noLibrary.Returns := ⟨fun _ => errors_error id, fun _ _ => errors_error id⟩

end Go

/-! ## Python -/

namespace Python.Erlang

variable (py3 : Bool) (lib : Library) (depth : Nat) (data : List UInt8)

/-- The positions that `binary_to_term` comes to, with the depth that is left there. -/
abbrev Reaches : Nat → Slices.Place → Prop := Visits (body py3 lib) .recursionError depth (1, data)

/-- A term is returned or a `ParseException` is raised; and if it is a term, all lengths are inside of the data. -/
structure Clean : Prop where
  raises : ∀ e, binaryToTerm py3 lib depth data = .error e → ∃ s, e = .parseException s
  lengths : ∀ t, binaryToTerm py3 lib depth data = .ok t → ∀ m p, Reaches py3 lib depth data m p → ∀ tag : Tag,
    p.2[p.1]? = some tag.byte → ∀ s ∈ layout.lengths tag (p.1 + 1) p.2, s.1 + s.2 ≤ p.2.length

/-- The stack does not end, and what the decoder comes to raises nothing by itself. -/
def Holds : Prop := Started data → ∀ m p, Reaches py3 lib depth data m p →
  ∃ n, m = n + 1 ∧ ¬Bad py3 lib (descend (body py3 lib) .recursionError n) p

variable {py3 lib depth data}

theorem parsed_of_error {e : Fault} (h : binaryToTerm py3 lib depth data = .error e) (he : e.Parsed) :
    ∃ s, e = .parseException s := by
  unfold binaryToTerm at h
  split at h
  · exact ⟨_, (Except.error.inj h).symm⟩
  · split at h
    · exact ⟨_, (Except.error.inj h).symm⟩
    · split at h
      · split at h
        · exact ⟨_, (Except.error.inj h).symm⟩
        · cases h
      · exact ⟨_, (Except.error.inj h).symm⟩
      · exact ⟨_, (Except.error.inj h).symm⟩
      · rename_i e' hs hi _
        obtain rfl := Except.error.inj h
        cases e' with
        | parseException s => exact ⟨s, rfl⟩
        | structError => exact absurd rfl hs
        | indexError => exact absurd rfl hi
        | _ => exact he.elim

theorem clean_iff : Clean py3 lib depth data ↔ Holds py3 lib depth data := by
  constructor
  · intro h hs m p hv
    by_contra hn
    obtain ⟨e, he, hc⟩ := raises_iff.mpr ⟨hs, m, p, hv, by
      cases m with
      | zero => exact .inl rfl
      | succ n => exact .inr ⟨n, rfl, not_not.mp fun hb => hn ⟨n, rfl, hb⟩⟩⟩
    obtain ⟨s, rfl⟩ := h.raises e he
    exact hc trivial
  · intro h
    refine ⟨fun e he => parsed_of_error he ?_, fun t ht m p hv tag hat => accepted_lengths ht hv hat⟩
    by_contra hc
    obtain ⟨hs, m, p, hv, hm⟩ := raises_iff.mp ⟨e, he, hc⟩
    obtain ⟨n, rfl, hb⟩ := h hs m p hv
    rcases hm with hm | ⟨n', hn, hb'⟩
    · cases hm
    · cases hn
      exact hb hb'

end Python.Erlang

/-! ## OCaml -/

namespace OCaml

variable (fos : FloatOfString) (depth : Nat) (data : List UInt8)

/-- The positions that `binary_to_term` comes to, with the depth that is left there. -/
abbrev Reaches : Nat → Slices.Place → Prop := Visits (body fos) .stackOverflow depth (1, data)

/-- `Ok` or `Error` is returned; and if it is `Ok`, all lengths are inside of the data, and no node has fewer bytes than
its length says. -/
structure Clean : Prop where
  returns : ∀ e, binaryToTerm fos depth data = .error e → ∃ s, e = .parseError s ∨ e = .outputError s
  lengths : ∀ t, binaryToTerm fos depth data = .ok t → ∀ m p, Reaches fos depth data m p → ∀ tag : Tag,
    p.2[p.1]? = some tag.byte →
      (∀ s ∈ layout.lengths tag (p.1 + 1) p.2, s.1 + s.2 ≤ p.2.length) ∧
        ∀ x, binaryToTermAt fos m p.1 p.2 = .ok x → ¬Shortened tag (p.1 + 1) p.2 x.2

/-- The stack does not end, the text of each float that the decoder comes to is one, and where the data is accepted no
small node has a length that is more than its tag. -/
structure Holds : Prop where
  returns : Started data → ∀ m p, Reaches fos depth data m p → m ≠ 0 ∧ ¬BadFloat fos p
  lengths : ∀ t, binaryToTerm fos depth data = .ok t → ∀ m p, Reaches fos depth data m p → ∀ tag : Tag,
    p.2[p.1]? = some tag.byte → ¬Misreads tag (p.1 + 1) p.2

variable {fos depth data}

theorem result_of_error {e : Fault} (h : binaryToTerm fos depth data = .error e) (he : e.Returned) :
    ∃ s, e = .parseError s ∨ e = .outputError s := by
  unfold binaryToTerm at h
  split at h
  · exact ⟨_, .inl (Except.error.inj h).symm⟩
  · split at h
    · exact ⟨_, .inl (Except.error.inj h).symm⟩
    · split at h
      · split at h
        · exact ⟨_, .inl (Except.error.inj h).symm⟩
        · cases h
      · exact ⟨_, .inl (Except.error.inj h).symm⟩
      · rename_i e' hi _
        obtain rfl := Except.error.inj h
        cases e' with
        | parseError s => exact ⟨s, .inl rfl⟩
        | outputError s => exact ⟨s, .inr rfl⟩
        | invalidArgument => exact absurd rfl hi
        | failure => exact he.elim
        | stackOverflow => exact he.elim

theorem clean_iff : Clean fos depth data ↔ Holds fos depth data := by
  constructor
  · intro h
    refine ⟨fun hs m p hv => ?_, fun t ht m p hv tag hat hm => ?_⟩
    · by_contra hn
      obtain ⟨e, he, hc⟩ := raises_iff.mpr ⟨hs, m, p, hv, by
        by_contra ho
        exact hn ⟨fun h0 => ho (.inl h0), fun hb => ho (.inr hb)⟩⟩
      obtain ⟨s, rfl | rfl⟩ := h.returns e he
      · exact hc trivial
      · exact hc trivial
    · obtain ⟨x, hx⟩ := accepted_visits ht hv
      exact (h.lengths t ht m p hv tag hat).2 x hx ((binaryToTermAt_shortened hx hat).mpr hm)
  · intro h
    refine ⟨fun e he => result_of_error he ?_, fun t ht m p hv tag hat =>
      ⟨accepted_lengths ht hv hat, fun x hx hs => ?_⟩⟩
    · by_contra hc
      obtain ⟨hs, m, p, hv, hm⟩ := raises_iff.mp ⟨e, he, hc⟩
      exact hm.elim (h.returns hs m p hv).1 (h.returns hs m p hv).2
    · exact h.lengths t ht m p hv tag hat ((binaryToTermAt_shortened hx hat).mp hs)

end OCaml

/-! ## All of them -/

/-- For every string, with whatever the languages provide and however deep their stacks are. -/
theorem malformed_rejected_iff {lib : Go.Library} (hlib : lib.Returns) (py3 : Bool) (python : Python.Erlang.Library)
    (fos : OCaml.FloatOfString) (depth : Nat) (data : List UInt8) :
    (Go.Clean lib depth data ↔ Go.Holds lib depth data) ∧
      (Python.Erlang.Clean py3 python depth data ↔ Python.Erlang.Holds py3 python depth data) ∧
        (OCaml.Clean fos depth data ↔ OCaml.Holds fos depth data) :=
  ⟨Go.clean_iff hlib, Python.Erlang.clean_iff, OCaml.clean_iff⟩

/-- A Python that decompresses nothing, and for which the empty text is no float. -/
def plainPython : Python.Erlang.Library :=
  ⟨fun _ => true, fun _ => none, fun _ => none, fun _ _ => false, fun _ _ => .ok false⟩

/-- Of the map from 1 to 2, the Go decoder is not clean, since it comes to a map and puts a pair into it. -/
theorem malformed_rejected_iff_map : ¬Go.Clean Go.noLibrary 3 [131, 116, 0, 0, 0, 1, 97, 1, 97, 2] := by
  intro h
  have hholds := (malformed_rejected_iff Go.noLibrary_returns false plainPython (fun _ => none) 3
    [131, 116, 0, 0, 0, 1, 97, 1, 97, 2]).1.mp h
  obtain ⟨n, hn, hb⟩ := hholds.returns ⟨by decide, rfl⟩ 3 _ .start
  cases hn
  exact hb ⟨rfl, by decide, by decide, _, rfl, rfl, _, rfl⟩

/-- A map makes the Go decoder panic; the text of a float that is none makes the others raise something else. -/
theorem malformed_not_rejected :
    ¬Go.Clean Go.noLibrary 3 [131, 116, 0, 0, 0, 1, 97, 1, 97, 2] ∧
      ¬Python.Erlang.Clean false plainPython 3 [131, 99] ∧
        ¬OCaml.Clean (fun _ => none) 3 (131 :: 99 :: List.replicate 31 0) := by
  refine ⟨fun h => h.returns _ rfl trivial, fun h => ?_, fun h => ?_⟩
  · obtain ⟨s, hs⟩ := h.raises .valueError rfl
    cases hs
  · obtain ⟨s, hs | hs⟩ := h.returns .failure rfl
    · cases hs
    · cases hs

end CloudI.Api
