import Mathlib.Logic.Function.Basic
import CloudI.Framework.Bytes

/-!
# A file of blocks

A file that is written at positions (`pwrite`) and holds bytes at positions (`Holds`). `BlockFile` is the
layout of a file in blocks, each with its owner: the blocks tile the file up to its end, and only zeros come
after it. The layout is kept by a block added at the end (`BlockFile.append`), a block written again in its
place (`BlockFile.rewrite`), a block that changes its owner (`BlockFile.rename`), and the last block filled
with zeros (`BlockFile.dropLast`).
-/

namespace CloudI

/-- `file:pwrite/3`: a gap after the end of the file is filled with zeros. -/
def pwrite (Position : Nat) (Bytes file : List UInt8) : List UInt8 :=
  (file ++ List.replicate (Position - file.length) 0).take Position ++ Bytes ++ file.drop (Position + Bytes.length)

/-- The file has the bytes at the position. -/
structure Holds (file : List UInt8) (p : Nat) (l : List UInt8) : Prop where
  le : p + l.length ≤ file.length
  getD : ∀ i, i < l.length → file.getD (p + i) 0 = l.getD i 0

variable {file l bytes : List UInt8} {p q : Nat}

theorem length_pwrite (p : Nat) (l file : List UInt8) : (pwrite p l file).length = max file.length (p + l.length) := by
  simp only [pwrite, List.length_append, List.length_take, List.length_replicate, List.length_drop]
  omega

theorem getD_pwrite (p : Nat) (l file : List UInt8) (i : Nat) :
    (pwrite p l file).getD i 0 =
      if p ≤ i ∧ i < p + l.length then l.getD (i - p) 0 else file.getD i 0 := by
  have htake : ((file ++ List.replicate (p - file.length) 0).take p).length = p := by
    rw [List.length_take, List.length_append, List.length_replicate]
    omega
  simp only [pwrite, List.append_assoc, List.getD_eq_getElem?_getD]
  rcases Nat.lt_or_ge i p with hi | hi
  · rw [if_neg (fun h => absurd h.1 (by omega)), List.getElem?_append_left (by omega), List.getElem?_take_of_lt hi]
    rcases Nat.lt_or_ge i file.length with h | h
    · rw [List.getElem?_append_left h]
    · rw [List.getElem?_append_right h, List.getElem?_replicate, List.getElem?_eq_none h]
      split <;> rfl
  · rw [List.getElem?_append_right (by omega), htake]
    rcases Nat.lt_or_ge i (p + l.length) with h | h
    · rw [if_pos ⟨hi, h⟩, List.getElem?_append_left (by omega)]
    · rw [if_neg (fun h' => absurd h'.2 (by omega)), List.getElem?_append_right (by omega), List.getElem?_drop,
        show p + l.length + (i - p - l.length) = i by omega]

theorem Holds.drop (h : Holds file p l) : file.drop p = l ++ file.drop (p + l.length) := by
  refine List.ext_getElem? fun i => ?_
  have hle := h.le
  rw [List.getElem?_drop]
  rcases Nat.lt_or_ge i l.length with hi | hi
  · have hget := h.getD i hi
    rw [List.getD_eq_getElem?_getD, List.getD_eq_getElem?_getD, List.getElem?_eq_getElem (by omega),
      List.getElem?_eq_getElem hi, Option.getD_some, Option.getD_some] at hget
    rw [List.getElem?_append_left hi, List.getElem?_eq_getElem (by omega), List.getElem?_eq_getElem hi, hget]
  · rw [List.getElem?_append_right hi, List.getElem?_drop, show p + l.length + (i - l.length) = p + i by omega]

theorem holds_pwrite (p : Nat) (l file : List UInt8) : Holds (pwrite p l file) p l where
  le := by rw [length_pwrite]; omega
  getD i hi := by rw [getD_pwrite, if_pos ⟨by omega, by omega⟩, Nat.add_sub_cancel_left]

/-- What is written leaves what is after it. -/
theorem drop_pwrite (h : p + l.length ≤ q) : (pwrite p l file).drop q = file.drop q := by
  have htake : ((file ++ List.replicate (p - file.length) 0).take p).length = p := by
    rw [List.length_take, List.length_append, List.length_replicate]
    omega
  have hlen : ((file ++ List.replicate (p - file.length) 0).take p ++ l).length = p + l.length := by
    rw [List.length_append, htake]
  obtain ⟨d, rfl⟩ := Nat.exists_eq_add_of_le h
  rw [pwrite, ← List.drop_drop, List.drop_left' hlen, List.drop_drop]

/-- What is written elsewhere leaves the bytes. -/
theorem Holds.pwrite (h : Holds file p l) (hd : p + l.length ≤ q ∨ q + bytes.length ≤ p) :
    Holds (pwrite q bytes file) p l where
  le := by
    have hle := h.le
    rw [length_pwrite]
    omega
  getD i hi := by rw [getD_pwrite, if_neg (by omega), h.getD i hi]

/-! ## Blocks -/

structure FileBlock where
  start : Nat
  bytes : List UInt8

/-- Where the block ends. -/
def FileBlock.stop (b : FileBlock) : Nat := b.start + b.bytes.length

/-- The position is in the block. -/
def FileBlock.Has (b : FileBlock) (i : Nat) : Prop := b.start ≤ i ∧ i < b.stop

/-- The blocks of the owners tile the file up to `n`, and only zeros come after it. -/
structure BlockFile {ι : Type} (file : List UInt8) (n : Nat) (blocks : ι → Option FileBlock) : Prop where
  pos : ∀ {k b}, blocks k = some b → 0 < b.bytes.length
  holds : ∀ {k b}, blocks k = some b → Holds file b.start b.bytes
  cover : ∀ i, i < n ↔ ∃ k b, blocks k = some b ∧ b.Has i
  disjoint : ∀ {k k' b b' i}, blocks k = some b → blocks k' = some b' → b.Has i → b'.Has i → k = k'
  le : n ≤ file.length
  tail : ∀ i, n ≤ i → file.getD i 0 = 0

namespace BlockFile

variable {ι : Type} {n : Nat} {blocks : ι → Option FileBlock} {k k' : ι} {b b' : FileBlock}

theorem empty : BlockFile [] 0 (fun _ : ι => none) where
  pos h := absurd h (by simp)
  holds h := absurd h (by simp)
  cover i := ⟨fun h => absurd h (Nat.not_lt_zero i), fun ⟨_, _, h, _⟩ => absurd h (by simp)⟩
  disjoint h := absurd h (by simp)
  le := Nat.zero_le _
  tail _ _ := rfl

theorem stop_le (h : BlockFile file n blocks) (hb : blocks k = some b) : b.stop ≤ n := by
  have hpos := h.pos hb
  have hlt := (h.cover (b.stop - 1)).mpr ⟨k, b, hb, by rw [FileBlock.stop]; omega, by rw [FileBlock.stop]; omega⟩
  omega

/-- Two blocks have no position in common. -/
theorem apart (h : BlockFile file n blocks) (hb : blocks k = some b) (hb' : blocks k' = some b') (hk : k ≠ k') :
    b.stop ≤ b'.start ∨ b'.stop ≤ b.start := by
  by_contra hne
  have hpos := h.pos hb
  have hpos' := h.pos hb'
  simp only [FileBlock.stop] at hne
  refine hk (h.disjoint (i := max b.start b'.start) hb hb' ⟨by omega, ?_⟩ ⟨by omega, ?_⟩) <;>
    (rw [FileBlock.stop]; omega)

/-! ## Blocks in their order -/

/-- The owners of the blocks from `p` to `n`, in the order of the file. -/
inductive Listing (blocks : ι → Option FileBlock) : Nat → List ι → Nat → Prop where
  | nil (n : Nat) : Listing blocks n [] n
  | cons {k : ι} {b : FileBlock} {L : List ι} {n : Nat} : blocks k = some b → Listing blocks b.stop L n →
      Listing blocks b.start (k :: L) n

theorem exists_listing_from (h : BlockFile file n blocks) (p : Nat) (hp : p ≤ n)
    (hbound : ∀ k b, blocks k = some b → b.stop ≤ p ∨ p ≤ b.start) : ∃ L, Listing blocks p L n := by
  rcases Nat.eq_or_lt_of_le hp with rfl | hlt
  · exact ⟨[], .nil p⟩
  · obtain ⟨k, b, hb, hstart, hstop⟩ := (h.cover p).mp hlt
    obtain rfl : b.start = p := by
      have hor := hbound k b hb
      omega
    obtain ⟨L, hL⟩ := exists_listing_from h b.stop (h.stop_le hb) fun k' b' hb' => by
      by_cases hk : k = k'
      · subst hk
        exact .inl (Option.some.inj (hb.symm.trans hb') ▸ Nat.le_refl _)
      · have hapart := h.apart hb hb' hk
        have hle : b.start ≤ b.stop := Nat.le_add_right _ _
        omega
    exact ⟨k :: L, .cons hb hL⟩
termination_by n - p

theorem exists_listing (h : BlockFile file n blocks) : ∃ L, Listing blocks 0 L n :=
  h.exists_listing_from 0 (Nat.zero_le n) fun _ _ _ => .inr (Nat.zero_le _)

theorem Listing.mem (h : BlockFile file n blocks) {L : List ι} (hL : Listing blocks p L n) (hb : blocks k = some b)
    (hp : p ≤ b.start) : k ∈ L := by
  induction hL with
  | nil =>
    have hpos := h.pos hb
    have hstop := h.stop_le hb
    rw [FileBlock.stop] at hstop
    omega
  | @cons k' b' L n hb' _ ih =>
    by_cases hk : k = k'
    · exact hk ▸ List.mem_cons_self
    · refine List.mem_cons_of_mem _ (ih h ?_)
      have hapart := h.apart hb hb' hk
      have hpos := h.pos hb
      rw [FileBlock.stop] at hapart
      omega

theorem Listing.exists_block {L : List ι} (hL : Listing blocks p L n) (hk : k ∈ L) : ∃ b, blocks k = some b := by
  induction hL with
  | nil => exact absurd hk List.not_mem_nil
  | @cons k' b' L n hb' _ ih =>
    rcases List.mem_cons.mp hk with rfl | hk
    · exact ⟨b', hb'⟩
    · exact ih hk

theorem Listing.le_start {L : List ι} (hL : Listing blocks p L n) (hk : k ∈ L) (hb : blocks k = some b) :
    p ≤ b.start := by
  induction hL with
  | nil => exact absurd hk List.not_mem_nil
  | @cons k' b' L n hb' _ ih =>
    rcases List.mem_cons.mp hk with rfl | hk
    · obtain rfl := Option.some.inj (hb.symm.trans hb')
      exact Nat.le_refl _
    · exact Nat.le_trans (Nat.le_add_right _ _) (ih hk)

theorem Listing.sorted (h : BlockFile file n blocks) {L : List ι} {n' : Nat} (hL : Listing blocks p L n') :
    L.Pairwise fun k k' => ∀ b b', blocks k = some b → blocks k' = some b' → b.start < b'.start := by
  induction hL with
  | nil => exact List.Pairwise.nil
  | @cons k b L n' hb hL ih =>
    refine List.pairwise_cons.mpr ⟨fun k' hk' c c' hc hc' => ?_, ih⟩
    obtain rfl := Option.some.inj (hb.symm.trans hc)
    have hle := hL.le_start hk' hc'
    have hpos := h.pos hb
    rw [FileBlock.stop] at hle
    omega

variable [DecidableEq ι]

theorem append (h : BlockFile file n blocks) (hk : blocks k = none) (hl : 0 < l.length) :
    BlockFile (pwrite n l file) (n + l.length) (Function.update blocks k (some ⟨n, l⟩)) := by
  have hold : ∀ {j c}, j ≠ k → Function.update blocks k (some ⟨n, l⟩) j = some c → blocks j = some c ∧ c.stop ≤ n :=
    fun hj hc => by
      rw [Function.update_of_ne hj] at hc
      exact ⟨hc, h.stop_le hc⟩
  have hnew : ∀ {c}, Function.update blocks k (some ⟨n, l⟩) k = some c → c = ⟨n, l⟩ := fun hc => by
    rw [Function.update_self] at hc
    exact (Option.some.inj hc).symm
  refine ⟨fun {j c} hc => ?_, fun {j c} hc => ?_, fun i => ⟨fun hi => ?_, ?_⟩,
    fun {j j' c c' i} hc hc' hi hi' => ?_, ?_, fun i hi => ?_⟩
  · rcases eq_or_ne j k with rfl | hj
    · exact hnew hc ▸ hl
    · exact h.pos (hold hj hc).1
  · rcases eq_or_ne j k with rfl | hj
    · exact hnew hc ▸ holds_pwrite n l file
    · exact (h.holds (hold hj hc).1).pwrite (.inl (hold hj hc).2)
  · rcases Nat.lt_or_ge i n with hin | hin
    · obtain ⟨j, c, hc, hj⟩ := (h.cover i).mp hin
      have hjk : j ≠ k := fun e => absurd (e ▸ hc) (by rw [hk]; simp)
      exact ⟨j, c, by rw [Function.update_of_ne hjk, hc], hj⟩
    · exact ⟨k, ⟨n, l⟩, Function.update_self _ _ _, hin, hi⟩
  · rintro ⟨j, c, hc, hj⟩
    rcases eq_or_ne j k with rfl | hjk
    · obtain rfl := hnew hc
      exact hj.2
    · have hlt := (hold hjk hc).2
      have hlast := hj.2
      omega
  · rcases eq_or_ne j k with rfl | hj <;> rcases eq_or_ne j' j with rfl | hj'
    · rfl
    · obtain rfl := hnew hc
      have hstop := (hold hj' hc').2
      have hstart : n ≤ i := hi.1
      have hlast := hi'.2
      omega
    · rfl
    · rcases eq_or_ne j' k with rfl | hjk'
      · obtain rfl := hnew hc'
        have hstop := (hold hj hc).2
        have hstart : n ≤ i := hi'.1
        have hlast := hi.2
        omega
      · exact h.disjoint (hold hj hc).1 (hold hjk' hc').1 hi hi'
  · rw [length_pwrite]
    omega
  · rw [getD_pwrite, if_neg (by omega), h.tail i (by omega)]

theorem rewrite (h : BlockFile file n blocks) (hb : blocks k = some b) (hl : l.length = b.bytes.length) :
    BlockFile (pwrite b.start l file) n (Function.update blocks k (some ⟨b.start, l⟩)) := by
  have hstop : b.start + l.length ≤ n := hl ▸ h.stop_le hb
  -- the same owners have blocks, in the same places
  have hold : ∀ {j c}, Function.update blocks k (some ⟨b.start, l⟩) j = some c →
      ∃ c₀, blocks j = some c₀ ∧ c₀.start = c.start ∧ c₀.bytes.length = c.bytes.length ∧ (j ≠ k → c₀ = c) := by
    intro j c hc
    rcases eq_or_ne j k with rfl | hj
    · rw [Function.update_self] at hc
      obtain rfl := Option.some.inj hc
      exact ⟨b, hb, rfl, hl.symm, fun hne => absurd rfl hne⟩
    · rw [Function.update_of_ne hj] at hc
      exact ⟨c, hc, rfl, rfl, fun _ => rfl⟩
  have has : ∀ {c₀ c : FileBlock} {i : Nat}, c₀.start = c.start → c₀.bytes.length = c.bytes.length →
      (c₀.Has i ↔ c.Has i) :=
    fun hs hlen => by rw [FileBlock.Has, FileBlock.Has, FileBlock.stop, FileBlock.stop, hs, hlen]
  refine ⟨fun {j c} hc => ?_, fun {j c} hc => ?_, fun i => ⟨fun hi => ?_, ?_⟩,
    fun {j j' c c' i} hc hc' hi hi' => ?_, ?_, fun i hi => ?_⟩
  · obtain ⟨c₀, hc₀, -, hlen, -⟩ := hold hc
    exact hlen ▸ h.pos hc₀
  · rcases eq_or_ne j k with rfl | hj
    · rw [Function.update_self] at hc
      obtain rfl := Option.some.inj hc
      exact holds_pwrite _ _ _
    · rw [Function.update_of_ne hj] at hc
      refine (h.holds hc).pwrite ?_
      rw [hl]
      exact h.apart hc hb hj
  · obtain ⟨j, c, hc, hi⟩ := (h.cover i).mp hi
    rcases eq_or_ne j k with rfl | hj
    · obtain rfl := Option.some.inj (hb.symm.trans hc)
      exact ⟨j, _, Function.update_self _ _ _, (@has b ⟨b.start, l⟩ i rfl hl.symm).mp hi⟩
    · exact ⟨j, c, by rw [Function.update_of_ne hj, hc], hi⟩
  · rintro ⟨j, c, hc, hi⟩
    obtain ⟨c₀, hc₀, hs, hlen, -⟩ := hold hc
    exact (h.cover i).mpr ⟨j, c₀, hc₀, (has hs hlen).mpr hi⟩
  · obtain ⟨c₀, hc₀, hs, hlen, -⟩ := hold hc
    obtain ⟨c₀', hc₀', hs', hlen', -⟩ := hold hc'
    exact h.disjoint hc₀ hc₀' ((has hs hlen).mpr hi) ((has hs' hlen').mpr hi')
  · have hle := h.le
    rw [length_pwrite]
    omega
  · rw [getD_pwrite, if_neg (by omega), h.tail i hi]

theorem rename (h : BlockFile file n blocks) (k' : ι) (hb : blocks k = some b) (hk' : k' = k ∨ blocks k' = none) :
    BlockFile file n (Function.update (Function.update blocks k none) k' (some b)) := by
  -- each block has one owner before and one after
  have hold : ∀ {j c}, Function.update (Function.update blocks k none) k' (some b) j = some c →
      (j = k' ∧ c = b) ∨ (j ≠ k' ∧ j ≠ k ∧ blocks j = some c) := by
    intro j c hc
    rcases eq_or_ne j k' with rfl | hj
    · rw [Function.update_self] at hc
      exact .inl ⟨rfl, (Option.some.inj hc).symm⟩
    · rw [Function.update_of_ne hj] at hc
      rcases eq_or_ne j k with rfl | hjk
      · rw [Function.update_self] at hc
        cases hc
      · rw [Function.update_of_ne hjk] at hc
        exact .inr ⟨hj, hjk, hc⟩
  have hbefore : ∀ {j c}, Function.update (Function.update blocks k none) k' (some b) j = some c →
      ∃ j₀, blocks j₀ = some c := fun hc => by
    rcases hold hc with ⟨-, rfl⟩ | ⟨-, -, hc⟩
    · exact ⟨k, hb⟩
    · exact ⟨_, hc⟩
  refine ⟨fun {j c} hc => ?_, fun {j c} hc => ?_, fun i => ⟨fun hi => ?_, ?_⟩,
    fun {j j' c c' i} hc hc' hi hi' => ?_, h.le, h.tail⟩
  · obtain ⟨j₀, hc₀⟩ := hbefore hc
    exact h.pos hc₀
  · obtain ⟨j₀, hc₀⟩ := hbefore hc
    exact h.holds hc₀
  · obtain ⟨j, c, hc, hi⟩ := (h.cover i).mp hi
    rcases eq_or_ne j k with rfl | hj
    · obtain rfl := Option.some.inj (hb.symm.trans hc)
      exact ⟨k', b, Function.update_self _ _ _, hi⟩
    · have hjk' : j ≠ k' := by
        rintro rfl
        exact hk'.elim hj (fun hnone => absurd (hnone.symm.trans hc) (by simp))
      exact ⟨j, c, by rw [Function.update_of_ne hjk', Function.update_of_ne hj, hc], hi⟩
  · rintro ⟨j, c, hc, hi⟩
    obtain ⟨j₀, hc₀⟩ := hbefore hc
    exact (h.cover i).mpr ⟨j₀, c, hc₀, hi⟩
  · rcases hold hc with ⟨hj, rfl⟩ | ⟨-, hjk, hj⟩ <;> rcases hold hc' with ⟨hj', rfl⟩ | ⟨-, hjk', hj'⟩
    · rw [hj, hj']
    · exact absurd (h.disjoint hb hj' hi hi').symm hjk'
    · exact absurd (h.disjoint hj hb hi hi') hjk
    · exact h.disjoint hj hj' hi hi'

theorem dropLast (h : BlockFile file n blocks) (hb : blocks k = some b) (hl : b.stop = n) :
    BlockFile (pwrite b.start (List.replicate b.bytes.length 0) file) b.start (Function.update blocks k none) := by
  have hlen : (List.replicate b.bytes.length (0 : UInt8)).length = b.bytes.length := List.length_replicate
  have hold : ∀ {j c}, Function.update blocks k none j = some c → j ≠ k ∧ blocks j = some c := by
    intro j c hc
    rcases eq_or_ne j k with rfl | hj
    · rw [Function.update_self] at hc
      cases hc
    · rw [Function.update_of_ne hj] at hc
      exact ⟨hj, hc⟩
  have hpos := h.pos hb
  refine ⟨fun hc => h.pos (hold hc).2, fun {j c} hc => ?_, fun i => ⟨fun hi => ?_, ?_⟩,
    fun hc hc' => h.disjoint (hold hc).2 (hold hc').2, ?_, fun i hi => ?_⟩
  · refine (h.holds (hold hc).2).pwrite ?_
    rw [hlen]
    exact h.apart (hold hc).2 hb (hold hc).1
  · have hin : i < n := by
      rw [← hl, FileBlock.stop]
      omega
    obtain ⟨j, c, hc, hj⟩ := (h.cover i).mp hin
    have hjk : j ≠ k := by
      rintro rfl
      obtain rfl := Option.some.inj (hb.symm.trans hc)
      exact absurd hj.1 (by omega)
    exact ⟨j, c, by rw [Function.update_of_ne hjk, hc], hj⟩
  · rintro ⟨j, c, hc, hj⟩
    have hlt := (h.cover i).mpr ⟨j, c, (hold hc).2, hj⟩
    by_contra hge
    exact (hold hc).1 (h.disjoint (hold hc).2 hb hj ⟨by omega, by omega⟩)
  · rw [length_pwrite]
    omega
  · rw [getD_pwrite]
    split
    · rw [List.getD_eq_getElem?_getD, List.getElem?_replicate]
      split <;> rfl
    · rename_i hnot
      rw [hlen] at hnot
      exact h.tail i (by rw [← hl, FileBlock.stop]; omega)

end BlockFile

end CloudI
