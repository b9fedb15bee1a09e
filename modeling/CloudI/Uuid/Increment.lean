import CloudI.Framework.Bytes
import CloudI.Uuid.Generation
import Mathlib.Data.List.Nodup

/-!
# Incrementing a UUID

`uuid:increment/1` of a v3, v4 or v5 UUID takes its 122 free bits with six zero
bits behind them as a little-endian number. The zero bits are the low ones of
the last byte, which is the most significant one: below it the number counts in
120 bits (`counter`), and when these are all set the carry goes into the zero
bits (`increment_full`). The comparison with `2 ^ 122` never holds.

`increment_iff` says how many increments of a UUID there are.
-/

namespace CloudI.Uuid

/-! ## The function -/

/-- The version. -/
def version (u : BitVec 128) : BitVec 4 := u.extractLsb' 76 4

/-- The variant bits. -/
def variant (u : BitVec 128) : BitVec 2 := u.extractLsb' 62 2

/-- `Rand1`, `Rand2` and `Rand3` with six zero bits. -/
def randBits (u : BitVec 128) : BitVec 128 :=
  u.extractLsb' 80 48 ++ (u.extractLsb' 64 12 ++ (u.extractLsb' 0 62 ++ 0#6))

/-- The UUID with the fields of `NewRand1`, `NewRand2` and `NewRand3`. -/
def ofRandBits (Version : BitVec 4) (new : BitVec 128) : BitVec 128 :=
  new.extractLsb' 80 48 ++ (Version ++ (new.extractLsb' 68 12 ++ (0b10#2 ++ new.extractLsb' 6 62)))

/-- The guard of the clause for v3, v4 and v5. -/
def isRandom (u : BitVec 128) : Bool :=
  (version u = 4 || version u = 5 || version u = 3) && variant u = 0b10#2

/-- The 16 bytes of a number in the other order. -/
def swapBytes (k n : Nat) : Nat := ofBe (be k n).reverse

/-- `increment/1` of a UUID -/
def incrementUuid (u : BitVec 128) : Except Exn (BitVec 128) :=
  if isV1 u then
    let NextClockSeq := (u.extractLsb' 48 14).toNat + 1
    let NewClockSeq := if NextClockSeq = 16384 then 0 else NextClockSeq
    .ok (u.extractLsb' 64 64 ++ (0b10#2 ++ (BitVec.ofNat 14 NewClockSeq ++ u.extractLsb' 0 48)))
  else if isRandom u then
    let Value := swapBytes 16 (randBits u).toNat
    let NextValue := Value + 1
    let NewValue := if NextValue = 5316911983139663491615228241121378304 then 1 else NextValue
    let new := BitVec.ofNat 128 (swapBytes 16 NewValue)
    if new.extractLsb' 0 6 = 0#6 then .ok (ofRandBits (version u) new) else .error .badmatch
  else .error .functionClause

/-! ## Fields -/

section Fields

open BitVec

variable (V : BitVec 4) (p u : BitVec 128)

theorem version_ofRandBits : version (ofRandBits V p) = V := by
  rw [version, ofRandBits, extractLsb'_append_eq_of_add_le (by decide)]
  exact extractLsb'_append_eq_left

theorem variant_ofRandBits : variant (ofRandBits V p) = 0b10#2 := by
  rw [variant, ofRandBits, extractLsb'_append_eq_of_add_le (by decide), extractLsb'_append_eq_of_add_le (by decide),
    extractLsb'_append_eq_of_add_le (by decide)]
  exact extractLsb'_append_eq_left

variable {p u}

theorem randBits_ofRandBits (h : p.extractLsb' 0 6 = 0#6) : randBits (ofRandBits V p) = p := by
  have hlow : ∀ j < 6, p.getLsbD j = false := by
    intro j hj
    have := congrArg (·.getLsbD j) h
    simpa [getLsbD_extractLsb', hj] using this
  apply eq_of_getLsbD_eq
  intro i hi
  unfold randBits ofRandBits
  obtain h | h | h | h : i < 6 ∨ (6 ≤ i ∧ i < 68) ∨ (68 ≤ i ∧ i < 80) ∨ 80 ≤ i := by omega
  · simp (disch := omega) only [getLsbD_append, getLsbD_zero, if_pos, hlow]
  · simp (disch := omega) only [getLsbD_append, getLsbD_extractLsb', if_pos, if_neg, decide_eq_true, Bool.true_and]
    exact congrArg _ (by omega)
  · simp (disch := omega) only [getLsbD_append, getLsbD_extractLsb', if_pos, if_neg, decide_eq_true, Bool.true_and]
    exact congrArg _ (by omega)
  · simp (disch := omega) only [getLsbD_append, getLsbD_extractLsb', if_pos, if_neg, decide_eq_true, Bool.true_and]
    exact congrArg _ (by omega)

theorem ofRandBits_randBits (h : variant u = 0b10#2) : ofRandBits (version u) (randBits u) = u := by
  have hvariant : ∀ j < 2, u.getLsbD (62 + j) = (0b10#2).getLsbD j := by
    intro j hj
    have := congrArg (·.getLsbD j) h
    simpa [variant, getLsbD_extractLsb', hj] using this
  apply eq_of_getLsbD_eq
  intro i hi
  unfold ofRandBits randBits version
  obtain h | h | h | h | h : i < 62 ∨ (62 ≤ i ∧ i < 64) ∨ (64 ≤ i ∧ i < 76) ∨ (76 ≤ i ∧ i < 80) ∨ 80 ≤ i := by omega
  · simp (disch := omega) only [getLsbD_append, getLsbD_extractLsb', if_pos, if_neg, decide_eq_true, Bool.true_and]
    exact congrArg _ (by omega)
  · simp (disch := omega) only [getLsbD_append, if_pos, if_neg]
    rw [← hvariant _ (by omega)]
    exact congrArg _ (by omega)
  · simp (disch := omega) only [getLsbD_append, getLsbD_extractLsb', if_pos, if_neg, decide_eq_true, Bool.true_and]
    exact congrArg _ (by omega)
  · simp (disch := omega) only [getLsbD_append, getLsbD_extractLsb', if_pos, if_neg, decide_eq_true, Bool.true_and]
    exact congrArg _ (by omega)
  · simp (disch := omega) only [getLsbD_append, getLsbD_extractLsb', if_pos, if_neg, decide_eq_true, Bool.true_and]
    exact congrArg _ (by omega)

end Fields

/-! ## The number -/

section Number

theorem ofBe_cons (b : UInt8) (l : List UInt8) : ofBe (b :: l) = b.toNat * 256 ^ l.length + ofBe l := by
  induction l using List.reverseRecOn with
  | nil => simp [ofBe]
  | append_singleton l c ih =>
    rw [← List.cons_append, ofBe_append, ih, ofBe_append, List.length_append, List.length_singleton]
    ring

theorem swapBytes_lt (k n : Nat) : swapBytes k n < 256 ^ k := by
  have := ofBe_lt (be k n).reverse
  rwa [List.length_reverse, length_be] at this

theorem swapBytes_swapBytes {k n : Nat} (h : n < 256 ^ k) : swapBytes k (swapBytes k n) = n := by
  have hlen : (be k n).reverse.length = k := by rw [List.length_reverse, length_be]
  have hbe : be k (swapBytes k n) = (be k n).reverse := by
    have := be_ofBe (be k n).reverse
    rwa [hlen] at this
  rw [swapBytes, hbe, List.reverse_reverse, ofBe_be_of_lt h]

theorem swapBytes_inj {k n m : Nat} (hn : n < 256 ^ k) (hm : m < 256 ^ k) (h : swapBytes k n = swapBytes k m) :
    n = m := by
  rw [← swapBytes_swapBytes hn, h, swapBytes_swapBytes hm]

/-- The last byte becomes the first one. -/
theorem swapBytes_succ (k n : Nat) : swapBytes (k + 1) n = n % 256 * 256 ^ k + swapBytes k (n / 256) := by
  have hb : (UInt8.ofNat n).toNat = n % 256 := UInt8.toNat_ofNat'
  rw [swapBytes, be, List.reverse_append, List.reverse_singleton, List.singleton_append, ofBe_cons, hb,
    List.length_reverse, length_be]
  rfl

/-- The first byte becomes the last one. -/
theorem swapBytes_first {k a c : Nat} (ha : a < 256) (hc : c < 256 ^ k) :
    swapBytes (k + 1) (a * 256 ^ k + c) = swapBytes k c * 256 + a := by
  have hlt : swapBytes k c * 256 + a < 256 ^ (k + 1) := by
    have := swapBytes_lt k c
    rw [Nat.pow_succ]
    omega
  have h := swapBytes_succ k (swapBytes k c * 256 + a)
  rw [show (swapBytes k c * 256 + a) % 256 = a by omega, show (swapBytes k c * 256 + a) / 256 = swapBytes k c by omega,
    swapBytes_swapBytes hc] at h
  rw [← h, swapBytes_swapBytes hlt]

end Number

/-! ## The increments -/

/-- The number that is counted: the first 15 bytes of the free bits, little-endian. -/
def counter (u : BitVec 128) : Nat := swapBytes 15 ((randBits u).toNat / 256)

theorem counter_lt (u : BitVec 128) : counter u < 2 ^ 120 := swapBytes_lt 15 _

theorem randBits_mod (u : BitVec 128) : (randBits u).toNat % 64 = 0 := by
  have h : (randBits u).extractLsb' 0 6 = 0#6 := by
    rw [randBits, BitVec.extractLsb'_append_eq_of_add_le (by decide),
        BitVec.extractLsb'_append_eq_of_add_le (by decide)]
    exact BitVec.extractLsb'_append_eq_right
  have := congrArg BitVec.toNat h
  rwa [BitVec.extractLsb'_toNat] at this

variable {u v w : BitVec 128}

theorem isRandom_iff : isRandom u = true ↔ (version u = 4 ∨ version u = 5 ∨ version u = 3) ∧ variant u = 0b10#2 := by
  simp [isRandom, or_assoc]

theorem isRandom_not_v1 (h : isRandom u = true) : isV1 u = false := by
  obtain ⟨h, -⟩ := isRandom_iff.mp h
  refine decide_eq_false fun hv1 => ?_
  rw [version, hv1.1] at h
  revert h
  decide

/-- What the value is made of: the last byte with the zero bits, and the counter. -/
theorem value_eq (u : BitVec 128) :
    swapBytes 16 (randBits u).toNat = (randBits u).toNat % 256 * 256 ^ 15 + counter u :=
  swapBytes_succ 15 _

/-- The value is never `2 ^ 122 - 1`. -/
theorem value_ne (u : BitVec 128) : swapBytes 16 (randBits u).toNat + 1 ≠ 5316911983139663491615228241121378304 := by
  have hmod := randBits_mod u
  have hlt := counter_lt u
  rw [value_eq]
  omega

/-- The last six bits of the bytes of a number, as the pattern of the source has them. -/
theorem low_eq_zero_iff {n : Nat} (hn : n < 2 ^ 128) : (BitVec.ofNat 128 n).extractLsb' 0 6 = 0#6 ↔ n % 64 = 0 := by
  rw [← BitVec.toNat_inj, BitVec.extractLsb'_toNat, BitVec.toNat_ofNat, Nat.mod_eq_of_lt hn]
  rfl

/-- What an increment of the counter leaves. -/
structure Incremented (u w : BitVec 128) : Prop where
  version : version w = version u
  variant : variant w = variant u
  counter : counter w = counter u + 1
  low : (randBits w).toNat % 256 = (randBits u).toNat % 256

theorem incrementUuid_ok (hu : isRandom u = true) (hc : counter u + 1 < 2 ^ 120) :
    ∃ w, incrementUuid u = .ok w ∧ Incremented u w := by
  have hmod := randBits_mod u
  set low := (randBits u).toNat % 256 with hlow
  have hbyte : low < 256 := Nat.mod_lt _ (by decide)
  have hswap : swapBytes 16 (swapBytes 16 (randBits u).toNat + 1) = swapBytes 15 (counter u + 1) * 256 + low := by
    rw [value_eq, Nat.add_assoc]
    exact swapBytes_first hbyte hc
  have hlt : swapBytes 15 (counter u + 1) * 256 + low < 2 ^ 128 := hswap ▸ swapBytes_lt 16 _
  have hzero : (BitVec.ofNat 128 (swapBytes 15 (counter u + 1) * 256 + low)).extractLsb' 0 6 = 0#6 :=
    (low_eq_zero_iff hlt).mpr (by omega)
  refine ⟨ofRandBits (version u) (BitVec.ofNat 128 (swapBytes 15 (counter u + 1) * 256 + low)), ?_,
    version_ofRandBits _ _, ?_, ?_, ?_⟩
  · rw [incrementUuid, isRandom_not_v1 hu, if_neg (by decide), if_pos hu]
    dsimp only
    rw [if_neg (value_ne u), hswap, if_pos hzero]
  · rw [variant_ofRandBits, (isRandom_iff.mp hu).2]
  · rw [counter, randBits_ofRandBits _ hzero, BitVec.toNat_ofNat, Nat.mod_eq_of_lt hlt,
      show (swapBytes 15 (counter u + 1) * 256 + low) / 256 = swapBytes 15 (counter u + 1) by omega]
    exact swapBytes_swapBytes hc
  · rw [randBits_ofRandBits _ hzero, BitVec.toNat_ofNat, Nat.mod_eq_of_lt hlt]
    omega

/-- The carry of a full counter is in the zero bits. -/
theorem incrementUuid_full (hu : isRandom u = true) (hc : ¬counter u + 1 < 2 ^ 120) :
    incrementUuid u = .error .badmatch := by
  have hmod := randBits_mod u
  have hfull : counter u + 1 = 256 ^ 15 := Nat.le_antisymm (counter_lt u) (Nat.le_of_not_lt hc)
  set low := (randBits u).toNat % 256 with hlow
  have hbyte : low + 1 < 256 := by omega
  have hswap : swapBytes 16 (swapBytes 16 (randBits u).toNat + 1) = swapBytes 15 0 * 256 + (low + 1) := by
    rw [value_eq, Nat.add_assoc, hfull, ← Nat.succ_mul, ← Nat.add_zero ((low + 1) * 256 ^ 15)]
    exact swapBytes_first hbyte (by decide)
  have hlt : swapBytes 15 0 * 256 + (low + 1) < 2 ^ 128 := hswap ▸ swapBytes_lt 16 _
  have hzero : ¬(BitVec.ofNat 128 (swapBytes 15 0 * 256 + (low + 1))).extractLsb' 0 6 = 0#6 := by
    rw [low_eq_zero_iff hlt]
    omega
  rw [incrementUuid, isRandom_not_v1 hu, if_neg (by decide), if_pos hu]
  dsimp only
  rw [if_neg (value_ne u), hswap, if_neg hzero]

/-- The version, the counter and the last byte are all of a UUID. -/
theorem eq_of_counter (hu : variant u = 0b10#2) (hv : variant v = 0b10#2) (hversion : version u = version v)
    (hcounter : counter u = counter v) (hlow : (randBits u).toNat % 256 = (randBits v).toNat % 256) : u = v := by
  have hdiv (x : BitVec 128) : x.toNat / 256 < 256 ^ 15 := by
    have := x.isLt
    omega
  have hhigh := swapBytes_inj (hdiv _) (hdiv _) hcounter
  have hrand : randBits u = randBits v := BitVec.toNat_inj.mp (by omega)
  rw [← ofRandBits_randBits hu, ← ofRandBits_randBits hv, hversion, hrand]

theorem Incremented.isRandom (h : Incremented u w) (hu : isRandom u = true) : Uuid.isRandom w = true := by
  rw [isRandom_iff, h.version, h.variant]
  exact isRandom_iff.mp hu

/-- Different UUIDs have different increments. -/
theorem incrementUuid_inj (hu : isRandom u = true) (hv : isRandom v = true) (h : incrementUuid u = .ok w)
    (h' : incrementUuid v = .ok w) : u = v := by
  have hspec {x : BitVec 128} (hx : isRandom x = true) (h : incrementUuid x = .ok w) : Incremented x w := by
    by_cases hc : counter x + 1 < 2 ^ 120
    · obtain ⟨w', hw, hi⟩ := incrementUuid_ok hx hc
      cases h.symm.trans hw
      exact hi
    · rw [incrementUuid_full hx hc] at h
      cases h
  have hi := hspec hu h
  have hi' := hspec hv h'
  exact eq_of_counter (isRandom_iff.mp hu).2 (isRandom_iff.mp hv).2 (hi.version.symm.trans hi'.version)
    (Nat.succ.inj (hi.counter.symm.trans hi'.counter)) (hi.low.symm.trans hi'.low)

/-- A UUID and its next `n` increments. -/
def increments : Nat → BitVec 128 → Except Exn (List (BitVec 128))
  | 0, u => .ok [u]
  | n + 1, u => do
    let next ← incrementUuid u
    return u :: (← increments n next)

/-- There are as many increments as are left to the counter, which they count. -/
theorem increments_spec (n : Nat) (hu : isRandom u = true) :
    (counter u + n < 2 ^ 120 → ∃ l, increments n u = .ok l ∧ l.map counter = List.range' (counter u) (n + 1) ∧
      ∀ w ∈ l, version w = version u ∧ variant w = variant u) ∧
    (¬counter u + n < 2 ^ 120 → increments n u = .error .badmatch) := by
  induction n generalizing u with
  | zero =>
    refine ⟨fun _ => ⟨[u], rfl, List.map_singleton, fun w hw => ?_⟩, fun hc => ?_⟩
    · obtain rfl := List.mem_singleton.mp hw
      exact ⟨rfl, rfl⟩
    · have := counter_lt u
      omega
  | succ n ih =>
    by_cases hone : counter u + 1 < 2 ^ 120
    · obtain ⟨next, hnext, hi⟩ := incrementUuid_ok hu hone
      obtain ⟨hok, herror⟩ := ih (hi.isRandom hu)
      rw [hi.counter, show counter u + 1 + n = counter u + (n + 1) by omega] at hok herror
      refine ⟨fun hc => ?_, fun hc => ?_⟩
      · obtain ⟨l, hl, hcount, hkind⟩ := hok hc
        refine ⟨u :: l, ?_, ?_, fun w hw => ?_⟩
        · rw [increments, bind_ok hnext, bind_ok hl]
          rfl
        · rw [List.map_cons, hcount]
          exact List.range'_succ.symm
        · obtain rfl | hw := List.mem_cons.mp hw
          · exact ⟨rfl, rfl⟩
          · obtain ⟨hversion, hvariant⟩ := hkind w hw
            exact ⟨hversion.trans hi.version, hvariant.trans hi.variant⟩
      · rw [increments, bind_ok hnext, herror hc]
        rfl
    · refine ⟨fun hc => absurd hc (by omega), fun _ => ?_⟩
      rw [increments, incrementUuid_full hu hone]
      rfl

/-- Successive increments of a UUID are of its kind and all different exactly as far as its counter goes. Increments
of different UUIDs are different. -/
theorem increment_iff (hu : isRandom u = true) (n : Nat) :
    ((∃ l, increments n u = .ok l ∧ l.Nodup ∧ ∀ w ∈ l, version w = version u ∧ variant w = variant u) ↔
      counter u + n < 2 ^ 120) ∧
    ∀ v w, isRandom v = true → incrementUuid u = .ok w → incrementUuid v = .ok w → u = v := by
  refine ⟨⟨fun ⟨l, hl, _⟩ => ?_, fun hc => ?_⟩, fun v w hv h h' => incrementUuid_inj hu hv h h'⟩
  · by_contra hc
    rw [(increments_spec n hu).2 hc] at hl
    cases hl
  · obtain ⟨l, hl, hcount, hkind⟩ := (increments_spec n hu).1 hc
    have hnodup : (l.map counter).Nodup := by
      rw [hcount]
      exact List.nodup_range'
    exact ⟨l, hl, List.Nodup.of_map _ hnodup, hkind⟩

/-- The v4 UUID with no other bit set. -/
theorem increment_iff_small : ((∃ l, increments 1 0x40008000000000000000#128 = .ok l ∧ l.Nodup ∧
    ∀ w ∈ l, version w = version 0x40008000000000000000#128 ∧ variant w = variant 0x40008000000000000000#128) ↔
      counter 0x40008000000000000000#128 + 1 < 2 ^ 120) ∧
    ∀ v w, isRandom v = true → incrementUuid 0x40008000000000000000#128 = .ok w → incrementUuid v = .ok w →
      0x40008000000000000000#128 = v :=
  increment_iff (by decide) 1

/-- The v4 UUID with all the other bits set. -/
theorem increment_full : isRandom 0xffffffffffff4fffbfffffffffffffff#128 = true ∧
    incrementUuid 0xffffffffffff4fffbfffffffffffffff#128 = .error .badmatch :=
  ⟨by decide, incrementUuid_full (by decide) (by decide)⟩

end CloudI.Uuid
