import CloudI.Framework.Framing

/-!
# The messages that the JavaScript API receives

The handler of `'data'` events, with a header, as for tcp and local sockets. `polls` has what each event calls
`_poll_request` with, and `arrivals` the messages whose last byte each event brings. `polls_eq_arrivals_iff` says
when they are the same.
-/

namespace CloudI.Api.JavaScript

/-- The first four bytes, as a signed number of 32 bits. A byte past the end is `undefined`, which counts as zero. -/
def unpackUint32big (data : List UInt8) : Int :=
  let n := ofBe ((data ++ List.replicate 4 0).take 4)
  if n < 2147483648 then n else n - 4294967296

/-- Where `Buffer.slice` cuts: a negative index is counted from the end. -/
def sliceIndex (data : List UInt8) (i : Int) : Nat := if i < 0 then (data.length + i).toNat else i.toNat

/-- `_poll_data` and `_poll_data_size`, which are `undefined` together. -/
abbrev Poll := Option (List UInt8 × Int)

/-- The branches on the size of what has arrived. `pollData` is what is kept when none is taken. -/
def reassemble (pollData data : List UInt8) (size : Int) : Poll × List (List UInt8) :=
  if (data.length : Int) = size then (none, [data])
  else if data.length < size then (some (data, size), [])
  else if data.length > size + 4 then
    let nextData := data.drop (sliceIndex data size)
    (some (nextData, 4 + unpackUint32big nextData), [data.take (sliceIndex data size)])
  else (some (pollData, size), [])

/-- A `'data'` event, and what `_poll_request` is called with. -/
def onData : Poll → List UInt8 → Poll × List (List UInt8)
  | none, data => reassemble data data (4 + unpackUint32big data)
  | some (pollData, size), data => reassemble pollData (pollData ++ data) size

/-- What `_poll_request` is called with, event by event. -/
def polls : Poll → List (List UInt8) → List (List (List UInt8))
  | _, [] => []
  | s, e :: es => (onData s e).2 :: polls (onData s e).1 es

/-! ## What arrives -/

/-- The messages that `p` bytes are enough for, how many bytes there are of the next one, and the messages left. -/
def ended (p : Nat) : List (List UInt8) → List (List UInt8) × Nat × List (List UInt8)
  | [] => ([], p, [])
  | m :: ms =>
    if 4 + m.length ≤ p then
      let next := ended (p - (4 + m.length)) ms
      (frame m :: next.1, next.2)
    else ([], p, m :: ms)

/-- The messages whose last byte each event brings, when `p` bytes of the first one are there. -/
def arrivals (p : Nat) (ms : List (List UInt8)) : List (List UInt8) → List (List (List UInt8))
  | [] => []
  | e :: es =>
    let next := ended (p + e.length) ms
    next.1 :: arrivals next.2.1 next.2.2 es

/-- How the events may split the messages. An event that starts a message has its length, which is below `2^31`, or
lacks only zeros of it; and no event brings the last byte of a message and then one to four bytes, or the last byte of
another one. -/
def Split (p : Nat) (ms : List (List UInt8)) : List (List UInt8) → Prop
  | [] => True
  | e :: es =>
    let next := ended (p + e.length) ms
    (p = 0 → ∀ m ∈ ms.head?, unpackUint32big e = m.length) ∧
    next.1.length ≤ 1 ∧
    (next.1 ≠ [] → next.2.1 = 0 ∨ 4 < next.2.1 ∧
      ∀ m ∈ next.2.2.head?, unpackUint32big (e.drop (e.length - next.2.1)) = m.length) ∧
    Split next.2.1 next.2.2 es

/-! ## The length of a message -/

/-- The length that the start of a message gives: zeros are in place of the bytes it lacks. -/
theorem ofBe_start {m : List UInt8} (rest : List UInt8) (hm : m.length < 256 ^ 4) (k : Nat) :
    ofBe (((frame m ++ rest).take k ++ List.replicate 4 0).take 4) =
      m.length / 256 ^ (4 - k) * 256 ^ (4 - k) := by
  by_cases hk : k ≤ 4
  · have htake : (frame m ++ rest).take k = be k (m.length / 256 ^ (4 - k)) := by
      rw [frame_append, List.take_append_of_le_length (by rw [length_be]; exact hk), ← take_be k (4 - k),
        Nat.add_sub_cancel' hk]
    have hlt : m.length / 256 ^ (4 - k) < 256 ^ k := by
      rw [Nat.div_lt_iff_lt_mul (Nat.pow_pos (by decide)), ← Nat.pow_add, Nat.add_sub_cancel' hk]
      exact hm
    rw [htake, List.take_append, length_be, List.take_of_length_le (by rw [length_be]; exact hk), List.take_replicate,
      Nat.min_eq_left (by omega), ofBe_append_zeros, ofBe_be_of_lt hlt]
  · have htake : ((frame m ++ rest).take k ++ List.replicate 4 0).take 4 = be 4 m.length := by
      rw [List.take_append_of_le_length (by rw [List.length_take, List.length_append, length_frame]; omega),
        List.take_take, Nat.min_eq_left (by omega), take_frame]
    rw [htake, ofBe_be_of_lt hm, show 4 - k = 0 by omega, Nat.pow_zero, Nat.div_one, Nat.mul_one]

/-- The start of a message gives its length, or a number that is too small. -/
theorem unpackUint32big_start {m : List UInt8} (rest : List UInt8) (hm : m.length < 256 ^ 4) (k : Nat) :
    unpackUint32big ((frame m ++ rest).take k) ≤ m.length ∧
      (unpackUint32big ((frame m ++ rest).take k) < 0 →
        unpackUint32big ((frame m ++ rest).take k) + 4294967296 ≤ m.length) := by
  have hle := Nat.div_mul_le_self m.length (256 ^ (4 - k))
  unfold unpackUint32big
  rw [ofBe_start rest hm]
  dsimp only
  split <;> omega

/-! ## A size that is too small -/

/-- What is known of the sizes once one is too small for the message that it is for. -/
structure Short (m stored : List UInt8) (size : Int) : Prop where
  lt : size < 4 + m.length
  negative : size < 0 → size + 4294967296 ≤ 4 + m.length ∧ stored.length < 2147483648

/-- A message is not taken with a size that is too small. -/
theorem reassemble_short {m stored data : List UInt8} {size : Int} (h : Short m stored size)
    (hd : size < 0 → data.length < 4294967296) :
    ((reassemble stored data size).2 = [] ∧
      ∃ stored', (reassemble stored data size).1 = some (stored', size) ∧ Short m stored' size) ∨
    ∃ x, (reassemble stored data size).2 = [x] ∧ x.length ≠ 4 + m.length := by
  have hlt := h.lt
  unfold reassemble
  split
  · exact .inr ⟨data, rfl, by omega⟩
  · split
    · exact .inl ⟨rfl, data, rfl, hlt, fun hneg => absurd hneg (by omega)⟩
    · split
      · refine .inr ⟨_, rfl, ?_⟩
        rw [List.length_take, sliceIndex]
        split
        · rename_i hneg
          have hle := (h.negative hneg).1
          have hmax := hd hneg
          omega
        · omega
      · exact .inl ⟨rfl, stored, rfl, h⟩

/-- An event passes at most one message on. -/
theorem reassemble_calls (stored data : List UInt8) (size : Int) : (reassemble stored data size).2.length ≤ 1 := by
  unfold reassemble
  split
  · exact Nat.le_refl 1
  · split
    · exact Nat.zero_le 1
    · split
      · exact Nat.le_refl 1
      · exact Nat.zero_le 1

theorem ended_of_lt {p : Nat} {m : List UInt8} {ms : List (List UInt8)} (h : p < 4 + m.length) :
    ended p (m :: ms) = ([], p, m :: ms) := by
  rw [ended, if_neg (by omega)]

theorem ended_of_le {p : Nat} {m : List UInt8} {ms : List (List UInt8)} (h : 4 + m.length ≤ p) :
    ended p (m :: ms) = (frame m :: (ended (p - (4 + m.length)) ms).1, (ended (p - (4 + m.length)) ms).2) := by
  rw [ended, if_pos h]

theorem ended_of_nil {p : Nat} {ms : List (List UInt8)} (h : (ended p ms).1 = []) : ended p ms = ([], p, ms) := by
  cases ms with
  | nil => rfl
  | cons m ms =>
    by_cases hle : 4 + m.length ≤ p
    · rw [ended_of_le hle] at h
      exact absurd h (List.cons_ne_nil _ _)
    · exact ended_of_lt (by omega)

/-- With a size that is too small, the message is not passed on by this event or a later one. -/
theorem calls_short {m : List UInt8} {ms es : List (List UInt8)} {e stored data : List UInt8} {size : Int}
    (h : Short m stored size) (hd : size < 0 → data.length < 4294967296) (hev : ∀ e ∈ es, e.length < 2147483648)
    {p : Nat}
    (hp : p < 4 + m.length) (hall : 4 + m.length ≤ p + e.length + es.flatten.length) :
    (reassemble stored data size).2 :: polls (reassemble stored data size).1 es ≠ arrivals p (m :: ms) (e :: es) := by
  induction es generalizing e stored data p with
  | nil =>
    rw [List.flatten_nil, List.length_nil] at hall
    intro heq
    have hcalls := (List.cons.inj heq).1
    rw [ended_of_le (by omega)] at hcalls
    rcases reassemble_short h hd with ⟨hnone, -⟩ | ⟨x, hx, hne⟩
    · exact absurd (hnone.symm.trans hcalls) (List.cons_ne_nil _ _).symm
    · exact hne (by rw [(List.cons.inj (hx.symm.trans hcalls)).1, length_frame])
  | cons e' es ih =>
    rw [List.flatten_cons, List.length_append] at hall
    intro heq
    obtain ⟨hcalls, hrest⟩ := List.cons.inj heq
    rcases reassemble_short h hd with ⟨hnone, stored', hs, h'⟩ | ⟨x, hx, hne⟩
    · by_cases hle : 4 + m.length ≤ p + e.length
      · rw [ended_of_le hle] at hcalls
        exact absurd (hnone.symm.trans hcalls) (List.cons_ne_nil _ _).symm
      · have hmax := hev e' List.mem_cons_self
        have hdata : size < 0 → (stored' ++ e').length < 4294967296 := by
          intro hneg
          have hstored := (h'.negative hneg).2
          rw [List.length_append]
          omega
        rw [ended_of_lt (by omega), hs] at hrest
        exact ih (p := p + e.length) h' hdata (fun e he => hev e (List.mem_cons_of_mem _ he)) (by omega) (by omega)
            hrest
    · have hcalls := hx.symm.trans hcalls
      by_cases hle : 4 + m.length ≤ p + e.length
      · rw [ended_of_le hle] at hcalls
        exact hne (by rw [(List.cons.inj hcalls).1, length_frame])
      · rw [ended_of_lt (by omega)] at hcalls
        exact absurd hcalls (List.cons_ne_nil _ _)

theorem polls_short {m : List UInt8} {ms : List (List UInt8)} {events : List (List UInt8)} {stored : List UInt8}
    {size : Int} (h : Short m stored size) (hev : ∀ e ∈ events, e.length < 2147483648) {p : Nat}
    (hp : p < 4 + m.length) (hall : 4 + m.length ≤ p + events.flatten.length) :
    polls (some (stored, size)) events ≠ arrivals p (m :: ms) events := by
  cases events with
  | nil =>
    rw [List.flatten_nil, List.length_nil] at hall
    omega
  | cons e es =>
    have hmax := hev e List.mem_cons_self
    have hdata : size < 0 → (stored ++ e).length < 4294967296 := by
      intro hneg
      have hstored := (h.negative hneg).2
      rw [List.length_append]
      omega
    rw [List.flatten_cons, List.length_append] at hall
    exact calls_short h hdata (fun e he => hev e (List.mem_cons_of_mem _ he)) hp (by omega)

/-! ## The right size -/

section Right

variable {m stored R : List UInt8} {q : Nat}

theorem length_take_frame (hq : q ≤ 4 + m.length + R.length) : ((frame m ++ R).take q).length = q := by
  rw [List.length_take, List.length_append, length_frame]
  omega

theorem reassemble_less (R : List UInt8) (hq : q < 4 + m.length) :
    reassemble stored ((frame m ++ R).take q) (4 + m.length) = (some ((frame m).take q, (4 + m.length : Int)), []) := by
  have hlen : ((frame m ++ R).take q).length = q := length_take_frame (by omega)
  rw [reassemble, if_neg (by omega), if_pos (by omega), List.take_append_of_le_length (by rw [length_frame]; omega)]

theorem reassemble_exact (R : List UInt8) :
    reassemble stored ((frame m ++ R).take (4 + m.length)) (4 + m.length) = (none, [frame m]) := by
  have hlen : ((frame m ++ R).take (4 + m.length)).length = 4 + m.length := length_take_frame (by omega)
  rw [reassemble, if_pos (by omega), List.take_left' (length_frame m)]

theorem reassemble_over (hq : 4 + m.length < q) (hq4 : q ≤ 4 + m.length + 4) (hle : q ≤ 4 + m.length + R.length) :
    reassemble stored ((frame m ++ R).take q) (4 + m.length) = (some (stored, (4 + m.length : Int)), []) := by
  have hlen := length_take_frame hle
  rw [reassemble, if_neg (by omega), if_neg (by omega), if_neg (by omega)]

theorem reassemble_next (hq : 4 + m.length + 4 < q) (hle : q ≤ 4 + m.length + R.length) :
    reassemble stored ((frame m ++ R).take q) (4 + m.length) =
      (some (R.take (q - (4 + m.length)), 4 + unpackUint32big (R.take (q - (4 + m.length)))), [frame m]) := by
  have hlen := length_take_frame hle
  have hindex : sliceIndex ((frame m ++ R).take q) (4 + m.length) = 4 + m.length := by
    rw [sliceIndex, if_neg (by omega)]
    omega
  have hdrop : ((frame m ++ R).take q).drop (4 + m.length) = R.take (q - (4 + m.length)) := by
    rw [List.drop_take, List.drop_left' (length_frame m)]
  have htake : ((frame m ++ R).take q).take (4 + m.length) = frame m := by
    rw [List.take_take, Nat.min_eq_left (by omega), List.take_left' (length_frame m)]
  rw [reassemble, if_neg (by omega), if_neg (by omega), if_pos (by omega)]
  simp only [hindex, hdrop, htake]

end Right

/-- What the handler keeps of the first `p` bytes of the stream. -/
def Held (p : Nat) (ms : List (List UInt8)) (s : Poll) : Prop :=
  (p = 0 → s = none) ∧
  (0 < p → ∃ m, ms.head? = some m ∧ p < 4 + m.length ∧ s = some ((frame m).take p, (4 + m.length : Int)))

theorem held_none (ms : List (List UInt8)) : Held 0 ms none := ⟨fun _ => rfl, fun h => absurd h (Nat.lt_irrefl 0)⟩

/-- An event with the right size. -/
theorem reassemble_iff {m stored e : List UInt8} {ms es : List (List UInt8)} {p : Nat} (hp : p < 4 + m.length)
    (he : 0 < e.length) (hmax : e.length < 2147483648) (hmaxes : ∀ e ∈ es, e.length < 2147483648)
    (hms : ∀ m' ∈ m :: ms, m'.length < 256 ^ 4) (hs : (framed (m :: ms)).drop p = e ++ es.flatten)
    (ih : ∀ {p ms s}, Held p ms s → (∀ m ∈ ms, m.length < 256 ^ 4) → (framed ms).drop p = es.flatten →
      (polls s es = arrivals p ms es ↔ Split p ms es)) :
    (reassemble stored ((framed (m :: ms)).take (p + e.length)) (4 + m.length)).2 ::
        polls (reassemble stored ((framed (m :: ms)).take (p + e.length)) (4 + m.length)).1 es =
      arrivals p (m :: ms) (e :: es) ↔
    (ended (p + e.length) (m :: ms)).1.length ≤ 1 ∧
    ((ended (p + e.length) (m :: ms)).1 ≠ [] → (ended (p + e.length) (m :: ms)).2.1 = 0 ∨
      4 < (ended (p + e.length) (m :: ms)).2.1 ∧ ∀ m' ∈ (ended (p + e.length) (m :: ms)).2.2.head?,
        unpackUint32big (e.drop (e.length - (ended (p + e.length) (m :: ms)).2.1)) = m'.length) ∧
    Split (ended (p + e.length) (m :: ms)).2.1 (ended (p + e.length) (m :: ms)).2.2 es := by
  have hlen := congrArg List.length hs
  rw [List.length_drop, List.length_append, framed, List.length_append, length_frame] at hlen
  have hdrop : (framed (m :: ms)).drop (p + e.length) = es.flatten := by
    rw [← List.drop_drop, hs, List.drop_left]
  rw [arrivals, List.cons.injEq]
  rcases Nat.lt_trichotomy (p + e.length) (4 + m.length) with hlt | heq | hgt
  · -- the message goes on
    have hheld : Held (p + e.length) (m :: ms) (some ((frame m).take (p + e.length), (4 + m.length : Int))) :=
      ⟨fun h => absurd h (by omega), fun _ => ⟨m, rfl, hlt, rfl⟩⟩
    rw [ended_of_lt hlt, framed, reassemble_less _ hlt]
    simp only [true_and, ih hheld hms hdrop, List.length_nil, Nat.zero_le, ne_eq, not_true_eq_false, false_implies]
  · -- the message ends with the event
    have hms' : ∀ m' ∈ ms, m'.length < 256 ^ 4 := fun m' hm' => hms m' (List.mem_cons_of_mem _ hm')
    rw [heq, framed, List.drop_left' (length_frame m)] at hdrop
    have hended : ended (p + e.length) (m :: ms) = ([frame m], 0, ms) := by
      rw [ended_of_le (Nat.le_of_eq heq.symm), heq, Nat.sub_self]
      cases ms with
      | nil => rfl
      | cons m' ms => rw [ended_of_lt (by omega)]
    rw [hended, framed, heq, reassemble_exact]
    simp only [true_and, ih (held_none ms) hms' hdrop, List.length_singleton, Nat.le_refl, true_or, implies_true]
  · -- the event has more than the message
    have hms' : ∀ m' ∈ ms, m'.length < 256 ^ 4 := fun m' hm' => hms m' (List.mem_cons_of_mem _ hm')
    have hafter : e.drop (e.length - (p + e.length - (4 + m.length))) =
        (framed ms).take (p + e.length - (4 + m.length)) := by
      have htake := congrArg (fun l => (l.take e.length).drop (4 + m.length - p)) hs
      rw [List.take_left, List.drop_take, List.drop_drop, framed, Nat.add_sub_cancel' (Nat.le_of_lt hp),
        List.drop_left' (length_frame m)] at htake
      rw [show e.length - (p + e.length - (4 + m.length)) = 4 + m.length - p by omega, ← htake,
        show p + e.length - (4 + m.length) = e.length - (4 + m.length - p) by omega]
    rw [framed, show p + e.length = 4 + m.length + (p + e.length - (4 + m.length)) by omega, ← List.drop_drop,
      List.drop_left' (length_frame m)] at hdrop
    rw [ended_of_le (Nat.le_of_lt hgt)]
    generalize hk : p + e.length - (4 + m.length) = k at *
    by_cases hnil : (ended k ms).1 = []
    · rw [ended_of_nil hnil]
      by_cases hk4 : k ≤ 4
      · rw [framed, reassemble_over hgt (by omega) (by omega)]
        refine ⟨fun h => absurd h.1 (List.cons_ne_nil _ _).symm, fun h => ?_⟩
        have hor : k = 0 ∨ 4 < k := (h.2.1 (List.cons_ne_nil _ _)).imp id And.left
        omega
      · obtain ⟨m', ms', rfl⟩ : ∃ m' ms', ms = m' :: ms' := by
          cases ms with
          | nil =>
            rw [framed, List.length_nil] at hlen
            omega
          | cons m' ms' => exact ⟨m', ms', rfl⟩
        have hlt' : k < 4 + m'.length := by
          by_contra hge
          rw [ended_of_le (by omega)] at hnil
          exact absurd hnil (List.cons_ne_nil _ _)
        have hm' := hms' m' List.mem_cons_self
        have hlenk : ((framed (m' :: ms')).take k).length = k := by
          rw [List.length_take]
          omega
        rw [framed, reassemble_next (by omega) (by omega), hk]
        simp only [List.length_singleton, Nat.le_refl, true_and, ne_eq, List.cons_ne_nil, not_false_eq_true,
          forall_const, List.head?_cons, Option.mem_def, Option.some.injEq, forall_eq', hafter,
          show ¬ k = 0 by omega, show 4 < k by omega, false_or]
        by_cases hsize : unpackUint32big ((framed (m' :: ms')).take k) = m'.length
        · have hheld : Held k (m' :: ms') (some ((framed (m' :: ms')).take k, (4 + m'.length : Int))) := by
            refine ⟨fun h => absurd h (by omega), fun _ => ⟨m', rfl, hlt', ?_⟩⟩
            rw [framed, List.take_append_of_le_length (by rw [length_frame]; omega)]
          rw [hsize]
          simp only [true_and, ih hheld hms' hdrop]
        · refine ⟨fun h => ?_, fun h => absurd h.1 hsize⟩
          have hstart := unpackUint32big_start (framed ms') hm' k
          rw [← framed] at hstart
          have hflat := congrArg List.length hdrop
          rw [List.length_drop, framed, List.length_append, length_frame] at hflat
          refine absurd h (polls_short ⟨by omega, fun hneg => ⟨by omega, by omega⟩⟩ hmaxes hlt' (by omega))
    · refine ⟨fun h => ?_, fun h => ?_⟩
      · have hone := reassemble_calls stored ((framed (m :: ms)).take (p + e.length)) (4 + m.length)
        rw [h.1] at hone
        exact absurd (List.length_eq_zero_iff.mp (Nat.le_zero.mp (Nat.le_of_succ_le_succ hone))) hnil
      · exact absurd (List.length_eq_zero_iff.mp (Nat.le_zero.mp (Nat.le_of_succ_le_succ h.1))) hnil

/-- The handler calls `_poll_request` with exactly the messages whose last byte an event brings, event by event, if and
only if the events split the messages as `Split` says. -/
theorem polls_eq_arrivals_iff {p : Nat} {messages events : List (List UInt8)} {s : Poll} (hheld : Held p messages s)
    (hm : ∀ m ∈ messages, m.length < 256 ^ 4) (hev : ∀ e ∈ events, 0 < e.length ∧ e.length < 2147483648)
    (hs : (framed messages).drop p = events.flatten) :
    polls s events = arrivals p messages events ↔ Split p messages events := by
  induction events generalizing p messages s with
  | nil => exact ⟨fun _ => trivial, fun _ => rfl⟩
  | cons e es ih =>
    obtain ⟨he, hmax⟩ := hev e List.mem_cons_self
    have hes : ∀ e ∈ es, 0 < e.length ∧ e.length < 2147483648 := fun e he => hev e (List.mem_cons_of_mem _ he)
    have hmaxes : ∀ e ∈ es, e.length < 2147483648 := fun e he => (hes e he).2
    rw [List.flatten_cons] at hs
    obtain ⟨m, ms, rfl⟩ : ∃ m ms, messages = m :: ms := by
      cases messages with
      | nil =>
        have hlen := congrArg List.length hs
        rw [framed, List.drop_nil, List.length_append, List.length_nil] at hlen
        omega
      | cons m ms => exact ⟨m, ms, rfl⟩
    have hml := hm m List.mem_cons_self
    rw [polls, Split]
    by_cases hp : p = 0
    · subst hp
      have hdrop := hs
      rw [hheld.1 rfl, onData]
      rw [List.drop_zero] at hs
      have htake : e = (framed (m :: ms)).take (0 + e.length) := by rw [hs, Nat.zero_add, List.take_left]
      simp only [forall_const, List.head?_cons, Option.mem_def, Option.some.injEq, forall_eq']
      by_cases hsize : unpackUint32big e = m.length
      · have hstep := @reassemble_iff m e e ms es 0 (by omega) he hmax hmaxes hm hdrop fun h hms h' => ih h hms hes h'
        rw [← htake] at hstep
        rw [hsize, hstep]
        exact (and_iff_right rfl).symm
      · refine ⟨fun h => ?_, fun h => absurd h.1 hsize⟩
        have hstart := unpackUint32big_start (framed ms) hml (0 + e.length)
        rw [← framed, ← htake] at hstart
        have hlen := congrArg List.length hs
        rw [framed, List.length_append, List.length_append, length_frame] at hlen
        exact absurd h (calls_short ⟨by omega, fun hneg => ⟨by omega, hmax⟩⟩ (fun _ => by omega) hmaxes (by omega)
            (by omega))
    · obtain ⟨m', hhead, hlt, rfl⟩ := hheld.2 (by omega)
      obtain rfl := Option.some.inj hhead
      have htake : (frame m).take p ++ e = (framed (m :: ms)).take (p + e.length) := by
        rw [List.take_add, hs, List.take_left, framed, List.take_append_of_le_length (by rw [length_frame]; omega)]
      have hstep := @reassemble_iff m ((frame m).take p) e ms es p hlt he hmax hmaxes hm hs fun h hms h' =>
          ih h hms hes h'
      rw [onData, htake, hstep]
      simp only [hp, false_implies, true_and]

/-- Two messages in three events: the second event ends the first message and has five bytes of the next. -/
theorem polls_two :
    polls none [[0, 0, 0, 1], [7, 0, 0, 0, 2, 8], [9]] = [[], [[0, 0, 0, 1, 7]], [[0, 0, 0, 2, 8, 9]]] := by
  have hm : ∀ m ∈ [[7], [8, 9]], (m : List UInt8).length < 256 ^ 4 := by decide
  exact (polls_eq_arrivals_iff (held_none [[7], [8, 9]]) hm (by decide) rfl).mpr (by simp only [Split]; decide)

/-- An event that ends a message and has one byte of the next: the message is not passed on. -/
theorem polls_overrun :
    polls none [[0, 0, 0, 1, 7, 0], [0, 0, 1, 8]] ≠ arrivals 0 [[7], [8]] [[0, 0, 0, 1, 7, 0], [0, 0, 1, 8]] := by
  decide

end CloudI.Api.JavaScript
