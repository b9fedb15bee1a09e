import CloudI.Framework.Exn
import CloudI.Framework.Framing

/-!
# The messages that the Go API receives

`recv` with a header, as for tcp and local sockets. What the socket has yet to return is a list of fragments, one
for each read. `recv_messages_iff` says when successive calls return the messages of the stream: when no read
ends where the last one to four bytes of a message are missing.
-/

namespace CloudI.Api.Go

/-- What `recv` leaves: the bytes in the buffer, and the fragments that the socket has yet to return. -/
structure Socket where
  bufferRecv : List UInt8
  fragments : List (List UInt8)

/-- Why a call of `recv` does not return a message. -/
inductive NoMessage
  | waits
  | eof

/-- Read fragments until the buffer has `n` bytes. -/
def recvFragments (n : Nat) : List UInt8 → List (List UInt8) → Except NoMessage Socket
  | bufferRecv, [] => if bufferRecv.length < n then .error .waits else .ok ⟨bufferRecv, []⟩
  | bufferRecv, f :: fragments =>
    if bufferRecv.length < n then recvFragments n (bufferRecv ++ f) fragments else .ok ⟨bufferRecv, f :: fragments⟩

/-- `bytes.Buffer.Read` into a new slice of `n` bytes, which keeps its zeros where the buffer ends. -/
def bufferRead (n : Nat) (bufferRecv : List UInt8) : Except NoMessage (List UInt8) :=
  if bufferRecv = [] ∧ 0 < n then .error .eof
  else .ok (bufferRecv.take n ++ List.replicate (n - bufferRecv.length) 0)

def recv (s : Socket) : Except NoMessage (List UInt8 × Socket) := do
  let s ← recvFragments 4 s.bufferRecv s.fragments
  let total := ofBe (s.bufferRecv.take 4)
  let s ← recvFragments total s.bufferRecv s.fragments
  let bufferRecv := s.bufferRecv.drop 4
  let message ← bufferRead total bufferRecv
  return (message, ⟨bufferRecv.drop total, s.fragments⟩)

/-- Successive calls of `recv`. -/
def recvs : Nat → Socket → Except NoMessage (List (List UInt8) × Socket)
  | 0, s => .ok ([], s)
  | n + 1, s => do
    let (message, s) ← recv s
    let (messages, s) ← recvs n s
    return (message :: messages, s)

/-- What is left of the stream. -/
def Socket.rest (s : Socket) : List UInt8 := s.bufferRecv ++ s.fragments.flatten

def Socket.bounds (s : Socket) : List Nat := CloudI.bounds s.bufferRecv.length s.fragments

/-- No read ends where the last one to four bytes of a message are missing; the first message starts at `start`. -/
def Whole : Nat → List (List UInt8) → List Nat → Prop
  | _, [], _ => True
  | start, m :: ms, bs =>
    (∀ b ∈ bs, ¬ (start + m.length ≤ b ∧ b < start + m.length + 4)) ∧ Whole (start + m.length + 4) ms bs

/-! ## Reading fragments -/

variable {n : Nat} {bufferRecv : List UInt8} {fragments : List (List UInt8)} {s : Socket}

theorem recvFragments_enough (h : n ≤ bufferRecv.length) :
    recvFragments n bufferRecv fragments = .ok ⟨bufferRecv, fragments⟩ := by
  cases fragments <;> rw [recvFragments, if_neg (by omega)]

/-- The reads stop at the first bound that is enough. -/
theorem recvFragments_spec (h : n ≤ (bufferRecv ++ fragments.flatten).length) :
    ∃ s, recvFragments n bufferRecv fragments = .ok s ∧ s.rest = bufferRecv ++ fragments.flatten ∧
      n ≤ s.bufferRecv.length ∧ (∀ b ∈ s.bounds, b ∈ bounds bufferRecv.length fragments) ∧
      ∀ b ∈ bounds bufferRecv.length fragments, b ∈ s.bounds ∨ b < n := by
  induction fragments generalizing bufferRecv with
  | nil =>
    rw [List.flatten_nil, List.append_nil] at h
    exact ⟨_, recvFragments_enough h, rfl, h, fun b hb => hb, fun b hb => .inl hb⟩
  | cons f fragments ih =>
    by_cases hn : bufferRecv.length < n
    · have hflat : bufferRecv ++ (f :: fragments).flatten = bufferRecv ++ f ++ fragments.flatten := by
        rw [List.flatten_cons, List.append_assoc]
      obtain ⟨s, hs, hrest, hlen, hsub, hb⟩ := ih (hflat ▸ h)
      rw [List.length_append] at hsub hb
      refine ⟨s, ?_, hflat ▸ hrest, hlen, fun b hb' => List.mem_cons_of_mem _ (hsub b hb'), fun b hb' => ?_⟩
      · rw [recvFragments, if_pos hn]
        exact hs
      · rcases List.mem_cons.mp hb' with rfl | hb'
        · exact .inr hn
        · exact hb b hb'
    · have hle := Nat.le_of_not_lt hn
      exact ⟨_, recvFragments_enough hle, rfl, hle, fun b hb => hb, fun b hb => .inl hb⟩

/-- What is in the buffer when `recv` takes the header off, of the stream of a message `m` and what follows. -/
theorem recv_reads {m rest : List UInt8} (hm : m.length < 256 ^ 4) (h4 : 4 ≤ m.length) (h : s.rest = frame m ++ rest) :
    ∃ t : Socket, t.rest = s.rest ∧ m.length ≤ t.bufferRecv.length ∧ (∀ b ∈ t.bounds, b ∈ s.bounds) ∧
      (∀ b ∈ s.bounds, b ∈ t.bounds ∨ b < m.length) ∧
      recv s = (bufferRead m.length (t.bufferRecv.drop 4)).map fun message =>
        (message, ⟨(t.bufferRecv.drop 4).drop m.length, t.fragments⟩) := by
  have hlen : s.rest.length = 4 + m.length + rest.length := by rw [h, List.length_append, length_frame]
  obtain ⟨u, hu, hurest, hulen, husub, hub⟩ :=
    @recvFragments_spec 4 s.bufferRecv s.fragments (by rw [← Socket.rest]; omega)
  rw [← Socket.rest] at hurest
  have hheader : u.bufferRecv.take 4 = be 4 m.length := by
    rw [← take_frame m rest, ← h, ← hurest, Socket.rest, List.take_append_of_le_length hulen]
  obtain ⟨t, ht, htrest, htlen, htsub, htb⟩ :=
    @recvFragments_spec m.length u.bufferRecv u.fragments (by rw [← Socket.rest, hurest]; omega)
  refine ⟨t, htrest.trans hurest, htlen, fun b hb => husub b (htsub b hb), fun b hb => ?_, ?_⟩
  · rcases hub b hb with hb | hb
    · exact htb b hb
    · exact .inr (by omega)
  · unfold recv
    simp only [bind, Except.bind, hu, hheader, ofBe_be_of_lt hm, ht]
    cases bufferRead m.length (t.bufferRecv.drop 4) <;> rfl

theorem Socket.rest_drop {t : Socket} (k : Nat) (hk : k ≤ t.bufferRecv.length) :
    (⟨t.bufferRecv.drop k, t.fragments⟩ : Socket).rest = t.rest.drop k := by
  rw [Socket.rest, Socket.rest, List.drop_append_of_le_length hk]

/-- A call returns the next message when no read ends where up to four of its bytes are missing. -/
theorem recv_message {m rest : List UInt8} (hm : m.length < 256 ^ 4) (h4 : 4 ≤ m.length) (h : s.rest = frame m ++ rest)
    (hb : ∀ b ∈ s.bounds, ¬ (m.length ≤ b ∧ b < m.length + 4)) :
    ∃ s', recv s = .ok (m, s') ∧ s'.rest = rest ∧ (∀ b ∈ s'.bounds, b + (m.length + 4) ∈ s.bounds) ∧
      ∀ b ∈ s.bounds, b < m.length + 4 ∨ ∃ b' ∈ s'.bounds, b = b' + (m.length + 4) := by
  obtain ⟨t, htrest, htlen, htsub, htb, hrecv⟩ := recv_reads hm h4 h
  have hself := hb _ (htsub _ (self_mem_bounds _ _))
  have hlen : m.length + 4 ≤ t.bufferRecv.length := by omega
  have hdrop : (t.bufferRecv.drop 4).drop m.length = t.bufferRecv.drop (m.length + 4) := by
    rw [List.drop_drop, Nat.add_comm]
  have hbounds : t.bounds = bounds ((t.bufferRecv.drop (m.length + 4)).length + (m.length + 4)) t.fragments := by
    rw [Socket.bounds, List.length_drop, Nat.sub_add_cancel hlen]
  have hread : bufferRead m.length (t.bufferRecv.drop 4) = .ok m := by
    have hne : ¬ (t.bufferRecv.drop 4 = [] ∧ 0 < m.length) := by
      intro hnil
      have hnlen := congrArg List.length hnil.1
      rw [List.length_drop, List.length_nil] at hnlen
      omega
    have htake : (t.bufferRecv.drop 4).take m.length = m := by
      have happ : (t.bufferRecv.drop 4).take m.length = (t.bufferRecv.drop 4 ++ t.fragments.flatten).take m.length :=
        (List.take_append_of_le_length (by rw [List.length_drop]; omega)).symm
      rw [happ, ← List.drop_append_of_le_length (by omega), ← Socket.rest, htrest, h, drop_frame, List.take_left]
    rw [bufferRead, if_neg hne, htake, List.length_drop, Nat.sub_eq_zero_of_le (by omega), List.replicate_zero,
      List.append_nil]
  refine ⟨⟨t.bufferRecv.drop (m.length + 4), t.fragments⟩, ?_, ?_, fun b hb' => ?_, fun b hb' => ?_⟩
  · rw [hrecv, hread, hdrop]
    rfl
  · rw [Socket.rest_drop _ hlen, htrest, h, List.drop_left' (by rw [length_frame, Nat.add_comm])]
  · exact htsub _ (hbounds ▸ mem_bounds_add.mpr hb')
  · rcases htb b hb' with hb' | hb'
    · have hle := le_of_mem_bounds hb'
      refine .inr ⟨b - (m.length + 4), ?_, by omega⟩
      rw [hbounds, show b = b - (m.length + 4) + (m.length + 4) by omega] at hb'
      exact mem_bounds_add.mp hb'
    · exact .inl (by omega)

/-- A call that takes the header off too early returns zeros for the bytes that are missing, if it returns, and leaves
these bytes in the stream. -/
theorem recv_early {m rest : List UInt8} (hm : m.length < 256 ^ 4) (h4 : 4 ≤ m.length) (h : s.rest = frame m ++ rest)
    {b : Nat} (hb : b ∈ s.bounds) (hlo : m.length ≤ b) (hhi : b < m.length + 4) {r : List UInt8} {s' : Socket}
    (hr : recv s = .ok (r, s')) :
    ∃ d, 0 < d ∧ d ≤ 4 ∧ r = m.take (m.length - d) ++ List.replicate d 0 ∧ s'.rest = m.drop (m.length - d) ++ rest := by
  obtain ⟨t, htrest, htlen, htsub, htb, hrecv⟩ := recv_reads hm h4 h
  have hle : t.bufferRecv.length ≤ b := by
    rcases htb b hb with hb | hb
    · exact le_of_mem_bounds hb
    · omega
  have hdroplen : (t.bufferRecv.drop 4).length = t.bufferRecv.length - 4 := List.length_drop
  have hbuffer : t.bufferRecv.drop 4 = m.take (t.bufferRecv.length - 4) := by
    have happ := congrArg (List.take (t.bufferRecv.length - 4) ∘ List.drop 4) (htrest.trans h)
    rw [Function.comp_apply, Function.comp_apply, drop_frame, Socket.rest, List.drop_append_of_le_length (by omega),
      List.take_left' hdroplen, List.take_append_of_le_length (by omega)] at happ
    exact happ
  have hfragments : t.fragments.flatten = m.drop (t.bufferRecv.length - 4) ++ rest := by
    have happ := congrArg (List.drop (t.bufferRecv.length - 4) ∘ List.drop 4) (htrest.trans h)
    rw [Function.comp_apply, Function.comp_apply, drop_frame, Socket.rest, List.drop_append_of_le_length (by omega),
      List.drop_left' hdroplen, List.drop_append_of_le_length (by omega)] at happ
    exact happ
  refine ⟨m.length - (t.bufferRecv.length - 4), by omega, by omega, ?_⟩
  rw [show m.length - (m.length - (t.bufferRecv.length - 4)) = t.bufferRecv.length - 4 by omega]
  rw [hrecv, bufferRead] at hr
  split at hr
  · simp only [Except.map, reduceCtorEq] at hr
  · obtain ⟨hr, hs⟩ := Prod.mk.inj (Except.ok.inj hr)
    have hnil : (t.bufferRecv.drop 4).drop m.length = [] := List.drop_of_length_le (by omega)
    rw [List.take_of_length_le (by omega), hdroplen, hbuffer] at hr
    rw [← hr, ← hs, Socket.rest, hnil, List.nil_append]
    exact ⟨rfl, hfragments⟩

theorem length_bufferRead {message : List UInt8} (h : bufferRead n bufferRecv = .ok message) : message.length = n := by
  unfold bufferRead at h
  split at h
  · simp only [reduceCtorEq] at h
  · rw [← Except.ok.inj h, List.length_append, List.length_take, List.length_replicate]
    omega

/-- What a call returns has the length that the stream has first. -/
theorem recv_length {r : List UInt8} {s' : Socket} (h4 : 4 ≤ s.rest.length) (hr : recv s = .ok (r, s')) :
    r.length = ofBe (s.rest.take 4) := by
  obtain ⟨u, hu, hurest, hulen, -, -⟩ := @recvFragments_spec 4 s.bufferRecv s.fragments h4
  have hheader : u.bufferRecv.take 4 = s.rest.take 4 := by
    rw [← show u.rest = s.rest from hurest, Socket.rest, List.take_append_of_le_length hulen]
  obtain ⟨u', hu', hr⟩ := bind_eq_ok hr
  rw [hu] at hu'
  obtain rfl := Except.ok.inj hu'
  obtain ⟨t, -, hr⟩ := bind_eq_ok hr
  obtain ⟨message, hmessage, hr⟩ := bind_eq_ok hr
  rw [← (Prod.mk.inj (Except.ok.inj hr)).1, length_bufferRead hmessage, hheader]

/-- The length that a stream has first, after up to four zeros, is not the length of the message. -/
theorem ofBe_zeros_frame {m rest : List UInt8} {d : Nat} (hd : 0 < d) (hd4 : d ≤ 4) (hm : 0 < m.length) :
    ofBe ((List.replicate d 0 ++ (frame m ++ rest)).take 4) < m.length := by
  have htake : (List.replicate d (0 : UInt8) ++ (frame m ++ rest)).take 4 =
      List.replicate d 0 ++ be (4 - d) (m.length / 256 ^ d) := by
    have hprefix : (frame m ++ rest).take (4 - d) = be (4 - d) (m.length / 256 ^ d) := by
      rw [frame_append, List.take_append_of_le_length (by rw [length_be]; omega), ← take_be (4 - d) d,
        Nat.sub_add_cancel hd4]
    rw [List.take_append, List.take_of_length_le (by rw [List.length_replicate]; exact hd4), List.length_replicate,
      hprefix]
  have hpow : 1 < 256 ^ d := Nat.one_lt_pow (by omega) (by decide)
  rw [htake, ofBe_zeros, ofBe_be]
  exact Nat.lt_of_le_of_lt (Nat.mod_le _ _) (Nat.div_lt_self hm hpow)

/-! ## The messages of the stream -/

theorem whole_shift {k : Nat} {bs bs' : List Nat} (hsub : ∀ b ∈ bs', b + k ∈ bs)
    (hb : ∀ b ∈ bs, b < k ∨ ∃ b' ∈ bs', b = b' + k) (start : Nat) (ms : List (List UInt8)) :
    Whole (start + k) ms bs ↔ Whole start ms bs' := by
  induction ms generalizing start with
  | nil => exact Iff.rfl
  | cons m ms ih =>
    rw [Whole, Whole, show start + k + m.length + 4 = start + m.length + 4 + k by omega, ih]
    refine and_congr_left fun _ => ⟨fun h b hb' => ?_, fun h b hb' => ?_⟩
    · have hnot := h _ (hsub b hb')
      omega
    · rcases hb b hb' with hlt | ⟨c, hc, rfl⟩
      · omega
      · have hnot := h c hc
        omega

/-- Successive calls of `recv` return exactly the messages, and leave nothing, if and only if no read ends where the
last one to four bytes of a message are missing. -/
theorem recv_messages_iff {messages : List (List UInt8)} (hlen : ∀ m ∈ messages, 4 ≤ m.length ∧ m.length < 256 ^ 4)
    (h : s.rest = framed messages) :
    (∃ s', recvs messages.length s = .ok (messages, s') ∧ s'.rest = []) ↔ Whole 0 messages s.bounds := by
  induction messages generalizing s with
  | nil => exact ⟨fun _ => trivial, fun _ => ⟨s, rfl, h⟩⟩
  | cons m ms ih =>
    obtain ⟨h4, hm⟩ := hlen m List.mem_cons_self
    have hlens : ∀ m ∈ ms, 4 ≤ m.length ∧ m.length < 256 ^ 4 := fun m hm => hlen m (List.mem_cons_of_mem _ hm)
    rw [framed] at h
    rw [Whole, Nat.zero_add]
    by_cases hb : ∀ b ∈ s.bounds, ¬ (m.length ≤ b ∧ b < m.length + 4)
    · obtain ⟨s₁, hs₁, hrest, hsub, hbounds⟩ := recv_message hm h4 h hb
      have hshift := whole_shift hsub hbounds 0 ms
      rw [Nat.zero_add] at hshift
      rw [hshift, ← ih hlens hrest]
      simp only [List.length_cons, recvs, bind, Except.bind, hs₁]
      constructor
      · rintro ⟨s', hs', hnil⟩
        refine ⟨hb, s', ?_, hnil⟩
        cases hrs : recvs ms.length s₁ with
        | error e =>
          rw [hrs] at hs'
          simp only [reduceCtorEq] at hs'
        | ok result =>
          rw [hrs] at hs'
          obtain ⟨hms, hs'⟩ := Prod.mk.inj (Except.ok.inj hs')
          rw [← (List.cons.inj hms).2, ← hs']
      · rintro ⟨-, s', hs', hnil⟩
        refine ⟨s', ?_, hnil⟩
        rw [hs']
        rfl
    · refine ⟨fun hreceived => ?_, fun hw => absurd hw.1 hb⟩
      obtain ⟨s', hs', hnil⟩ := hreceived
      exfalso
      simp only [not_forall, not_not] at hb
      obtain ⟨b, hb, hlo, hhi⟩ := hb
      obtain ⟨⟨r, s₁⟩, hr, hs'⟩ := bind_eq_ok hs'
      obtain ⟨⟨rs, s₂⟩, hrs, hs'⟩ := bind_eq_ok hs'
      obtain ⟨hms, rfl⟩ := Prod.mk.inj (Except.ok.inj hs')
      obtain ⟨rfl, rfl⟩ := List.cons.inj hms
      obtain ⟨d, hd, hd4, hzeros, hrest⟩ := recv_early hm h4 h hb hlo hhi hr
      have hdrop : r.drop (r.length - d) = List.replicate d 0 := by
        have htake : (r.take (r.length - d)).length = r.length - d := by
          rw [List.length_take]
          omega
        conv_lhs => rw [hzeros, List.length_append, List.length_replicate, htake, Nat.sub_add_cancel (by omega)]
        exact List.drop_left' htake
      rw [hdrop] at hrest
      cases rs with
      | nil =>
        obtain ⟨-, rfl⟩ := Prod.mk.inj (Except.ok.inj hrs)
        have hzero := congrArg List.length (hrest.symm.trans hnil)
        rw [List.length_append, List.length_replicate, List.length_nil] at hzero
        omega
      | cons m' ms' =>
        obtain ⟨⟨r', s₃⟩, hr', hrs⟩ := bind_eq_ok hrs
        obtain ⟨⟨rs', s₄⟩, -, hrs⟩ := bind_eq_ok hrs
        obtain ⟨hms', -⟩ := Prod.mk.inj (Except.ok.inj hrs)
        obtain ⟨rfl, -⟩ := List.cons.inj hms'
        have hlength := recv_length (by rw [hrest, framed]; simp only [List.length_append, length_frame]; omega) hr'
        have hlt := @ofBe_zeros_frame r' (framed ms') d hd hd4
          (Nat.lt_of_lt_of_le (by decide) (hlens r' List.mem_cons_self).1)
        rw [hrest, framed] at hlength
        omega

/-- Two messages, split within the header of the first one and within that of the second. -/
theorem recv_messages_two :
    ∃ s', recvs 2 ⟨[], [[0, 0, 0], [5, 1, 2, 3, 4, 5, 0, 0], [0, 4, 6, 7, 8, 9]]⟩ =
      .ok ([[1, 2, 3, 4, 5], [6, 7, 8, 9]], s') ∧ s'.rest = [] := by
  have hlen : ∀ m ∈ [[1, 2, 3, 4, 5], [6, 7, 8, 9]], 4 ≤ (m : List UInt8).length ∧ m.length < 256 ^ 4 := by decide
  exact (recv_messages_iff hlen rfl).mpr (by simp only [Whole, Socket.bounds, bounds]; decide)

set_option maxRecDepth 4096 in
/-- A read that ends with one byte of the message missing: a zero comes in its place. -/
theorem recv_zero_filled :
    ¬ ∃ s', recvs 1 ⟨[], [[0, 0, 0, 5, 1, 2, 3, 4], [5]]⟩ = .ok ([[1, 2, 3, 4, 5]], s') ∧ s'.rest = [] := by
  have hrecv : recvs 1 ⟨[], [[0, 0, 0, 5, 1, 2, 3, 4], [5]]⟩ = .ok ([[1, 2, 3, 4, 0]], ⟨[], [[5]]⟩) := rfl
  rintro ⟨s', hs', -⟩
  rw [hrecv] at hs'
  exact absurd (Prod.mk.inj (Except.ok.inj hs')).1 (by decide)

end CloudI.Api.Go
