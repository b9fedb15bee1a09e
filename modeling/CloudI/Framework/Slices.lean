import CloudI.Framework.Calls
import Mathlib.Data.List.Basic
import Mathlib.Data.List.Forall2

/-!
# Reading by index

Decoders that are given data and an index and return the index behind what
they read. `At` says what the data has from an index on, and `Reads` that a
decoder reads some bytes as a value, wherever they stand. A decoder that calls
itself goes from an index in data to the index behind what it read (`next`). An
encoder `Writes` a list one element after another.
-/

namespace CloudI.Slices

/-- From index `i`, in the data or at its end, the data goes on with some bytes. -/
structure At (data : List UInt8) (i : Nat) (bytes : List UInt8) : Prop where
  le : i ≤ data.length
  drop : data.drop i = bytes

section At

variable {data l m : List UInt8} {i : Nat}

theorem At.start (data : List UInt8) : At data 0 data := ⟨Nat.zero_le _, rfl⟩

theorem At.length (h : At data i l) : data.length = i + l.length := by
  have hlen := congrArg List.length h.drop
  rw [List.length_drop] at hlen
  have := h.le
  omega

theorem At.append (h : At data i (l ++ m)) : At data (i + l.length) m := by
  refine ⟨?_, ?_⟩
  · rw [h.length, List.length_append]
    omega
  · rw [← List.drop_drop, h.drop, List.drop_left]

theorem At.next {j : Nat} (h : At data i (l ++ m)) (hj : j = i + l.length) : At data j m := hj ▸ h.append

theorem At.tail {b : UInt8} (h : At data i (b :: m)) : At data (i + 1) m := At.append (l := [b]) h

theorem At.take (h : At data i (l ++ m)) : (data.drop i).take l.length = l := by
  rw [h.drop, List.take_left]

/-- A number of bytes from an index on, or those that there are. -/
def slice (i n : Nat) (data : List UInt8) : List UInt8 := (data.drop i).take n

theorem slice_at (h : At data i (l ++ m)) : slice i l.length data = l := h.take

theorem slice_at_of_length {n : Nat} (h : At data i (l ++ m)) (hl : l.length = n) : slice i n data = l :=
  hl ▸ slice_at h

theorem At.getElem? {b : UInt8} (h : At data i (b :: m)) : data[i]? = some b := by
  rw [← List.head?_drop, h.drop]
  rfl

end At

/-- A decoder reads bytes as a value, wherever they stand. -/
def Reads {F α : Type} (f : Nat → List UInt8 → Except F (Nat × α)) (e : List UInt8) (w : α) : Prop :=
  ∀ ⦃data : List UInt8⦄ ⦃i : Nat⦄ ⦃bytes : List UInt8⦄, At data i (e ++ bytes) → f i data = .ok (i + e.length, w)

/-! ## Encoders of one value after another -/

/-- What is written for a list is what is written for its elements. -/
structure Writes {F α : Type} (f : α → Except F (List UInt8)) (g : List α → Except F (List UInt8)) : Prop where
  nil : g [] = .ok []
  cons (a : α) (l : List α) : g (a :: l) = f a >>= fun e => g l >>= fun es => .ok (e ++ es)

namespace Writes

variable {F α β γ : Type} {f : α → Except F (List UInt8)} {g : List α → Except F (List UInt8)}

/-- Where each element is read as a value that stands for it, so is the list. -/
theorem read (hw : Writes f g) {P : List UInt8 → β → Prop} {d : β → γ} {c : α → γ} {l : List α}
    (h : ∀ a ∈ l, ∀ e, f a = .ok e → ∃ b, P e b ∧ d b = c a) {e : List UInt8} (he : g l = .ok e) :
    ∃ es bs, e = es.flatten ∧ List.Forall₂ P es bs ∧ bs.map d = l.map c := by
  induction l generalizing e with
  | nil =>
    rw [hw.nil] at he
    exact ⟨[], [], (Except.ok.inj he).symm, .nil, rfl⟩
  | cons a l ih =>
    rw [hw.cons] at he
    obtain ⟨e₁, he₁, he⟩ := bind_eq_ok he
    obtain ⟨e₂, he₂, he⟩ := bind_eq_ok he
    obtain ⟨b, hb, hden⟩ := h a List.mem_cons_self e₁ he₁
    obtain ⟨es, bs, rfl, hbs, hdens⟩ := ih (fun u hu => h u (List.mem_cons_of_mem a hu)) he₂
    refine ⟨e₁ :: es, b :: bs, (Except.ok.inj he).symm, .cons hb hbs, ?_⟩
    rw [List.map_cons, List.map_cons, hden, hdens]

theorem concat (hw : Writes f g) {l : List α} {a : α} {e : List UInt8} (he : g (l ++ [a]) = .ok e) :
    ∃ e₁ e₂, e = e₁ ++ e₂ ∧ g l = .ok e₁ ∧ f a = .ok e₂ := by
  induction l generalizing e with
  | nil =>
    rw [List.nil_append, hw.cons] at he
    obtain ⟨e₁, he₁, he⟩ := bind_eq_ok he
    rw [hw.nil] at he
    exact ⟨[], e₁, (Except.ok.inj he).symm.trans (List.append_nil e₁), hw.nil, he₁⟩
  | cons b l ih =>
    rw [List.cons_append, hw.cons] at he
    obtain ⟨e₁, he₁, he⟩ := bind_eq_ok he
    obtain ⟨e₂, he₂, he⟩ := bind_eq_ok he
    obtain ⟨e₃, e₄, rfl, hl, ha⟩ := ih he₂
    refine ⟨e₁ ++ e₃, e₄, ?_, ?_, ha⟩
    · rw [← Except.ok.inj he, List.append_assoc]
    · rw [hw.cons, bind_ok he₁, bind_ok hl]

end Writes

/-! ## Decoders that call themselves -/

/-- An index in data. -/
abbrev Place := Nat × List UInt8

/-- The index behind what was read. -/
def next {α : Type} (p : Place) (r : Nat × α) : Place := (r.1, p.2)

section Sequence

open Calling

variable {F α : Type} {f : Place → Except F (Nat × α)} {n : Nat} {p p' q : Place} {rs : List (Nat × α)} {r : Nat × α}

theorem sequence_calls_same (hq : (sequence next n p).Calls f q) : q.2 = p.2 := by
  refine sequence_calls (I := fun q : Place => q.2 = p.2) (fun _ _ hI _ => ?_) rfl hq
  exact hI

theorem sequence_le (hle : ∀ p r, f p = .ok r → p.1 ≤ r.1) (h : (sequence next n p).run f = .ok (p', rs)) :
    p.1 ≤ p'.1 := by
  refine sequence_keeps (I := fun p' : Place => p.1 ≤ p'.1) (fun p' r hI hf => ?_) (Nat.le_refl _) h
  exact Nat.le_trans hI (hle p' r hf)

/-- What a call of a sequence reads ends before the sequence does. -/
theorem sequence_calls_end (hle : ∀ p r, f p = .ok r → p.1 ≤ r.1) (h : (sequence next n p).run f = .ok (p', rs))
    (hq : (sequence next n p).Calls f q) (hr : f q = .ok r) : r.1 ≤ p'.1 :=
  sequence_calls_le (P := Place) (R := Nat × α) hle h hq hr

variable {β γ : Type} {y : Except F β} {start count : β → Nat} {data : List UInt8} {j : Nat}
  {k : Place × List (Nat × α) → Calling F Place (Nat × α) γ} {w : γ}

/-- A number of elements, and what stands behind them: all that is called is in the data and ends before the end. -/
theorem counted_read (hle : ∀ p r, f p = .ok r → p.1 ≤ r.1)
    (h : (done y >>= fun b => sequence next (count b) (start b, data) >>= k).run f = .ok w)
    (hk : ∀ z, (k z).run f = .ok w →
      z.1.1 ≤ j ∧ ∀ q, (k z).Calls f q → q.2 = data ∧ ∀ r, f q = .ok r → r.1 ≤ j) :
    (∃ b, y = .ok b ∧ start b ≤ j) ∧
      ∀ q, (done y >>= fun b => sequence next (count b) (start b, data) >>= k).Calls f q →
        q.2 = data ∧ ∀ r, f q = .ok r → r.1 ≤ j := by
  rw [run_bind] at h
  obtain ⟨b, hb, h⟩ := bind_eq_ok h
  rw [run_bind] at h
  obtain ⟨z, hz, h⟩ := bind_eq_ok h
  obtain ⟨hzj, hcalls⟩ := hk z h
  refine ⟨⟨b, hb, Nat.le_trans (sequence_le hle hz) hzj⟩, fun q hq => ?_⟩
  rcases (calls_bind _ _).mp hq with hq | ⟨b', hb', hq⟩
  · exact hq.elim
  · obtain rfl := Except.ok.inj (hb.symm.trans hb')
    rcases (calls_bind _ _).mp hq with hq | ⟨z', hz', hq⟩
    · exact ⟨sequence_calls_same hq, fun r hr => Nat.le_trans (sequence_calls_end hle hz hq hr) hzj⟩
    · obtain rfl := Except.ok.inj (hz.symm.trans hz')
      exact hcalls q hq

end Sequence

end CloudI.Slices
