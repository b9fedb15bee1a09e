import CloudI.Api.Go.Exchange
import CloudI.Api.OCaml.Exchange
import CloudI.Api.Python.Exchange
import CloudI.Api.Ruby.Exchange

/-!
# Data between services in different languages

The codecs of Go, OCaml, Python and Ruby are written one by one, and a service in one language never sees the values
of another one: only bytes go from one to the next. `data_exchanged` is that data arrives as the term that it was
sent for, between every two of the languages, `data_relayed` that it stays that term on every way through services
that hand it on, and `data_unambiguous` that no bytes are written for two terms.
-/

namespace CloudI.Api

open Format

/-- The languages of the services; Python in both of its versions. -/
inductive Language
  | go | ocaml | python2 | python3 | ruby
  deriving DecidableEq

/-- What the codecs call of the libraries of their languages. -/
structure Libraries where
  go : Go.Library
  ocaml : OCaml.FloatOfString
  python : Python.Erlang.Library
  ruby : Ruby.Library

/-- The codec of a language. -/
def Libraries.codec (libs : Libraries) : Language → Codec
  | .go => Go.codec libs.go
  | .ocaml => OCaml.codec libs.ocaml
  | .python2 => Python.Erlang.codec false libs.python
  | .python3 => Python.Erlang.codec true libs.python
  | .ruby => Ruby.codec libs.ruby

/-- Libraries that take every name and no text of a float. -/
def plainLibraries : Libraries :=
  ⟨Go.noLibrary, fun _ => none, ⟨fun _ => true, fun _ => none, fun _ => none, fun _ _ => false, fun _ _ => .ok false⟩,
    ⟨fun _ => true, fun _ => 0, fun _ => none, fun _ _ => false⟩⟩

variable (libs : Libraries)

/-- What a service in one language encodes of data, a service in another one decodes as the same data. -/
theorem data_exchanged (a b : Language) {v : (libs.codec a).Value} {data : List UInt8}
    (hs : (libs.codec a).Sends v) (hw : (libs.codec a).Writes v data)
    (hd : Data (libs.codec b).utf8 ((libs.codec a).denote v)) :
    ∃ w, (libs.codec b).Reads data w ∧ Same ((libs.codec b).denote w) ((libs.codec a).denote v) := by
  obtain ⟨w, hr, hsame, -⟩ := (libs.codec a).exchange (libs.codec b) hs hw hd
  exact ⟨w, hr, hsame⟩

/-- `[300, "hi", :ok]` of Ruby in Python 3. -/
theorem data_exchanged_ruby :
    ∃ w, (plainLibraries.codec .python3).Reads
        [131, 104, 3, 98, 0, 0, 1, 44, 107, 0, 2, 104, 105, 115, 2, 111, 107] w ∧
      Same ((plainLibraries.codec .python3).denote w)
        (.tuple [.int 300, .cons (.int 104) (.cons (.int 105) .nil), .atom [111, 107]]) := by
  refine data_exchanged plainLibraries .ruby .python3
    (v := .array [.integer 300, .string [104, 105], .symbol (.latin1 [111, 107])]) ?_ rfl ?_
  · exact ⟨trivial, show 2 ≤ 65535 by decide, trivial, trivial⟩
  · refine .tuple fun t ht => ?_
    rcases List.mem_cons.mp ht with rfl | ht
    · exact .int 300
    rcases List.mem_cons.mp ht with rfl | ht
    · exact .cons (.int 104) (.cons (.int 105) .nil)
    · obtain rfl := List.mem_singleton.mp ht
      exact .atom _

theorem data_pair {names : List UInt8 → Prop} (m n : Int) : Data names (.tuple [.int m, .int n]) :=
  .tuple fun t ht => by
    rcases List.mem_pair.mp ht with rfl | rfl
    exacts [.int m, .int n]

/-- A value that a service in some language holds. -/
abbrev Libraries.Held := (a : Language) × (libs.codec a).Value

/-- A service sends its value to one that decodes some names of atoms in UTF-8. -/
def Libraries.Sent (names : List UInt8 → Prop) (x y : libs.Held) : Prop :=
  (∀ name, names name → (libs.codec y.1).utf8 name) ∧
    ∃ data, (libs.codec x.1).Writes x.2 data ∧ (libs.codec y.1).Reads data y.2

/-- Data is the same behind any number of services that each decode what the one before them encoded. -/
theorem data_relayed {names : List UInt8 → Prop} {x y : libs.Held}
    (h : Relation.ReflTransGen (libs.Sent names) x y) (hs : (libs.codec x.1).Sends x.2)
    (hd : Data names ((libs.codec x.1).denote x.2)) :
    Same ((libs.codec y.1).denote y.2) ((libs.codec x.1).denote x.2) := by
  have hrun := h.lift (r := libs.Sent names) (p := Codec.Sent names) (fun z => ⟨libs.codec z.1, z.2⟩) fun _ _ h => h
  exact (Codec.relay hrun hs hd).1

/-- `{5, 7}` on its way from Go through Python 2 to OCaml. -/
theorem data_relayed_small :
    Same ((plainLibraries.codec .ocaml).denote (.otpErlangTuple [.otpErlangInteger 5, .otpErlangInteger 7]))
      ((plainLibraries.codec .go).denote (.otpErlangTuple [.uint8 5, .uint8 7])) := by
  refine @data_relayed plainLibraries (fun _ => False) ⟨.go, .otpErlangTuple [.uint8 5, .uint8 7]⟩
    ⟨.ocaml, .otpErlangTuple [.otpErlangInteger 5, .otpErlangInteger 7]⟩
    (.tail (.single (b := ⟨.python2, .tuple [.int 5, .int 7]⟩) ?_) ?_) trivial (data_pair 5 7)
  · refine ⟨fun name hname => hname.elim, [131, 104, 2, 97, 5, 97, 7], rfl, fun depth hd => ?_⟩
    exact Python.Erlang.binaryToTerm_coded (Python.Erlang.tuple_coded (.cons (Python.Erlang.smallInteger_coded 5)
      (.cons (Python.Erlang.smallInteger_coded 7) .nil)) rfl) (Nat.le_of_succ_le hd)
  · refine ⟨fun name hname => hname.elim, [131, 104, 2, 97, 5, 97, 7], rfl, fun depth hd => ?_⟩
    exact OCaml.binaryToTerm_coded (OCaml.tuple_coded (.cons (OCaml.smallInteger_coded 5)
      (.cons (OCaml.smallInteger_coded 7) .nil)) rfl) (Nat.le_of_succ_le hd)

/-- No bytes stand for two terms, whichever languages they come from. -/
theorem data_unambiguous (a b : Language) {v : (libs.codec a).Value} {w : (libs.codec b).Value} {data : List UInt8}
    (hv : (libs.codec a).Sends v) (hw : (libs.codec b).Sends w) (hev : (libs.codec a).Writes v data)
    (hew : (libs.codec b).Writes w data) (hdv : Data (fun _ => True) ((libs.codec a).denote v))
    (hdw : Data (fun _ => True) ((libs.codec b).denote w)) :
    Same ((libs.codec a).denote v) ((libs.codec b).denote w) := by
  -- the Go decoder reads all of the format, and makes one value of the bytes
  obtain ⟨u, hu, husame, -⟩ := (libs.codec a).exchange (libs.codec .go) hv hev hdv
  obtain ⟨u', hu', husame', -⟩ := (libs.codec b).exchange (libs.codec .go) hw hew hdw
  obtain rfl := (libs.codec .go).unique hu hu'
  exact husame.symm.trans husame'

/-- `{5, 7}` of Go and of OCaml. -/
theorem data_unambiguous_small :
    Same ((plainLibraries.codec .go).denote (.otpErlangTuple [.uint8 5, .uint8 7]))
      ((plainLibraries.codec .ocaml).denote (.otpErlangTuple [.otpErlangInteger 5, .otpErlangInteger 7])) :=
  data_unambiguous plainLibraries .go .ocaml trivial trivial rfl rfl (data_pair 5 7) (data_pair 5 7)

end CloudI.Api
