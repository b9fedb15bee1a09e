import Mathlib.Data.Nat.ModEq
import CloudI.Framework.Dict
import CloudI.Framework.Run
import CloudI.Trie.PatternParse

/-!
# Routing of `cloudi_service_router`

A request is forwarded to the name that a template of its destination gives,
with the parameters that its name is parsed into. The destinations of the trie
are a finite map from patterns. `Forwarded` is what a forwarded name is meant
to be, and `routing` says that it is so in every run, and that a round robin
tries each of its names in turn, under the two conditions of `Request.Meets`: a
name without parameters is the template as it is, whether or not that has
wildcards, and the next index is stored only when the request is forwarded.
-/

namespace CloudI.Services.Router

open Trie Wildcard

abbrev Text := List Nat

/-! ## `cloudi_service_name` -/

inductive NameError
  | parametersNotAllowed
  | parametersIgnored
  | parameterMissing
  | parametersSelectedEmpty
  | parametersSelectedIgnored (ParametersSelected : List Nat)
  | parametersSelectedMissing (I : Nat)

def newStrip : Text → Text → Text
  | [], NameOut => NameOut.reverse
  | C :: PatternIn, NameOut => if C = star then newStrip PatternIn NameOut else newStrip PatternIn (C :: NameOut)

/-- `new_insert/4` -/
def newInsert (ParametersStrictMatching : Bool) : Text → Text → List Text → Except NameError Text
  | [], NameOut, [] => .ok NameOut.reverse
  | [], NameOut, _ :: _ => if ParametersStrictMatching then .error .parametersIgnored else .ok NameOut.reverse
  | C :: PatternIn, NameOut, Parameters =>
    if C = star then
      match Parameters with
      | [] => if ParametersStrictMatching then .error .parameterMissing else .ok (newStrip PatternIn NameOut)
      | Parameter :: Parameters =>
        newInsert ParametersStrictMatching PatternIn (Parameter.reverse ++ NameOut) Parameters
    else newInsert ParametersStrictMatching PatternIn (C :: NameOut) Parameters

/-- `lists:nth/2`, or `none` where it raises -/
def nth {α : Type} (I : Nat) (L : List α) : Option α := if I = 0 then none else L[I - 1]?

/-- `new_select/5` -/
def newSelect (ParametersStrictMatching : Bool) (Parameters : List Text) :
    Text → Text → List Nat → Except NameError Text
  | [], NameOut, ParametersSelected =>
    if ParametersStrictMatching ∧ ParametersSelected ≠ [] then .error (.parametersSelectedIgnored ParametersSelected)
    else .ok NameOut.reverse
  | C :: PatternIn, NameOut, ParametersSelected =>
    if C = star then
      match ParametersSelected with
      | [] => if ParametersStrictMatching then .error .parametersSelectedEmpty else .ok (newStrip PatternIn NameOut)
      | I :: ParametersSelected =>
        match nth I Parameters with
        | some Parameter =>
          newSelect ParametersStrictMatching Parameters PatternIn (Parameter.reverse ++ NameOut) ParametersSelected
        | none =>
          if ParametersStrictMatching then .error (.parametersSelectedMissing I) else .ok (newStrip PatternIn NameOut)
    else newSelect ParametersStrictMatching Parameters PatternIn (C :: NameOut) ParametersSelected

/-- `cloudi_service_name:new/4` -/
def new (Pattern : Text) (Parameters : List Text) (ParametersSelected : List Nat) (ParametersStrictMatching : Bool) :
    Except NameError Text :=
  if ParametersSelected = [] then newInsert ParametersStrictMatching Pattern [] Parameters
  else newSelect ParametersStrictMatching Parameters Pattern [] ParametersSelected

/-! ## Destinations -/

inductive Mode
  | random
  | roundRobin
deriving DecidableEq

structure Destination where
  mode : Mode := .roundRobin
  serviceNames : List Text := []
  index : Nat := 1
  parametersAllowed : Bool := true
  parametersStrictMatching : Bool := true
  parametersSelected : List Nat := []
  length : Nat := 1

/-- The options of a destination, with their defaults. -/
structure Options where
  mode : Mode := .roundRobin
  parametersAllowed : Bool := true
  parametersStrictMatching : Bool := true
  parametersSelected : List Nat := []
  serviceNames : List Text := []

/-- What follows a pattern in the configuration. -/
inductive Entry
  | name (L : Text)
  | options (L : Options)

/-- `is_pattern/2` -/
def isPattern : Text → Bool → Except Exn Bool
  | [], Result => .ok Result
  | C :: Pattern, Result =>
    if C = star then if Pattern.head? = some star then .error .exitBadarg else isPattern Pattern true
    else isPattern Pattern Result

/-- The destination of an entry, or the match that raises. -/
def destination (Prefix : Text) (AddPrefix : Bool) : Entry → Except Exn Destination
  | .name [] => .error .caseClause
  | .name L => .ok { serviceNames := [if AddPrefix then Prefix ++ L else L] }
  | .options L =>
    let Names1 := if AddPrefix then L.serviceNames.map (Prefix ++ ·) else L.serviceNames
    if ¬(L.parametersSelected = [] ∨ L.parametersAllowed) then .error .badmatch
    else if ¬∀ I ∈ L.parametersSelected, 0 < I then .error .badmatch
    else if ¬0 < L.serviceNames.length then .error .badmatch
    else do
      let patterns ← if L.parametersAllowed then .ok false else Names1.anyM (isPattern · false)
      if patterns then .error .badmatch
      else
        return { mode := L.mode, parametersAllowed := L.parametersAllowed,
                 parametersStrictMatching := L.parametersStrictMatching, parametersSelected := L.parametersSelected,
                 serviceNames := Names1, length := L.serviceNames.length }

/-- The destinations of `cloudi_service_init/4`. -/
def init (Prefix : Text) (AddPrefix : Bool) (DestinationsL : List (Text × Entry)) :
    Except Exn (Dict Text Destination) :=
  if DestinationsL = [] then .error .badmatch
  else
    DestinationsL.foldlM (fun D p => do
      let Destination ← destination Prefix AddPrefix p.2
      return D.store (Prefix ++ p.1) Destination) Dict.new

/-! ## Requests -/

/-- A request with valid contents. `draw` is the number that a random choice draws. -/
structure Request where
  name : Text
  pattern : Text
  draw : Nat

/-- Which of its names a destination tries, from 1. -/
def Destination.position (d : Destination) (draw : Nat) : Nat :=
  match d.serviceNames, d.mode with
  | [_], _ => 1
  | _, .roundRobin => d.index
  | _, .random => draw

def destinationPick (draw : Nat) (d : Destination) : Except Exn (Text × Destination) :=
  match d.serviceNames, d.mode with
  | [Name], _ => .ok (Name, d)
  | Names, .roundRobin =>
    let NewIndex := if d.index = d.length then 1 else d.index + 1
    match nth d.index Names with
    | some Name => .ok (Name, { d with index := NewIndex })
    | none => .error .functionClause
  | Names, .random =>
    match nth draw Names with
    | some Name => .ok (Name, { d with index := draw })
    | none => .error .functionClause

def nameParameters (Name : Text) (Parameters : List Text) (d : Destination) : Except NameError Text :=
  if Parameters = [] then .ok Name
  else if d.parametersAllowed = false then .error .parametersNotAllowed
  else new Name Parameters d.parametersSelected d.parametersStrictMatching

/-- The position that was tried, and the name that the request is forwarded to, if it is. -/
structure Reply where
  position : Nat
  forward : Option Text

/-- `cloudi_service_handle_request/11` -/
def handleRequest (r : Request) (Destinations : Dict Text Destination) : Except Exn (Reply × Dict Text Destination) :=
  match Destinations r.pattern with
  | none => .ok (⟨0, none⟩, Destinations)
  | some Destination => do
    let (NextName, NewDestination) ← destinationPick r.draw Destination
    match ← patternParse r.pattern r.name with
    | some (.parameters Parameters) =>
      match nameParameters NextName (Parameters.map Parameter.text) NewDestination with
      | .ok NewName =>
        return (⟨Destination.position r.draw, some NewName⟩, Destinations.store r.pattern NewDestination)
      | .error _ => return (⟨Destination.position r.draw, none⟩, Destinations)
    | _ => .error .functionClause

/-! ## What is meant -/

/-- The wildcards of a template replaced by the values from left to right, and the others left out. -/
def substitute : Text → List Text → Text
  | [], _ => []
  | C :: Pattern, W =>
    if C = star then W.headD [] ++ substitute Pattern W.tail else C :: substitute Pattern W

/-- The selected parameters, up to one that is missing. -/
def selected (Parameters : List Text) : List Nat → List Text
  | [] => []
  | I :: ParametersSelected =>
    match nth I Parameters with
    | some Parameter => Parameter :: selected Parameters ParametersSelected
    | none => []

/-- Wildcards and parameters, or selected parameters, correspond one to one. -/
def Corresponds (Pattern : Text) (Parameters : List Text) (ParametersSelected : List Nat) : Prop :=
  if ParametersSelected = [] then Pattern.count star = Parameters.length
  else Pattern.count star = ParametersSelected.length ∧ ∀ I ∈ ParametersSelected, (nth I Parameters).isSome

/-- The name of a template and parameters. -/
structure Forwarded (d : Destination) (Pattern : Text) (Parameters : List Text) (NewName : Text) : Prop where
  plain : star ∉ NewName
  filled : NewName = substitute Pattern
    (if d.parametersSelected = [] then Parameters else selected Parameters d.parametersSelected)
  strict : d.parametersStrictMatching → Corresponds Pattern Parameters d.parametersSelected

/-- The reply to a request of a destination: a forwarded name is the one of the template at the position. -/
def Routed (Destinations : Dict Text Destination) (r : Request) (reply : Reply) : Prop :=
  ∃ d Pattern W, Destinations r.pattern = some d ∧ nth reply.position d.serviceNames = some Pattern ∧
    patternParse r.pattern r.name = .ok (some (.parameters (W.map .string))) ∧
    ∀ NewName, reply.forward = some NewName → Forwarded d Pattern W NewName

/-- The positions that the requests of a pattern tried. -/
def tried (pattern : Text) (requests : List Request) (replies : List Reply) : List Nat :=
  ((requests.zip replies).filter fun p => p.1.pattern = pattern).map fun p => p.2.position

/-! ## The conditions -/

/-- A request whose name has no wildcard and matches its pattern, which has a destination. -/
def Request.Valid (r : Request) (Destinations : Dict Text Destination) : Prop :=
  star ∉ r.name ∧ NoDouble star r.pattern ∧ r.name ∈ language star r.pattern ∧
    ∃ d, Destinations r.pattern = some d ∧ 1 ≤ r.draw ∧ r.draw ≤ d.length

/-- The template fits the parameters. -/
def Fits (d : Destination) (Pattern : Text) (Parameters : List Text) : Prop :=
  Parameters = [] ∨ (d.parametersAllowed ∧
    (d.parametersStrictMatching → Corresponds Pattern Parameters d.parametersSelected))

/-- A pattern without wildcards has a template without them, and no strict selection. And in a round robin of several
names the next template fits. -/
def Request.Meets (r : Request) (Destinations : Dict Text Destination) : Prop :=
  ∀ d Pattern, Destinations r.pattern = some d → nth (d.position r.draw) d.serviceNames = some Pattern →
    (star ∉ r.pattern → star ∉ Pattern ∧ (d.parametersStrictMatching → d.parametersSelected = [])) ∧
    (d.mode = .roundRobin → 1 < d.length → ∀ W,
      patternParse r.pattern r.name = .ok (some (.parameters (W.map .string))) → Fits d Pattern W)

/-- Every request is valid, and meets the conditions in the state before it. -/
def AllMeet : List Request → Dict Text Destination → Prop
  | [], _ => True
  | r :: requests, Destinations => r.Valid Destinations ∧ r.Meets Destinations ∧
      ∀ reply Destinations', handleRequest r Destinations = .ok (reply, Destinations') → AllMeet requests Destinations'

/-! ## Names -/

variable {Pattern NameOut : Text} {Parameters W : List Text} {ParametersSelected : List Nat} {Strict : Bool}

theorem newStrip_eq : newStrip Pattern NameOut = NameOut.reverse ++ substitute Pattern [] := by
  induction Pattern generalizing NameOut with
  | nil => simp [newStrip, substitute]
  | cons C Pattern ih =>
    rw [newStrip, substitute]
    split_ifs
    · exact ih
    · rw [ih]
      simp

/-- A name is made of the parameters unless it is strict and the wildcards are not as many. -/
theorem newInsert_spec : (¬(Strict ∧ Pattern.count star ≠ Parameters.length) →
      newInsert Strict Pattern NameOut Parameters = .ok (NameOut.reverse ++ substitute Pattern Parameters)) ∧
    (Strict ∧ Pattern.count star ≠ Parameters.length →
      ∃ e, newInsert Strict Pattern NameOut Parameters = .error e) := by
  induction Pattern generalizing NameOut Parameters with
  | nil =>
    cases Parameters with
    | nil => exact ⟨fun _ => by simp [newInsert, substitute], fun h => absurd rfl h.2⟩
    | cons => cases Strict <;> simp [newInsert, substitute]
  | cons C Pattern ih =>
    by_cases hc : C = star
    · subst hc
      cases Parameters with
      | nil => cases Strict <;> simp [newInsert, substitute, newStrip_eq]
      | cons Parameter Parameters =>
        rw [newInsert, if_pos rfl, substitute, if_pos rfl, List.count_cons_self, List.length_cons]
        have hrest := @ih (Parameter.reverse ++ NameOut) Parameters
        simpa using hrest
    · rw [newInsert.eq_def, substitute, if_neg hc, List.count_cons_of_ne hc]
      have hrest := @ih (C :: NameOut) Parameters
      simpa [hc] using hrest

theorem newSelect_spec :
    (¬(Strict ∧ ¬(Pattern.count star = ParametersSelected.length ∧
        ∀ I ∈ ParametersSelected, (nth I Parameters).isSome)) →
      newSelect Strict Parameters Pattern NameOut ParametersSelected =
        .ok (NameOut.reverse ++ substitute Pattern (selected Parameters ParametersSelected))) ∧
    (Strict ∧ ¬(Pattern.count star = ParametersSelected.length ∧ ∀ I ∈ ParametersSelected, (nth I Parameters).isSome) →
      ∃ e, newSelect Strict Parameters Pattern NameOut ParametersSelected = .error e) := by
  induction Pattern generalizing NameOut ParametersSelected with
  | nil => cases Strict <;> cases ParametersSelected <;> simp [newSelect, substitute]
  | cons C Pattern ih =>
    by_cases hc : C = star
    · subst hc
      cases ParametersSelected with
      | nil => cases Strict <;> simp [newSelect, substitute, selected, newStrip_eq]
      | cons I ParametersSelected =>
        rw [newSelect, if_pos rfl, substitute, if_pos rfl, List.count_cons_self, List.length_cons, selected]
        cases hnth : nth I Parameters with
        | none => cases Strict <;> simp [hnth, newStrip_eq]
        | some Parameter =>
          have hrest := @ih (Parameter.reverse ++ NameOut) ParametersSelected
          simpa [hnth] using hrest
    · rw [newSelect.eq_def, substitute, if_neg hc, List.count_cons_of_ne hc]
      have hrest := @ih (C :: NameOut) ParametersSelected
      simpa [hc] using hrest

/-- The values that go into a template. -/
def values (d : Destination) (Parameters : List Text) : List Text :=
  if d.parametersSelected = [] then Parameters else selected Parameters d.parametersSelected

theorem new_spec (d : Destination) :
    ((d.parametersStrictMatching → Corresponds Pattern Parameters d.parametersSelected) →
      new Pattern Parameters d.parametersSelected d.parametersStrictMatching =
        .ok (substitute Pattern (values d Parameters))) ∧
    (¬(d.parametersStrictMatching → Corresponds Pattern Parameters d.parametersSelected) →
      ∃ e, new Pattern Parameters d.parametersSelected d.parametersStrictMatching = .error e) := by
  unfold new values Corresponds
  rw [Classical.not_imp]
  split_ifs
  · exact ⟨fun h => newInsert_spec.1 fun hn => hn.2 (h hn.1), newInsert_spec.2⟩
  · exact ⟨fun h => newSelect_spec.1 fun hn => hn.2 (h hn.1), newSelect_spec.2⟩

theorem star_notMem_substitute (hW : ∀ w ∈ W, star ∉ w) : star ∉ substitute Pattern W := by
  induction Pattern generalizing W with
  | nil => exact List.not_mem_nil
  | cons C Pattern ih =>
    rw [substitute]
    split_ifs with hc
    · rw [List.mem_append, not_or]
      cases W with
      | nil => exact ⟨List.not_mem_nil, ih fun w hw => absurd hw List.not_mem_nil⟩
      | cons w W => exact ⟨hW w List.mem_cons_self, ih fun w hw => hW w (List.mem_cons_of_mem _ hw)⟩
    · rw [List.mem_cons, not_or]
      exact ⟨Ne.symm hc, ih hW⟩

theorem selected_subset : ∀ w ∈ selected Parameters ParametersSelected, w ∈ Parameters := by
  induction ParametersSelected with
  | nil => exact fun _ => nofun
  | cons I ParametersSelected ih =>
    rw [selected]
    cases hnth : nth I Parameters with
    | none => exact fun _ => nofun
    | some Parameter =>
      refine List.forall_mem_cons.mpr ⟨?_, ih⟩
      unfold nth at hnth
      split_ifs at hnth
      exact List.mem_of_getElem? hnth

/-- The strings of the wildcards are parts of the name. -/
theorem fill_subset {L : Text} (h : fill Pattern W = some L) (hL : star ∉ L) : ∀ w ∈ W, star ∉ w := by
  induction Pattern generalizing W L with
  | nil =>
    cases W with
    | nil => exact fun _ => nofun
    | cons => cases h
  | cons C Pattern ih =>
    by_cases hc : C = star
    · subst hc
      obtain ⟨w, W', L', rfl, hfill, rfl⟩ := fill_star_eq_some.mp h
      rw [List.mem_append, not_or] at hL
      exact List.forall_mem_cons.mpr ⟨hL.1, ih hfill hL.2⟩
    · obtain ⟨L', hfill, rfl⟩ := (fill_cons_eq_some hc).mp h
      exact ih hfill fun hmem => hL (List.mem_cons_of_mem _ hmem)

theorem fill_nil_iff {L : Text} (h : fill Pattern W = some L) : W = [] ↔ star ∉ Pattern := by
  induction Pattern generalizing W L with
  | nil =>
    cases W with
    | nil => simp
    | cons => cases h
  | cons C Pattern ih =>
    by_cases hc : C = star
    · subst hc
      obtain ⟨w, W', L', rfl, -, -⟩ := fill_star_eq_some.mp h
      simp
    · obtain ⟨L', hfill, -⟩ := (fill_cons_eq_some hc).mp h
      rw [ih hfill, List.mem_cons, not_or]
      exact (and_iff_right (Ne.symm hc)).symm

/-- A name that matches is parsed into the strings of the wildcards. -/
theorem parse_matches {L : Text} (hL : star ∉ L) (hP : NoDouble star Pattern) (hm : L ∈ language star Pattern) :
    ∃ W, Fills Pattern W L ∧ patternParse Pattern L = .ok (some (.parameters (W.map .string))) := by
  obtain ⟨W, hW, hparse⟩ := ((patternParse5_spec hL).1 Pattern hP).succeeds hm
  refine ⟨W, hW, ?_⟩
  rw [patternParse, patternParse3, hparse, assemble_default hW.1]
  rfl

theorem map_text (W : List Text) : (W.map Parameter.string).map Parameter.text = W := by
  rw [List.map_map]
  exact List.map_id W

/-- Without parameters the name is the template, and otherwise it is what is meant, if the template fits. -/
theorem nameParameters_spec (d : Destination) :
    (Fits d Pattern Parameters → ∃ NewName, nameParameters Pattern Parameters d = .ok NewName) ∧
    ∀ NewName, nameParameters Pattern Parameters d = .ok NewName → (Parameters = [] ∧ NewName = Pattern) ∨
      (NewName = substitute Pattern (values d Parameters) ∧
        (d.parametersStrictMatching → Corresponds Pattern Parameters d.parametersSelected)) := by
  unfold nameParameters Fits
  split_ifs with hnil hallowed
  · refine ⟨fun _ => ⟨Pattern, rfl⟩, fun NewName h => ?_⟩
    cases h
    exact .inl ⟨hnil, rfl⟩
  · refine ⟨fun h => ?_, fun NewName h => by cases h⟩
    obtain hnil' | ⟨hyes, -⟩ := h
    · exact absurd hnil' hnil
    · rw [hallowed] at hyes
      cases hyes
  · obtain ⟨hok, herror⟩ := @new_spec Pattern Parameters d
    refine ⟨fun h => ⟨_, hok (h.resolve_left hnil).2⟩, fun NewName h => .inr ?_⟩
    by_cases hs : d.parametersStrictMatching → Corresponds Pattern Parameters d.parametersSelected
    · rw [hok hs] at h
      cases h
      exact ⟨rfl, hs⟩
    · obtain ⟨e, he⟩ := herror hs
      rw [he] at h
      cases h

theorem substitute_plain (h : star ∉ Pattern) : substitute Pattern W = Pattern := by
  induction Pattern with
  | nil => rfl
  | cons C Pattern ih =>
    rw [List.mem_cons, not_or] at h
    rw [substitute, if_neg (Ne.symm h.1), ih h.2]

variable {d : Destination}

/-- A forwarded name is what is meant, where a pattern without wildcards has a template without them. -/
theorem forwarded_of_ok {L NewName pattern : Text} (hL : star ∉ L) (hf : fill pattern W = some L)
    (hplain : star ∉ pattern → star ∉ Pattern ∧ (d.parametersStrictMatching → d.parametersSelected = []))
    (h : nameParameters Pattern W d = .ok NewName) : Forwarded d Pattern W NewName := by
  obtain ⟨rfl, rfl⟩ | ⟨rfl, hstrict⟩ := (nameParameters_spec d).2 NewName h
  · obtain ⟨hstar, hselected⟩ := hplain ((fill_nil_iff hf).mp rfl)
    refine ⟨hstar, (substitute_plain hstar).symm, fun hs => ?_⟩
    rw [Corresponds, if_pos (hselected hs), List.count_eq_zero.mpr hstar, List.length_nil]
  · refine ⟨star_notMem_substitute fun w hw => ?_, rfl, hstrict⟩
    have hW := fill_subset hf hL
    unfold values at hw
    split_ifs at hw
    · exact hW w hw
    · exact hW w (selected_subset w hw)

/-! ## A request -/

/-- The index of a destination is a position of its names. -/
structure Well (d : Destination) : Prop where
  length : d.length = d.serviceNames.length
  pos : 1 ≤ d.index
  le : d.index ≤ d.length

theorem nth_isSome {α : Type} {L : List α} {I : Nat} (hpos : 1 ≤ I) (hle : I ≤ L.length) : ∃ x, nth I L = some x := by
  rw [nth, if_neg (by omega)]
  exact ⟨L[I - 1], List.getElem?_eq_getElem _⟩

/-- The index after a name was picked. -/
def Destination.nextIndex (d : Destination) (draw : Nat) : Nat :=
  match d.serviceNames, d.mode with
  | [_], _ => d.index
  | _, .roundRobin => if d.index = d.length then 1 else d.index + 1
  | _, .random => draw

theorem destinationPick_spec {draw : Nat} (hd : Well d) (hpos : 1 ≤ draw) (hle : draw ≤ d.length) :
    ∃ Name, nth (d.position draw) d.serviceNames = some Name ∧
      destinationPick draw d = .ok (Name, { d with index := d.nextIndex draw }) ∧
      1 ≤ d.nextIndex draw ∧ d.nextIndex draw ≤ d.length ∧
      (d.mode = .roundRobin → d.position draw = d.index ∧ d.nextIndex draw = d.index % d.length + 1) := by
  obtain ⟨mode, Names, index, allowed, strict, sel, length⟩ := d
  obtain ⟨hlen, hpos', hle'⟩ := hd
  dsimp only at hlen hpos' hle' hle
  unfold Destination.position Destination.nextIndex destinationPick
  dsimp only
  match Names, hlen with
  | [], hlen =>
    rw [List.length_nil] at hlen
    omega
  | [Name], hlen =>
    rw [List.length_singleton] at hlen
    subst hlen
    obtain rfl : index = 1 := by omega
    exact ⟨Name, rfl, rfl, le_refl _, le_refl _, fun _ => ⟨rfl, rfl⟩⟩
  | Name :: Name' :: Names, hlen =>
    cases mode with
    | roundRobin =>
      dsimp only
      obtain ⟨x, hx⟩ := nth_isSome hpos' (hle'.trans hlen.le)
      refine ⟨x, hx, by rw [hx], ?_, ?_, fun _ => ⟨rfl, ?_⟩⟩
      · split_ifs <;> omega
      · split_ifs <;> omega
      · split_ifs with hlast
        · rw [hlast, Nat.mod_self]
        · rw [Nat.mod_eq_of_lt (by omega)]
    | random =>
      dsimp only
      obtain ⟨x, hx⟩ := nth_isSome hpos (hle.trans hlen.le)
      exact ⟨x, hx, by rw [hx], hpos, hle, nofun⟩

/-- What is left of a request after its template was picked and its name parsed. -/
theorem handleRequest_eq {r : Request} {s : Dict Text Destination} {d d' : Destination} (hs : s r.pattern = some d)
    (hpick : destinationPick r.draw d = .ok (Pattern, d'))
    (hparse : patternParse r.pattern r.name = .ok (some (.parameters (W.map .string)))) :
    handleRequest r s = .ok (match nameParameters Pattern W d' with
      | .ok NewName => (⟨d.position r.draw, some NewName⟩, s.store r.pattern d')
      | .error _ => (⟨d.position r.draw, none⟩, s)) := by
  unfold handleRequest
  rw [hs]
  dsimp only
  rw [bind_ok hpick]
  dsimp only
  rw [bind_ok hparse]
  dsimp only
  rw [map_text]
  split
  · rfl
  · rfl

/-- A request of a destination moves its index at most, and in a round robin to the next one. -/
theorem handleRequest_spec {r : Request} {s : Dict Text Destination} (hs : s r.pattern = some d)
    (hd : Well d) (hv : r.Valid s) (hm : r.Meets s) :
    ∃ reply i, handleRequest r s = .ok (reply, s.store r.pattern { d with index := i }) ∧
      Well { d with index := i } ∧ reply.position = d.position r.draw ∧ Routed s r reply ∧
      (d.mode = .roundRobin → d.position r.draw = d.index ∧ i = d.index % d.length + 1) := by
  obtain ⟨hstar, hP, hmem, d', hd', hdraw, hdraw'⟩ := hv
  cases hs.symm.trans hd'
  obtain ⟨Pattern, hname, hpick, hpos, hle, hnext⟩ := destinationPick_spec hd hdraw hdraw'
  obtain ⟨W, hW, hparse⟩ := parse_matches hstar hP hmem
  obtain ⟨hplain, hfits⟩ := hm d Pattern hs hname
  have hroute (forward : Option Text) (hf : ∀ NewName, forward = some NewName → Forwarded d Pattern W NewName) :
      Routed s r ⟨d.position r.draw, forward⟩ := ⟨d, Pattern, W, hs, hname, hparse, hf⟩
  cases hn : nameParameters Pattern W { d with index := d.nextIndex r.draw } with
  | ok NewName =>
    refine ⟨⟨d.position r.draw, some NewName⟩, d.nextIndex r.draw, ?_, ⟨hd.length, hpos, hle⟩, rfl,
      hroute _ fun NewName' h => ?_, hnext⟩
    · rw [handleRequest_eq hs hpick hparse, hn]
    · cases h
      have hn' : nameParameters Pattern W d = .ok NewName := hn
      exact forwarded_of_ok hstar hW.1 hplain hn'
  | error e =>
    refine ⟨⟨d.position r.draw, none⟩, d.index, ?_, hd, rfl, hroute _ (fun _ => nofun), fun hmode => ?_⟩
    · have hsame : s.store r.pattern { d with index := d.index } = s := by
        rw [Dict.store, ← hs]
        exact Function.update_eq_self r.pattern s
      rw [hsame, handleRequest_eq hs hpick hparse, hn]
    · refine ⟨(hnext hmode).1, ?_⟩
      -- a template that does not fit is the only name
      rcases Nat.lt_or_ge 1 d.length with hlt | hge
      · obtain ⟨NewName, hok⟩ := (nameParameters_spec _).1 (hfits hmode hlt W hparse)
        have herror : nameParameters Pattern W d = .error e := hn
        cases hok.symm.trans herror
      · have hpos := hd.pos
        have hle := hd.le
        obtain hone : d.length = 1 := by omega
        rw [hone, Nat.mod_one]
        omega

/-! ## A run -/

/-- The destinations differ in their indexes at most. -/
def Kept (s₀ s : Dict Text Destination) : Prop :=
  ∀ pattern, (s pattern = none ∧ s₀ pattern = none) ∨
    ∃ d i, s₀ pattern = some d ∧ s pattern = some { d with index := i } ∧ Well { d with index := i }

theorem Kept.store {s₀ s : Dict Text Destination} (hk : Kept s₀ s) {pattern : Text} {i : Nat}
    (hs : s pattern = some d) (hd : Well { d with index := i }) : Kept s₀ (s.store pattern { d with index := i }) := by
  intro pattern'
  by_cases h : pattern' = pattern
  · subst h
    obtain ⟨hnone, -⟩ | ⟨d₀, i₀, hs₀, hs', -⟩ := hk pattern'
    · cases hs.symm.trans hnone
    · cases hs.symm.trans hs'
      exact .inr ⟨d₀, i, hs₀, Function.update_self _ _ _, hd⟩
  · rw [Dict.store, Function.update_of_ne h]
    exact hk pattern'

theorem Routed.of_kept {s₀ s : Dict Text Destination} (hk : Kept s₀ s) {r : Request} {reply : Reply}
    (h : Routed s r reply) : Routed s₀ r reply := by
  obtain ⟨d, Pattern, W, hs, hname, hW, hforward⟩ := h
  obtain ⟨hnone, -⟩ | ⟨d₀, i, hs₀, hs', -⟩ := hk r.pattern
  · cases hs.symm.trans hnone
  · cases hs.symm.trans hs'
    refine ⟨d₀, Pattern, W, hs₀, hname, hW, fun NewName hn => ?_⟩
    obtain ⟨hplain, hfilled, hstrict⟩ := hforward NewName hn
    exact ⟨hplain, hfilled, hstrict⟩

/-- The positions of `m` requests of a round robin of `n` names, from the position `i` on. -/
def rotation (i n m : Nat) : List Nat := (List.range m).map fun j => (i - 1 + j) % n + 1

theorem rotation_succ {i n m : Nat} (hpos : 1 ≤ i) (hle : i ≤ n) :
    rotation i n (m + 1) = i :: rotation (i % n + 1) n m := by
  rw [rotation, List.range_succ_eq_map, List.map_cons, List.map_map]
  congr 1
  · rw [Nat.mod_eq_of_lt (by omega)]
    omega
  · refine List.map_congr_left fun j _ => ?_
    show (i - 1 + (j + 1)) % n + 1 = (i % n + 1 - 1 + j) % n + 1
    rw [Nat.add_sub_cancel, Nat.mod_add_mod]
    congr 2
    omega

theorem run_spec {s₀ s : Dict Text Destination} (hk : Kept s₀ s) {requests : List Request} (hm : AllMeet requests s) :
    ∃ replies s', runOps handleRequest requests s = .ok (replies, s') ∧ List.Forall₂ (Routed s₀) requests replies ∧
      ∀ pattern d, s pattern = some d → d.mode = .roundRobin →
        ∃ m, tried pattern requests replies = rotation d.index d.length m := by
  induction requests generalizing s with
  | nil => exact ⟨[], s, rfl, .nil, fun pattern d _ _ => ⟨0, rfl⟩⟩
  | cons r requests ih =>
    obtain ⟨hv, hmeets, hrest⟩ := hm
    obtain ⟨-, -, -, d, hs, -⟩ := id hv
    have hd : Well d := by
      obtain ⟨hnone, -⟩ | ⟨d₀, i, -, hs', hd⟩ := hk r.pattern
      · cases hs.symm.trans hnone
      · cases hs.symm.trans hs'
        exact hd
    obtain ⟨reply, i, hstep, hwell, hposition, hrouted, hnext⟩ := handleRequest_spec hs hd hv hmeets
    obtain ⟨replies, s', hrun, hforall, htried⟩ := ih (hk.store hs hwell) (hrest _ _ hstep)
    refine ⟨reply :: replies, s', ?_, .cons (hrouted.of_kept hk) hforall, fun pattern d' hs' hmode => ?_⟩
    · simp only [runOps, hstep, hrun, bind, Except.bind, pure, Except.pure]
    · by_cases hp : r.pattern = pattern
      · subst hp
        cases hs.symm.trans hs'
        obtain ⟨hindex, rfl⟩ := hnext hmode
        obtain ⟨m, hm⟩ := htried r.pattern _ (Function.update_self _ _ _) hmode
        refine ⟨m + 1, ?_⟩
        rw [rotation_succ hd.pos hd.le, ← hindex, ← hposition]
        rw [tried, List.zip_cons_cons, List.filter_cons_of_pos (by simp), List.map_cons]
        rw [hposition, hindex]
        exact congrArg _ hm
      · obtain ⟨m, hm⟩ := htried pattern d' (by rw [Dict.store, Function.update_of_ne (Ne.symm hp)]; exact hs') hmode
        refine ⟨m, ?_⟩
        rw [tried, List.zip_cons_cons, List.filter_cons_of_neg (by simpa using hp)]
        exact hm

/-- As many requests in a row as there are names try each position once. -/
theorem rotation_window {i n m k : Nat} (hk : k + n ≤ m) :
    (((rotation i n m).drop k).take n).Perm (List.range' 1 n) := by
  have hwindow : ((rotation i n m).drop k).take n = (List.range' k n).map fun j => (i - 1 + j) % n + 1 := by
    rw [rotation, ← List.map_drop, ← List.map_take, List.range_eq_range', List.drop_range',
      List.take_range'_of_length_ge (by omega), Nat.mul_one, Nat.zero_add]
  rw [hwindow]
  refine (List.subperm_of_subset ?_ ?_).perm_of_length_le (by simp)
  · refine List.Nodup.map_on (fun a ha b hb hab => ?_) List.nodup_range'
    rw [List.mem_range'_1] at ha hb
    have hmod : i - 1 + a ≡ i - 1 + b [MOD n] := Nat.add_right_cancel hab
    exact Nat.ModEq.eq_of_abs_lt (Nat.ModEq.add_left_cancel' _ hmod) (by rw [abs_lt]; omega)
  · intro x hx
    obtain ⟨j, hj, rfl⟩ := List.mem_map.mp hx
    rw [List.mem_range'_1] at hj ⊢
    have := Nat.mod_lt (i - 1 + j) (show 0 < n by omega)
    omega

/-! ## The configuration -/

theorem destination_well {Prefix : Text} {AddPrefix : Bool} {entry : Entry}
    (h : destination Prefix AddPrefix entry = .ok d) : Well d := by
  cases entry with
  | name L =>
    cases L with
    | nil => cases h
    | cons I L =>
      cases h
      exact ⟨rfl, le_refl _, le_refl _⟩
  | options L =>
    have hlen : (if AddPrefix then L.serviceNames.map (Prefix ++ ·) else L.serviceNames).length =
        L.serviceNames.length := by
      split_ifs
      · exact List.length_map _
      · rfl
    unfold destination at h
    dsimp only at h
    generalize (if AddPrefix then L.serviceNames.map (Prefix ++ ·) else L.serviceNames) = Names at h hlen
    split at h
    · cases h
    · split at h
      · cases h
      · split at h
        · cases h
        · rename_i hpos
          have hend (check : Except Exn Bool) (h : (do
              let patterns ← check
              if patterns then .error .badmatch
              else return { mode := L.mode, parametersAllowed := L.parametersAllowed,
                            parametersStrictMatching := L.parametersStrictMatching,
                            parametersSelected := L.parametersSelected, serviceNames := Names,
                            length := L.serviceNames.length }) = Except.ok d) : Well d := by
            obtain ⟨patterns, -, h⟩ := bind_eq_ok h
            cases patterns with
            | true => cases h
            | false =>
              cases h
              exact ⟨hlen.symm, le_refl _, not_not.mp hpos⟩
          split at h
          · exact hend _ h
          · exact hend _ h

variable {DestinationsL : List (Text × Entry)}

theorem foldlM_well {Prefix : Text} {AddPrefix : Bool}
    {D Destinations : Dict Text Destination} (hD : ∀ pattern d, D pattern = some d → Well d)
    (h : DestinationsL.foldlM (fun D p => do
      let Destination ← destination Prefix AddPrefix p.2
      return D.store (Prefix ++ p.1) Destination) D = .ok Destinations) :
    ∀ pattern d, Destinations pattern = some d → Well d := by
  induction DestinationsL generalizing D with
  | nil =>
    cases h
    exact hD
  | cons p DestinationsL ih =>
    rw [List.foldlM_cons] at h
    obtain ⟨D', hstep, h⟩ := bind_eq_ok h
    obtain ⟨d', hd', hstep⟩ := bind_eq_ok hstep
    cases hstep
    refine ih (fun pattern d hs => ?_) h
    by_cases hp : pattern = Prefix ++ p.1
    · subst hp
      rw [Dict.store, Function.update_self] at hs
      cases hs
      exact destination_well hd'
    · rw [Dict.store, Function.update_of_ne hp] at hs
      exact hD pattern d hs

theorem init_well {Prefix : Text} {AddPrefix : Bool}
    {Destinations : Dict Text Destination} (h : init Prefix AddPrefix DestinationsL = .ok Destinations) :
    ∀ pattern d, Destinations pattern = some d → Well d := by
  unfold init at h
  split_ifs at h
  exact foldlM_well (fun pattern d hs => by cases hs) h

theorem kept_refl {s : Dict Text Destination} (h : ∀ pattern d, s pattern = some d → Well d) : Kept s s := by
  intro pattern
  cases hs : s pattern with
  | none => exact .inl ⟨rfl, rfl⟩
  | some d => exact .inr ⟨d, d.index, rfl, rfl, h pattern d hs⟩

/-- In every run of an accepted configuration whose requests meet the conditions, the forwarded names are what is
meant, and each round robin tries each of its names once in as many requests as it has names. -/
theorem routing {Prefix : Text} {AddPrefix : Bool}
    {Destinations : Dict Text Destination} (hinit : init Prefix AddPrefix DestinationsL = .ok Destinations)
    {requests : List Request} (hm : AllMeet requests Destinations) :
    ∃ replies Destinations', runOps handleRequest requests Destinations = .ok (replies, Destinations') ∧
      List.Forall₂ (Routed Destinations) requests replies ∧
      ∀ pattern d, Destinations pattern = some d → d.mode = .roundRobin →
        ∀ k, k + d.serviceNames.length ≤ (tried pattern requests replies).length →
          (((tried pattern requests replies).drop k).take d.serviceNames.length).Perm
            (List.range' 1 d.serviceNames.length) := by
  have hwell := init_well hinit
  obtain ⟨replies, Destinations', hrun, hforall, htried⟩ := run_spec (kept_refl hwell) hm
  refine ⟨replies, Destinations', hrun, hforall, fun pattern d hs hmode k hk => ?_⟩
  obtain ⟨m, htried⟩ := htried pattern d hs hmode
  rw [htried] at hk ⊢
  rw [rotation, List.length_map, List.length_range] at hk
  rw [(hwell pattern d hs).length]
  exact rotation_window hk

/-- The pattern `p*` with the templates `x*` and another one. -/
def twoNames (second : Text) : List (Text × Entry) := [([112, 42], .options { serviceNames := [[120, 42], second] })]

def twoTemplates (second : Text) (index : Nat) : Destination :=
  { serviceNames := [[120, 42], second], length := 2, index := index }

def twoDestinations (second : Text) (index : Nat) : Dict Text Destination :=
  Dict.new.store [112, 42] (twoTemplates second index)

/-- A request for `pa`. -/
def oneRequest : Request := ⟨[112, 97], [112, 42], 1⟩

theorem twoDestinations_self (second : Text) (index : Nat) :
    twoDestinations second index oneRequest.pattern = some (twoTemplates second index) := rfl

theorem parse_oneRequest :
    patternParse oneRequest.pattern oneRequest.name = .ok (some (.parameters ([[97]].map .string))) := by
  simp [oneRequest, patternParse, patternParse3, patternParse5, patternParseResult, newParsed]

theorem oneRequest_valid (second : Text) (index : Nat) : oneRequest.Valid (twoDestinations second index) := by
  refine ⟨by decide, by decide, ?_, twoTemplates second index, twoDestinations_self _ _, by decide, Nat.le_succ 1⟩
  have hwild : [97] ∈ language star [star] := mem_language_star.mpr ⟨97, [], [], mem_language_nil.mpr rfl, rfl⟩
  exact (mem_language_cons (by decide)).mpr ⟨[97], hwild, rfl⟩

/-- A template with a wildcard fits. -/
theorem oneRequest_meets {second : Text} {index : Nat} (h : index = 1 ∨ index = 2 ∧ second = [121, 42]) :
    oneRequest.Meets (twoDestinations second index) := by
  intro d Pattern hs hname
  cases (twoDestinations_self second index).symm.trans hs
  refine ⟨fun h => absurd h (by decide), fun _ _ W hparse => .inr ⟨rfl, fun _ => ?_⟩⟩
  have hW : W = [[97]] := by
    have h := hparse.symm.trans parse_oneRequest
    simp only [Except.ok.injEq, Option.some.injEq, PatternResult.parameters.injEq] at h
    exact (List.map_injective_iff.mpr fun _ _ => Parameter.string.inj) h
  subst hW
  rcases h with rfl | ⟨rfl, rfl⟩ <;>
  · cases hname
    rfl

theorem twoDestinations_store (second : Text) (i j : Nat) :
    (twoDestinations second i).store [112, 42] (twoTemplates second j) = twoDestinations second j :=
  Function.update_idem _ _ _

theorem handle_first (second : Text) : handleRequest oneRequest (twoDestinations second 1) =
    .ok (⟨1, some [120, 97]⟩, twoDestinations second 2) := by
  have hpick : destinationPick oneRequest.draw (twoTemplates second 1) = .ok ([120, 42], twoTemplates second 2) := rfl
  rw [handleRequest_eq (twoDestinations_self _ _) hpick parse_oneRequest, ← twoDestinations_store second 1 2]
  rfl

theorem handle_second : handleRequest oneRequest (twoDestinations [121, 42] 2) =
    .ok (⟨2, some [121, 97]⟩, twoDestinations [121, 42] 1) := by
  have hpick : destinationPick oneRequest.draw (twoTemplates [121, 42] 2) =
      .ok ([121, 42], twoTemplates [121, 42] 1) := rfl
  rw [handleRequest_eq (twoDestinations_self _ _) hpick parse_oneRequest, ← twoDestinations_store _ 2 1]
  rfl

/-- Three requests and the two names. -/
theorem routing_two : ∃ replies Destinations',
    runOps handleRequest [oneRequest, oneRequest, oneRequest] (twoDestinations [121, 42] 1) =
      .ok (replies, Destinations') ∧
    List.Forall₂ (Routed (twoDestinations [121, 42] 1)) [oneRequest, oneRequest, oneRequest] replies ∧
    ∀ pattern d, twoDestinations [121, 42] 1 pattern = some d → d.mode = .roundRobin →
      ∀ k, k + d.serviceNames.length ≤ (tried pattern [oneRequest, oneRequest, oneRequest] replies).length →
        (((tried pattern [oneRequest, oneRequest, oneRequest] replies).drop k).take d.serviceNames.length).Perm
          (List.range' 1 d.serviceNames.length) := by
  have hinit : init [] false (twoNames [121, 42]) = .ok (twoDestinations [121, 42] 1) := rfl
  refine routing hinit ⟨oneRequest_valid _ 1, oneRequest_meets (.inl rfl), fun _ _ h => ?_⟩
  cases (handle_first _).symm.trans h
  refine ⟨oneRequest_valid _ 2, oneRequest_meets (.inr ⟨rfl, rfl⟩), fun _ _ h => ?_⟩
  cases handle_second.symm.trans h
  exact ⟨oneRequest_valid _ 1, oneRequest_meets (.inl rfl), fun _ _ _ => trivial⟩

/-- The template `y` does not fit, and the index is not stored. -/
theorem handle_next : handleRequest oneRequest (twoDestinations [121] 2) =
    .ok (⟨2, none⟩, twoDestinations [121] 2) := by
  have hpick : destinationPick oneRequest.draw (twoTemplates [121] 2) = .ok ([121], twoTemplates [121] 1) := rfl
  rw [handleRequest_eq (twoDestinations_self _ _) hpick parse_oneRequest]
  rfl

/-- With the templates `x*` and `y` three requests try the first name once and the second one twice, and a template with
a wildcard is forwarded to as it is for a name without parameters. -/
theorem routing_wrong : init [] false (twoNames [121]) = .ok (twoDestinations [121] 1) ∧
    runOps handleRequest [oneRequest, oneRequest, oneRequest] (twoDestinations [121] 1) =
      .ok ([⟨1, some [120, 97]⟩, ⟨2, none⟩, ⟨2, none⟩], twoDestinations [121] 2) ∧
    nameParameters [120, 42] [] { serviceNames := [[120, 42]] } = .ok [120, 42] := by
  refine ⟨rfl, ?_, rfl⟩
  simp only [runOps, handle_first, handle_next, bind, Except.bind, pure, Except.pure]

end CloudI.Services.Router
