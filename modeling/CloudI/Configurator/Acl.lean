import Mathlib.Data.List.AList
import CloudI.Framework.Exn

/-!
# Access control lists

`acl_lookup_add/2` replaces the aliases of new definitions by the patterns that
they stand for, with a depth-first search that fails on a cycle;
`aclUpdateValues_spec` says what the search finds (`Reaches`).
`service_acl_expand_list/3` does the same for the lists of a service with the
definitions that are expanded already, and has no clause for what is neither
an alias nor a string. `acl_expansion` says what both return.
-/

namespace CloudI.Configurator.Acl

variable {Atom : Type} [DecidableEq Atom]

/-- A term of a list: an atom, a list (of integers and, with `none`, of other
terms, that may be improper), or another term. -/
inductive Elem (Atom : Type) where
  | atom (E : Atom)
  | list (l : List (Option ℤ)) (proper : Bool)
  | other
deriving DecidableEq

/-- The guard `is_list(E), is_integer(hd(E))` -/
def Elem.IsListOfInteger : Elem Atom → Prop
  | .list (some _ :: _) _ => True
  | _ => False

instance (e : Elem Atom) : Decidable e.IsListOfInteger := by
  unfold Elem.IsListOfInteger
  split <;> infer_instance

/-- The dictionary of the definitions. -/
abbrev Dictionary (Atom : Type) := AList fun _ : Atom => List (Elem Atom)

inductive AclError (Atom : Type) where
  | aclCyclic (Key E : Atom)
  | aclNotFound (E : Atom)
  | aclInvalid (E : Elem Atom)
  | aclInvalidDefinition (Key : Atom) (Value : List (Elem Atom))
  | raised (e : Exn)

/-- The code of `*` -/
def star : ℤ := 42

/-- `trie:is_pattern/2` -/
def isPattern : List (Option ℤ) → Bool → Bool → Except Exn Bool
  | [], true, Result => .ok Result
  | [], false, _ => .error .functionClause
  | some c :: l, proper, Result =>
    if c = star then
      if l.head? = some (some star) then .error .exitBadarg else isPattern l proper true
    else isPattern l proper Result
  | none :: l, proper, Result => isPattern l proper Result

/-- The pattern of a string, with a wildcard at the end when there is none. -/
def pattern (l : List (Option ℤ)) (proper : Bool) : Except (AclError Atom) (Elem Atom) :=
  match isPattern l proper false with
  | .ok true => .ok (.list l proper)
  | .ok false => .ok (.list (l ++ [some star]) proper)
  | .error .exitBadarg => .error (.aclInvalid (.list l proper))
  | .error e => .error (.raised e)

/-- `acl_store/2` -/
def aclStore : List (Atom × List (Elem Atom)) → Dictionary Atom → Except (AclError Atom) (Dictionary Atom)
  | [], ACL => .ok ACL
  | (Key, .atom E :: Value) :: L, ACL => aclStore L (ACL.insert Key (.atom E :: Value))
  | (Key, .list (some c :: l) proper :: Value) :: L, ACL =>
    aclStore L (ACL.insert Key (.list (some c :: l) proper :: Value))
  | (Key, Value) :: _, _ => .error (.aclInvalidDefinition Key Value)

/-- The aliases that are not on the path. -/
def unvisited (ACL : Dictionary Atom) (Path : List Atom) : List Atom := ACL.keys.filter (· ∉ Path)

theorem unvisited_lt {ACL : Dictionary Atom} {Path : List Atom} {E : Atom} {OtherL : List (Elem Atom)} (hP : E ∉ Path)
    (h : ACL.lookup E = some OtherL) : (unvisited ACL (E :: Path)).length < (unvisited ACL Path).length := by
  have hE : E ∈ ACL.keys := AList.mem_keys.mp (AList.lookup_isSome.mp (by rw [h]; rfl))
  have hsub : unvisited ACL (E :: Path) = (unvisited ACL Path).filter (· ≠ E) := by
    rw [unvisited, unvisited, List.filter_filter]
    refine List.filter_congr fun a _ => ?_
    simp [not_or]
  rw [hsub]
  exact List.length_filter_lt_length_iff_exists.mpr ⟨E, List.mem_filter.mpr ⟨hE, by simpa using hP⟩, by simp⟩

/-- `acl_update_values/5` -/
def aclUpdateValues (Key : Atom) (ACL : Dictionary Atom) (L Output : List (Elem Atom)) (Path : List Atom) :
    Except (AclError Atom) (List (Elem Atom)) :=
  match L with
  | [] => .ok Output.reverse
  | .atom E :: L =>
    if _hP : E ∈ Path then .error (.aclCyclic Key E)
    else
      match _h : ACL.lookup E with
      | none => .error (.aclNotFound E)
      | some OtherL =>
        match aclUpdateValues Key ACL OtherL Output (E :: Path) with
        | .ok NewOutput => aclUpdateValues Key ACL L NewOutput Path
        | .error e => .error e
  | .list (some c :: l) proper :: L =>
    match pattern (some c :: l) proper with
    | .ok p => aclUpdateValues Key ACL L (p :: Output) Path
    | .error e => .error e
  | e :: _ => .error (.aclInvalid e)
termination_by ((unvisited ACL Path).length, L.length)
decreasing_by
  · exact Prod.Lex.left _ _ (unvisited_lt _hP _h)
  · exact Prod.Lex.right _ (Nat.lt_succ_self _)
  · exact Prod.Lex.right _ (Nat.lt_succ_self _)

/-- `acl_update/3` -/
def aclUpdate (ACLConfig : Dictionary Atom) :
    List (Atom × List (Elem Atom)) → Dictionary Atom → Except (AclError Atom) (Dictionary Atom)
  | [], ACLFinal => .ok ACLFinal
  | (Key, Value) :: L, ACLFinal => do
    let NewValue ← aclUpdateValues Key ACLConfig Value [] []
    aclUpdate ACLConfig L (ACLFinal.insert Key NewValue)

/-- `acl_lookup_add/2` -/
def aclLookupAdd (L : List (Atom × List (Elem Atom))) (OldACL : Dictionary Atom) :
    Except (AclError Atom) (Dictionary Atom) := do
  let NewACL ← aclStore L OldACL
  aclUpdate NewACL L OldACL

/-- A list of a service: `undefined`, `invalid`, or its elements. -/
inductive DestList (Atom : Type) where
  | invalid
  | undefined
  | list (L : List (Elem Atom))

/-- `service_acl_expand_list/3` of a list -/
def serviceAclExpand (ACL : Dictionary Atom) : List (Elem Atom) → List (Elem Atom) →
    Except (AclError Atom) (List (Elem Atom))
  | [], Output => .ok Output.reverse
  | .atom E :: L, Output =>
    match ACL.lookup E with
    | some Value => serviceAclExpand ACL L (Value ++ Output)
    | none => .error (.aclNotFound E)
  | .list (some c :: l) proper :: L, Output =>
    match pattern (some c :: l) proper with
    | .ok p => serviceAclExpand ACL L (p :: Output)
    | .error e => .error e
  | _ :: _, _ => .error (.raised .functionClause)

/-- `service_acl_expand_list/3` -/
def serviceAclExpandList (ACL : Dictionary Atom) : DestList Atom → Except (AclError Atom) (DestList Atom)
  | .invalid => .ok .invalid
  | .undefined => .ok .undefined
  | .list L => (serviceAclExpand ACL L []).map .list

/-- `service_acl_expand_lists/3` -/
def serviceAclExpandLists (DestListDeny DestListAllow : DestList Atom) (ACL : Dictionary Atom) :
    Except (AclError Atom) (DestList Atom × DestList Atom) := do
  let NewDestListDeny ← serviceAclExpandList ACL DestListDeny
  let NewDestListAllow ← serviceAclExpandList ACL DestListAllow
  .ok (NewDestListDeny, NewDestListAllow)

/-! ## What is reached -/

/-- What is found in a list, and in the definitions of its aliases. -/
inductive Reaches (ACL : Dictionary Atom) : List (Elem Atom) → Elem Atom → Prop
  | here {L : List (Elem Atom)} {e : Elem Atom} : e ∈ L → Reaches ACL L e
  | through {L OtherL : List (Elem Atom)} {E : Atom} {e : Elem Atom} : .atom E ∈ L → ACL.lookup E = some OtherL →
      Reaches ACL OtherL e → Reaches ACL L e

/-- An alias whose definition leads to it again. -/
def Cyclic (ACL : Dictionary Atom) (E : Atom) : Prop := ∃ OtherL, ACL.lookup E = some OtherL ∧
    Reaches ACL OtherL (.atom E)

/-- The pattern that a string stands for. -/
def PatternOf (e p : Elem Atom) : Prop :=
  ∃ c l proper, e = .list (some c :: l) proper ∧ pattern (some c :: l) proper = .ok p

/-- Neither an alias nor a string, or a string with two wildcards in a row. -/
def Malformed : Elem Atom → Prop
  | .atom _ => False
  | .list (some c :: l) proper => isPattern (some c :: l) proper false = .error .exitBadarg
  | _ => True

/-- A list that ends in another term. -/
def Improper : Elem Atom → Prop
  | .list _ proper => proper = false
  | _ => False

section

variable {ACL : Dictionary Atom} {L L' OtherL Output : List (Elem Atom)} {E Key : Atom} {e x : Elem Atom}
  {Path : List Atom}

theorem reaches_nil : ¬ Reaches ACL [] e := by
  intro h
  cases h with
  | here h => cases h
  | through h => cases h

theorem reaches_cons : Reaches ACL (e :: L) x ↔
    x = e ∨ (∃ E OtherL, e = .atom E ∧ ACL.lookup E = some OtherL ∧ Reaches ACL OtherL x) ∨ Reaches ACL L x := by
  constructor
  · intro h
    cases h with
    | here h =>
      rcases List.mem_cons.mp h with h | h
      · exact .inl h
      · exact .inr (.inr (.here h))
    | through h hE hr =>
      rcases List.mem_cons.mp h with rfl | h
      · exact .inr (.inl ⟨_, _, rfl, hE, hr⟩)
      · exact .inr (.inr (.through h hE hr))
  · rintro (rfl | ⟨E, OtherL, rfl, hE, hr⟩ | h)
    · exact .here List.mem_cons_self
    · exact .through List.mem_cons_self hE hr
    · cases h with
      | here h => exact .here (List.mem_cons_of_mem _ h)
      | through h hE hr => exact .through (List.mem_cons_of_mem _ h) hE hr

theorem reaches_cons_atom (hE : ACL.lookup E = some OtherL) : Reaches ACL (.atom E :: L) x ↔
    x = .atom E ∨ Reaches ACL OtherL x ∨ Reaches ACL L x := by
  rw [reaches_cons]
  refine or_congr_right (or_congr_left ⟨?_, fun h => ⟨E, OtherL, rfl, hE, h⟩⟩)
  rintro ⟨E', OtherL', he, hE', hr⟩
  cases he
  cases hE.symm.trans hE'
  exact hr

variable {l : List (Option ℤ)}

theorem reaches_cons_list {proper : Bool} :
    Reaches ACL (.list l proper :: L) x ↔ x = .list l proper ∨ Reaches ACL L x := by
  rw [reaches_cons]
  refine or_congr_right ⟨?_, .inr⟩
  rintro (⟨E, OtherL, he, -, -⟩ | h)
  · cases he
  · exact h

/-- Every alias that is reached is defined, not on the path, and on no cycle. -/
def Resolved (ACL : Dictionary Atom) (Path : List Atom) (L : List (Elem Atom)) : Prop :=
  ∀ E, Reaches ACL L (.atom E) → E ∉ Path ∧ ∃ OtherL, ACL.lookup E = some OtherL ∧ ¬ Reaches ACL OtherL (.atom E)

omit [DecidableEq Atom] in
theorem pattern_ok {proper : Bool} {p : Elem Atom} (h : pattern l proper = .ok p) :
    isPattern l proper false ≠ .error .exitBadarg := by
  intro he
  rw [pattern, he] at h
  cases h

/-- What the search returns is what is reached. -/
theorem aclUpdateValues_ok {Out : List (Elem Atom)} (h : aclUpdateValues Key ACL L Output Path = .ok Out) :
    Resolved ACL Path L ∧ (∀ e, Reaches ACL L e → ¬ Malformed e) ∧
      ∀ p, p ∈ Out ↔ p ∈ Output ∨ ∃ e, Reaches ACL L e ∧ PatternOf e p := by
  fun_induction aclUpdateValues Key ACL L Output Path generalizing Out with
  | case1 Output Path =>
    cases h
    refine ⟨fun E hE => absurd hE reaches_nil, fun e he => absurd he reaches_nil, fun p => ?_⟩
    rw [List.mem_reverse, or_iff_left]
    rintro ⟨e, he, -⟩
    exact reaches_nil he
  | case2 => cases h
  | case3 => cases h
  | case4 Output Path E L hP OtherL hE NewOutput hother ih₁ ih₂ =>
    obtain ⟨hres₁, hmal₁, hout₁⟩ := ih₁ hother
    obtain ⟨hres₂, hmal₂, hout₂⟩ := ih₂ h
    refine ⟨fun E' hE' => ?_, fun e he => ?_, fun p => ?_⟩
    · rcases (reaches_cons_atom hE).mp hE' with he | hr | hr
      · cases he
        exact ⟨hP, OtherL, hE, fun hr => (hres₁ E hr).1 List.mem_cons_self⟩
      · obtain ⟨hpath, hdef⟩ := hres₁ E' hr
        exact ⟨fun hm => hpath (List.mem_cons_of_mem _ hm), hdef⟩
      · exact hres₂ E' hr
    · rcases (reaches_cons_atom hE).mp he with rfl | hr | hr
      · exact id
      · exact hmal₁ e hr
      · exact hmal₂ e hr
    · rw [hout₂, hout₁, or_assoc]
      refine or_congr_right ⟨?_, ?_⟩
      · rintro (⟨e, he, hp⟩ | ⟨e, he, hp⟩)
        · exact ⟨e, (reaches_cons_atom hE).mpr (.inr (.inl he)), hp⟩
        · exact ⟨e, (reaches_cons_atom hE).mpr (.inr (.inr he)), hp⟩
      · rintro ⟨e, he, hp⟩
        rcases (reaches_cons_atom hE).mp he with rfl | hr | hr
        · obtain ⟨c, l, proper, he, -⟩ := hp
          cases he
        · exact .inl ⟨e, hr, hp⟩
        · exact .inr ⟨e, hr, hp⟩
  | case5 => cases h
  | case6 Output Path c l proper L p hp ih =>
    obtain ⟨hres, hmal, hout⟩ := ih h
    refine ⟨fun E' hE' => ?_, fun e he => ?_, fun q => ?_⟩
    · rcases reaches_cons_list.mp hE' with he | hr
      · cases he
      · exact hres E' hr
    · rcases reaches_cons_list.mp he with rfl | hr
      · exact pattern_ok hp
      · exact hmal e hr
    · rw [hout, List.mem_cons]
      constructor
      · rintro ((rfl | hq) | ⟨e, he, hq⟩)
        · exact .inr ⟨_, reaches_cons_list.mpr (.inl rfl), c, l, proper, rfl, hp⟩
        · exact .inl hq
        · exact .inr ⟨e, reaches_cons_list.mpr (.inr he), hq⟩
      · rintro (hq | ⟨e, he, hq⟩)
        · exact .inl (.inr hq)
        · rcases reaches_cons_list.mp he with rfl | hr
          · obtain ⟨c', l', proper', he, hp'⟩ := hq
            cases he
            cases hp.symm.trans hp'
            exact .inl (.inl rfl)
          · exact .inr ⟨e, hr, hq⟩
  | case7 => cases h
  | case8 => cases h

/-- What an error of the search for `Key` says of the list. -/
def Found (ACL : Dictionary Atom) (Key : Atom) (L : List (Elem Atom)) : AclError Atom → Prop
  | .aclCyclic K E => K = Key ∧ Reaches ACL L (.atom E) ∧ Cyclic ACL E
  | .aclNotFound E => Reaches ACL L (.atom E) ∧ ACL.lookup E = none
  | .aclInvalid e => Reaches ACL L e ∧ Malformed e
  | .aclInvalidDefinition _ _ => False
  | .raised _ => ∃ e, Reaches ACL L e ∧ Improper e

theorem Found.mono {err : AclError Atom} (h : Found ACL Key L err) (hr : ∀ e, Reaches ACL L e → Reaches ACL L' e) :
    Found ACL Key L' err := by
  cases err with
  | aclCyclic K E => exact ⟨h.1, hr _ h.2.1, h.2.2⟩
  | aclNotFound E => exact ⟨hr _ h.1, h.2⟩
  | aclInvalid e => exact ⟨hr _ h.1, h.2⟩
  | aclInvalidDefinition _ _ => exact h
  | raised _ =>
    obtain ⟨e, he, himp⟩ := h
    exact ⟨e, hr e he, himp⟩

theorem isPattern_error {proper Result : Bool} {e : Exn}
    (h : isPattern l proper Result = .error e) : e = .exitBadarg ∨ proper = false := by
  fun_induction isPattern l proper Result with
  | case1 => cases h
  | case2 => exact .inr rfl
  | case3 => exact .inl (Except.error.inj h).symm
  | case4 =>
    rename_i ih
    exact ih h
  | case5 =>
    rename_i ih
    exact ih h
  | case6 =>
    rename_i ih
    exact ih h

omit [DecidableEq Atom] in
/-- An error of a string: two wildcards in a row, or no proper list. -/
theorem pattern_error {c : ℤ} {proper : Bool} {err : AclError Atom}
    (h : pattern (some c :: l) proper = .error err) :
    (err = .aclInvalid (.list (some c :: l) proper) ∧ isPattern (some c :: l) proper false = .error .exitBadarg) ∨
      ∃ e, err = .raised e ∧ proper = false := by
  rw [pattern] at h
  split at h
  · cases h
  · cases h
  · rename_i he
    cases h
    exact .inl ⟨rfl, he⟩
  · rename_i e hne he
    cases h
    exact .inr ⟨e, rfl, (isPattern_error he).resolve_left hne⟩

/-- What an error of the search says is so, when the aliases of the path lead to the list. -/
theorem aclUpdateValues_error {err : AclError Atom} (h : aclUpdateValues Key ACL L Output Path = .error err)
    (hPath : ∀ E ∈ Path, ∃ OtherL, ACL.lookup E = some OtherL ∧ ∀ e, Reaches ACL L e → Reaches ACL OtherL e) :
    Found ACL Key L err := by
  fun_induction aclUpdateValues Key ACL L Output Path generalizing err with
  | case1 => cases h
  | case2 Output Path E L hP =>
    cases h
    obtain ⟨OtherL, hE, hr⟩ := hPath E hP
    exact ⟨rfl, .here List.mem_cons_self, OtherL, hE, hr _ (.here List.mem_cons_self)⟩
  | case3 Output Path E L hP hE =>
    cases h
    exact ⟨.here List.mem_cons_self, hE⟩
  | case4 Output Path E L hP OtherL hE NewOutput hother ih₁ ih₂ =>
    have hcons : ∀ e, Reaches ACL L e → Reaches ACL (.atom E :: L) e := fun e he =>
      (reaches_cons_atom hE).mpr (.inr (.inr he))
    refine (ih₂ h fun E' hE' => ?_).mono hcons
    obtain ⟨OtherL', hdef, hr⟩ := hPath E' hE'
    exact ⟨OtherL', hdef, fun e he => hr e (hcons e he)⟩
  | case5 Output Path E L hP OtherL hE e hother ih =>
    cases h
    have hcons : ∀ e, Reaches ACL OtherL e → Reaches ACL (.atom E :: L) e := fun e he =>
      (reaches_cons_atom hE).mpr (.inr (.inl he))
    refine (ih hother fun E' hE' => ?_).mono hcons
    rcases List.mem_cons.mp hE' with rfl | hE'
    · exact ⟨OtherL, hE, fun e he => he⟩
    · obtain ⟨OtherL', hdef, hr⟩ := hPath E' hE'
      exact ⟨OtherL', hdef, fun e he => hr e (hcons e he)⟩
  | case6 Output Path c l proper L p hp ih =>
    have hcons : ∀ e, Reaches ACL L e → Reaches ACL (.list (some c :: l) proper :: L) e := fun e he =>
      reaches_cons_list.mpr (.inr he)
    refine (ih h fun E' hE' => ?_).mono hcons
    obtain ⟨OtherL', hdef, hr⟩ := hPath E' hE'
    exact ⟨OtherL', hdef, fun e he => hr e (hcons e he)⟩
  | case7 Output Path c l proper L e hp =>
    cases h
    rcases pattern_error hp with ⟨rfl, hmal⟩ | ⟨e, rfl, himp⟩
    · exact ⟨.here List.mem_cons_self, hmal⟩
    · exact ⟨_, .here List.mem_cons_self, himp⟩
  | case8 Output Path e L hatom hlist =>
    cases h
    refine ⟨.here List.mem_cons_self, ?_⟩
    cases e with
    | atom E => exact (hatom E rfl).elim
    | list l proper =>
      cases l with
      | nil => trivial
      | cons c l =>
        cases c with
        | none => trivial
        | some c => exact (hlist c l proper rfl).elim
    | other => trivial

end

/-! ## The definitions -/

/-- The code of a character. -/
def IsChar (x : Option ℤ) : Prop := ∃ n, x = some n ∧ 0 ≤ n ∧ n ≤ 1114111

/-- A string with a wildcard, and no two in a row. -/
def IsPatternString : Elem Atom → Prop
  | .list l proper => proper = true ∧ (∀ x ∈ l, IsChar x) ∧ isPattern l proper false = .ok true
  | _ => False

/-- Its lists are strings. -/
def Regular : Elem Atom → Prop
  | .list l proper => proper = true ∧ ∀ x ∈ l, IsChar x
  | _ => True

/-- The definitions are lists of patterns. -/
def Expanded (ACL : Dictionary Atom) : Prop := ∀ E Value, ACL.lookup E = some Value → ∀ p ∈ Value, IsPatternString p

/-- The definitions with new ones; the last of an alias counts. -/
def define (L : List (Atom × List (Elem Atom))) (ACL : Dictionary Atom) : Dictionary Atom :=
  L.foldl (fun d x => d.insert x.1 x.2) ACL

/-- A definition starts with an alias or a string. -/
def Starts (Value : List (Elem Atom)) : Prop :=
  ∃ e rest, Value = e :: rest ∧ ((∃ E, e = .atom E) ∨ e.IsListOfInteger)

section

variable {ACL ACL' OldACL : Dictionary Atom} {L : List (Atom × List (Elem Atom))} {Value : List (Elem Atom)}
  {E Key : Atom} {e p : Elem Atom} {l : List (Option ℤ)} {proper Result : Bool} {err : AclError Atom}

theorem isPattern_true : isPattern l proper true ≠ .ok false := by
  generalize hR : true = R
  fun_induction isPattern l proper R with
  | case1 => rw [← hR]; exact fun h => by cases h
  | case2 => exact fun h => by cases h
  | case3 => exact fun h => by cases h
  | case4 =>
    rename_i ih
    exact ih rfl
  | case5 =>
    rename_i ih
    exact ih hR
  | case6 =>
    rename_i ih
    exact ih hR

theorem isPattern_append (h : isPattern l proper Result = .ok false) :
    isPattern (l ++ [some star]) proper Result = .ok true := by
  fun_induction isPattern l proper Result with
  | case1 => rfl
  | case2 => cases h
  | case3 => cases h
  | case4 => exact absurd h isPattern_true
  | case5 =>
    rename_i hne ih
    rw [List.cons_append, isPattern, if_neg hne]
    exact ih h
  | case6 =>
    rename_i ih
    exact ih h

theorem isPattern_proper {b : Bool} (h : isPattern l proper Result = .ok b) : proper = true := by
  fun_induction isPattern l proper Result with
  | case1 => rfl
  | case2 => cases h
  | case3 => cases h
  | case4 =>
    rename_i ih
    exact ih h
  | case5 =>
    rename_i ih
    exact ih h
  | case6 =>
    rename_i ih
    exact ih h

theorem isChar_star : IsChar (some star) := ⟨42, rfl, by decide, by decide⟩

omit [DecidableEq Atom] in
/-- The pattern of a list is a pattern string exactly when the list is a string. -/
theorem isPatternString_iff (h : pattern l proper = .ok p) : IsPatternString p ↔ ∀ x ∈ l, IsChar x := by
  rw [pattern] at h
  split at h
  · rename_i ht
    cases h
    exact ⟨fun hp => hp.2.1, fun hl => ⟨isPattern_proper ht, hl, ht⟩⟩
  · rename_i hf
    cases h
    refine ⟨fun hp x hx => hp.2.1 x (List.mem_append_left _ hx), fun hl =>
        ⟨isPattern_proper hf, fun x hx => ?_, isPattern_append hf⟩⟩
    rcases List.mem_append.mp hx with hx | hx
    · exact hl x hx
    · rw [List.mem_singleton.mp hx]
      exact isChar_star
  · cases h
  · cases h

omit [DecidableEq Atom] in
theorem PatternOf.isPatternString (h : PatternOf e p) (he : Regular e) : IsPatternString p := by
  obtain ⟨c, l, proper, rfl, hp⟩ := h
  exact (isPatternString_iff hp).mpr he.2

omit [DecidableEq Atom] in
theorem IsPatternString.regular (h : IsPatternString p) : Regular p := by
  cases p with
  | atom E => trivial
  | list l proper => exact ⟨h.1, h.2.1⟩
  | other => trivial

theorem Reaches.regular (hACL : ∀ E OtherL, ACL.lookup E = some OtherL → ∀ e ∈ OtherL, Regular e)
    (hV : ∀ e ∈ Value, Regular e) (h : Reaches ACL Value e) : Regular e := by
  induction h with
  | here he => exact hV _ he
  | through _ hE _ ih => exact ih (hACL _ _ hE)

theorem define_not_mem (h : E ∉ L.map Prod.fst) : (define L ACL).lookup E = ACL.lookup E := by
  induction L generalizing ACL with
  | nil => rfl
  | cons x L ih =>
    rw [List.map_cons, List.mem_cons, not_or] at h
    rw [define, List.foldl_cons]
    refine (ih h.2).trans (AList.lookup_insert_ne h.1)

theorem define_mem (h : E ∈ L.map Prod.fst) : ∃ Value, (define L ACL).lookup E = some Value ∧ (E, Value) ∈ L := by
  induction L generalizing ACL with
  | nil => cases h
  | cons x L ih =>
    rw [define, List.foldl_cons]
    by_cases hL : E ∈ L.map Prod.fst
    · obtain ⟨Value, hv, hm⟩ := @ih (ACL.insert x.1 x.2) hL
      exact ⟨Value, hv, List.mem_cons_of_mem _ hm⟩
    · rw [List.map_cons, List.mem_cons, or_iff_left hL] at h
      refine ⟨x.2, (define_not_mem hL).trans ?_, ?_⟩
      · rw [h, AList.lookup_insert]
      · rw [h]
        exact List.mem_cons_self

theorem aclStore_ok (h : aclStore L ACL = .ok ACL') : ACL' = define L ACL ∧ ∀ x ∈ L, Starts x.2 := by
  fun_induction aclStore L ACL with
  | case1 =>
    cases h
    exact ⟨rfl, fun x hx => by cases hx⟩
  | case2 =>
    rename_i ih
    obtain ⟨hd, hs⟩ := ih h
    refine ⟨hd, fun x hx => ?_⟩
    rcases List.mem_cons.mp hx with rfl | hx
    · exact ⟨_, _, rfl, .inl ⟨_, rfl⟩⟩
    · exact hs x hx
  | case3 =>
    rename_i ih
    obtain ⟨hd, hs⟩ := ih h
    refine ⟨hd, fun x hx => ?_⟩
    rcases List.mem_cons.mp hx with rfl | hx
    · exact ⟨_, _, rfl, .inr trivial⟩
    · exact hs x hx
  | case4 => cases h

theorem aclStore_error (h : aclStore L ACL = .error err) :
    ∃ x ∈ L, err = .aclInvalidDefinition x.1 x.2 ∧ ¬ Starts x.2 := by
  fun_induction aclStore L ACL with
  | case1 => cases h
  | case2 =>
    rename_i ih
    obtain ⟨x, hx, hs⟩ := ih h
    exact ⟨x, List.mem_cons_of_mem _ hx, hs⟩
  | case3 =>
    rename_i ih
    obtain ⟨x, hx, hs⟩ := ih h
    exact ⟨x, List.mem_cons_of_mem _ hx, hs⟩
  | case4 ACL Key Value L hatom hlist =>
    cases h
    refine ⟨_, List.mem_cons_self, rfl, ?_⟩
    rintro ⟨e, rest, hV, ⟨E, rfl⟩ | hl⟩
    · exact hatom E rest hV
    · cases e with
      | atom E => cases hl
      | list l proper =>
        cases l with
        | nil => cases hl
        | cons c l =>
          cases c with
          | none => cases hl
          | some c => exact hlist c l proper rest hV
      | other => cases hl

theorem aclUpdate_ok {ACLFinal : Dictionary Atom} (ACL₀ : Dictionary Atom) (h : aclUpdate ACL L ACLFinal = .ok ACL') :
    (∀ x ∈ L, ∃ Out, aclUpdateValues x.1 ACL x.2 [] [] = .ok Out) ∧
      (∀ E ∉ L.map Prod.fst, ACL'.lookup E = ACLFinal.lookup E) ∧
      ∀ E ∈ L.map Prod.fst, ∃ Value Out, (define L ACL₀).lookup E = some Value ∧
        aclUpdateValues E ACL Value [] [] = .ok Out ∧ ACL'.lookup E = some Out := by
  induction L generalizing ACLFinal ACL₀ with
  | nil =>
    cases h
    exact ⟨fun x hx => (by cases hx), fun _ _ => rfl, fun E hE => by cases hE⟩
  | cons x L ih =>
    obtain ⟨NewValue, hv, h⟩ := bind_eq_ok h
    obtain ⟨hall, hnot, hin⟩ := ih (ACL₀.insert x.1 x.2) h
    refine ⟨fun y hy => ?_, fun E hE => ?_, fun E hE => ?_⟩
    · rcases List.mem_cons.mp hy with rfl | hy
      · exact ⟨NewValue, hv⟩
      · exact hall y hy
    · rw [List.map_cons, List.mem_cons, not_or] at hE
      exact (hnot E hE.2).trans (AList.lookup_insert_ne hE.1)
    · by_cases hL : E ∈ L.map Prod.fst
      · exact hin E hL
      · rw [List.map_cons, List.mem_cons, or_iff_left hL] at hE
        subst hE
        refine ⟨x.2, NewValue, (define_not_mem hL).trans (AList.lookup_insert _), hv, ?_⟩
        exact (hnot _ hL).trans (AList.lookup_insert _)

theorem aclUpdate_error {ACLFinal : Dictionary Atom} (h : aclUpdate ACL L ACLFinal = .error err) :
    ∃ x ∈ L, aclUpdateValues x.1 ACL x.2 [] [] = .error err := by
  induction L generalizing ACLFinal with
  | nil => cases h
  | cons x L ih =>
    rw [aclUpdate] at h
    cases hv : aclUpdateValues x.1 ACL x.2 [] [] with
    | error e =>
      rw [hv] at h
      cases h
      exact ⟨x, List.mem_cons_self, hv⟩
    | ok NewValue =>
      rw [bind_ok hv] at h
      obtain ⟨y, hy, he⟩ := ih h
      exact ⟨y, List.mem_cons_of_mem _ hy, he⟩

/-- No alias that is reached is undefined or on a cycle, and nothing is malformed. -/
structure Sound (ACL : Dictionary Atom) (Value : List (Elem Atom)) : Prop where
  starts : Starts Value
  defined : ∀ E, Reaches ACL Value (.atom E) → ACL.lookup E ≠ none
  acyclic : ∀ E, Reaches ACL Value (.atom E) → ¬ Cyclic ACL E
  wellFormed : ∀ e, Reaches ACL Value e → ¬ Malformed e

theorem sound_of_ok {Out : List (Elem Atom)} (hs : Starts Value) (h : aclUpdateValues Key ACL Value [] [] = .ok Out) :
    Sound ACL Value := by
  obtain ⟨hres, hmal, -⟩ := aclUpdateValues_ok h
  refine ⟨hs, fun E hE hn => ?_, fun E hE hc => ?_, hmal⟩
  · obtain ⟨-, OtherL, hdef, -⟩ := hres E hE
    rw [hn] at hdef
    cases hdef
  · obtain ⟨-, OtherL, hdef, hcyc⟩ := hres E hE
    obtain ⟨OtherL', hdef', hr⟩ := hc
    cases hdef.symm.trans hdef'
    exact hcyc hr

/-- What a definition that is not sound is rejected for. -/
def Rejects (ACL : Dictionary Atom) (Key : Atom) (Value : List (Elem Atom)) : AclError Atom → Prop
  | .aclCyclic K E => K = Key ∧ Reaches ACL Value (.atom E) ∧ Cyclic ACL E
  | .aclNotFound E => Reaches ACL Value (.atom E) ∧ ACL.lookup E = none
  | .aclInvalid e => Reaches ACL Value e ∧ Malformed e
  | .aclInvalidDefinition K V => K = Key ∧ V = Value ∧ ¬ Starts Value
  | .raised _ => False

/-- The new definitions are expanded, or one of them is rejected for what it
reaches. -/
theorem aclLookupAdd_spec (hL : ∀ x ∈ L, ∀ e ∈ x.2, Regular e) (hOld : Expanded OldACL) :
    match aclLookupAdd L OldACL with
    | .ok ACL => (∀ x ∈ L, Sound (define L OldACL) x.2) ∧ Expanded ACL ∧
        (∀ E ∉ L.map Prod.fst, ACL.lookup E = OldACL.lookup E) ∧
        ∀ E ∈ L.map Prod.fst, ∃ Value Out, (define L OldACL).lookup E = some Value ∧ ACL.lookup E = some Out ∧
          ∀ p, p ∈ Out ↔ ∃ e, Reaches (define L OldACL) Value e ∧ PatternOf e p
    | .error err => ∃ x ∈ L, Rejects (define L OldACL) x.1 x.2 err := by
  have hdefine : ∀ E Value, (define L OldACL).lookup E = some Value → ∀ e ∈ Value, Regular e := by
    intro E Value hE e he
    by_cases hm : E ∈ L.map Prod.fst
    · obtain ⟨V, hV, hx⟩ := @define_mem _ _ OldACL _ _ hm
      cases hE.symm.trans hV
      exact hL _ hx e he
    · rw [define_not_mem hm] at hE
      exact (hOld E Value hE e he).regular
  rw [aclLookupAdd]
  cases hstore : aclStore L OldACL with
  | error err =>
    obtain ⟨x, hx, rfl, hs⟩ := aclStore_error hstore
    exact ⟨x, hx, rfl, rfl, hs⟩
  | ok NewACL =>
    obtain ⟨rfl, hstarts⟩ := aclStore_ok hstore
    rw [bind_ok rfl]
    cases hupdate : aclUpdate (define L OldACL) L OldACL with
    | error err =>
      obtain ⟨x, hx, he⟩ := aclUpdate_error hupdate
      have hfound := aclUpdateValues_error he fun E hE => by cases hE
      refine ⟨x, hx, ?_⟩
      cases err with
      | raised _ =>
        obtain ⟨e, hr, himp⟩ := hfound
        have hreg := hr.regular hdefine (hL x hx)
        cases e with
        | list l proper => cases himp.symm.trans hreg.1
        | atom _ => exact himp
        | other => exact himp
      | aclCyclic _ _ => exact hfound
      | aclNotFound _ => exact hfound
      | aclInvalid _ => exact hfound
      | aclInvalidDefinition _ _ => exact hfound.elim
    | ok ACL =>
      obtain ⟨hall, hnot, hin⟩ := aclUpdate_ok OldACL hupdate
      have hmaps : ∀ E ∈ L.map Prod.fst, ∃ Value Out, (define L OldACL).lookup E = some Value ∧
          ACL.lookup E = some Out ∧ ∀ p, p ∈ Out ↔ ∃ e, Reaches (define L OldACL) Value e ∧ PatternOf e p := by
        intro E hE
        obtain ⟨Value, Out, hV, hr, hOut⟩ := hin E hE
        refine ⟨Value, Out, hV, hOut, fun p => ?_⟩
        rw [(aclUpdateValues_ok hr).2.2, or_iff_right List.not_mem_nil]
      refine ⟨fun x hx => ?_, fun E Out hE p hp => ?_, hnot, hmaps⟩
      · obtain ⟨Out, hr⟩ := hall x hx
        exact sound_of_ok (hstarts x hx) hr
      · by_cases hm : E ∈ L.map Prod.fst
        · obtain ⟨Value, Out', hV, hOut, hiff⟩ := hmaps E hm
          cases hE.symm.trans hOut
          obtain ⟨e, hr, hpat⟩ := (hiff p).mp hp
          exact hpat.isPatternString (hr.regular hdefine (hdefine E Value hV))
        · rw [hnot E hm] at hE
          exact hOld E Out hE p hp

end

/-! ## The lists of a service -/

/-- An element for which the expansion ends with an error. -/
def Stops (ACL : Dictionary Atom) : Elem Atom → Prop
  | .atom E => ACL.lookup E = none
  | .list (some c :: l) proper => isPattern (some c :: l) proper false = .error .exitBadarg
  | _ => False

/-- An element without a clause: it is neither an alias nor a list that starts
with an integer, or the list is improper. -/
def Raises : Elem Atom → Prop
  | .atom _ => False
  | .list (some c :: l) proper => ∃ e, e ≠ .exitBadarg ∧ isPattern (some c :: l) proper false = .error e
  | _ => True

/-- A list that starts with an integer and is no string. -/
def Odd : Elem Atom → Prop
  | .list (some c :: l) _ => ∃ x ∈ some c :: l, ¬ IsChar x
  | _ => False

/-- No element raises before one ends the expansion. -/
def Regulated (ACL : Dictionary Atom) : List (Elem Atom) → Prop
  | [] => True
  | e :: L => ¬ Raises e ∧ (Stops ACL e ∨ Regulated ACL L)

/-- The elements of a list of a service. -/
def DestList.elements : DestList Atom → List (Elem Atom)
  | .list L => L
  | _ => []

/-- The condition on the lists: what comes before the first rejected element
has a clause, and without a rejected element each list of integers is a string. -/
structure Kept (ACL : Dictionary Atom) (L : List (Elem Atom)) : Prop where
  regulated : Regulated ACL L
  strings : (∃ e ∈ L, Stops ACL e) ∨ ∀ e ∈ L, ¬ Odd e

/-- Lists of pattern strings, or an error that names what is wrong. -/
def Accepts : Except (AclError Atom) (DestList Atom × DestList Atom) → Prop
  | .ok (deny, allow) => (∀ p ∈ deny.elements, IsPatternString p) ∧ ∀ p ∈ allow.elements, IsPatternString p
  | .error (.aclInvalid _) => True
  | .error (.aclNotFound _) => True
  | .error _ => False

/-- The patterns of an element. -/
def ExpandsTo (ACL : Dictionary Atom) (e p : Elem Atom) : Prop :=
  (∃ E Value, e = .atom E ∧ ACL.lookup E = some Value ∧ p ∈ Value) ∨ PatternOf e p

/-- An element that is expanded. -/
def Clear (ACL : Dictionary Atom) (e : Elem Atom) : Prop := ¬ Stops ACL e ∧ ¬ Raises e

/-- The error of the first element that is not expanded. -/
def Rejected (ACL : Dictionary Atom) (L : List (Elem Atom)) (err : AclError Atom) : Prop :=
  ∃ l₁ e l₂, L = l₁ ++ e :: l₂ ∧ (∀ x ∈ l₁, Clear ACL x) ∧
    ((Stops ACL e ∧ ((∃ E, err = .aclNotFound E) ∨ ∃ x, err = .aclInvalid x)) ∨ (Raises e ∧ ∃ x, err = .raised x))

section

variable {ACL : Dictionary Atom} {L L' Output : List (Elem Atom)} {e p : Elem Atom} {err : AclError Atom}

theorem Rejected.cons (he : Clear ACL e) (h : Rejected ACL L err) : Rejected ACL (e :: L) err := by
  obtain ⟨l₁, x, l₂, rfl, hclear, hx⟩ := h
  refine ⟨e :: l₁, x, l₂, rfl, fun y hy => ?_, hx⟩
  rcases List.mem_cons.mp hy with rfl | hy
  · exact he
  · exact hclear y hy

theorem Rejected.append (hL : ∀ e ∈ L, Clear ACL e) (h : Rejected ACL L' err) : Rejected ACL (L ++ L') err := by
  induction L with
  | nil => exact h
  | cons e L ih =>
    exact (ih fun x hx => hL x (List.mem_cons_of_mem _ hx)).cons (hL e List.mem_cons_self)

theorem Rejected.append_right (h : Rejected ACL L err) : Rejected ACL (L ++ L') err := by
  obtain ⟨l₁, x, l₂, rfl, hclear, hx⟩ := h
  exact ⟨l₁, x, l₂ ++ L', by rw [List.append_assoc, List.cons_append], hclear, hx⟩

/-- The result of the expansion of a list. -/
def Expands (ACL : Dictionary Atom) (L Output : List (Elem Atom)) : Except (AclError Atom) (List (Elem Atom)) → Prop
  | .ok Out => (∀ e ∈ L, Clear ACL e) ∧ ∀ p, p ∈ Out ↔ p ∈ Output ∨ ∃ e ∈ L, ExpandsTo ACL e p
  | .error err => Rejected ACL L err

theorem Expands.cons {New : List (Elem Atom)} {r : Except (AclError Atom) (List (Elem Atom))} (he : Clear ACL e)
    (hnew : ∀ p, p ∈ New ↔ p ∈ Output ∨ ExpandsTo ACL e p) (h : Expands ACL L New r) :
    Expands ACL (e :: L) Output r := by
  cases r with
  | error err => exact Rejected.cons he h
  | ok Out =>
    refine ⟨fun x hx => ?_, fun p => ?_⟩
    · rcases List.mem_cons.mp hx with rfl | hx
      · exact he
      · exact h.1 x hx
    · rw [h.2, hnew, or_assoc]
      refine or_congr_right ?_
      constructor
      · rintro (hp | ⟨x, hx, hp⟩)
        · exact ⟨e, List.mem_cons_self, hp⟩
        · exact ⟨x, List.mem_cons_of_mem _ hx, hp⟩
      · rintro ⟨x, hx, hp⟩
        rcases List.mem_cons.mp hx with rfl | hx
        · exact .inl hp
        · exact .inr ⟨x, hx, hp⟩

theorem rejected_cons (h : (Stops ACL e ∧ ((∃ E, err = .aclNotFound E) ∨ ∃ x, err = .aclInvalid x)) ∨
    (Raises e ∧ ∃ x, err = .raised x)) : Rejected ACL (e :: L) err :=
  ⟨[], e, L, rfl, fun x hx => (by cases hx), h⟩

omit [DecidableEq Atom] in
theorem pattern_clear {c : ℤ} {l : List (Option ℤ)} {proper : Bool} (h : pattern (some c :: l) proper = .ok p)
    (e : Exn) :
    isPattern (some c :: l) proper false ≠ .error e := by
  intro he
  rw [pattern, he] at h
  cases e <;> cases h

theorem serviceAclExpand_spec (ACL : Dictionary Atom) (L Output : List (Elem Atom)) :
    Expands ACL L Output (serviceAclExpand ACL L Output) := by
  induction L generalizing Output with
  | nil =>
    refine ⟨fun x hx => (by cases hx), fun p => ?_⟩
    rw [List.mem_reverse, or_iff_left]
    rintro ⟨x, hx, -⟩
    cases hx
  | cons e L ih =>
    cases e with
    | atom E =>
      rw [serviceAclExpand]
      cases hE : ACL.lookup E with
      | none => exact rejected_cons (.inl ⟨hE, .inl ⟨E, rfl⟩⟩)
      | some Value =>
        refine (ih (Value ++ Output)).cons ⟨fun hs => ?_, id⟩ fun p => ?_
        · exact Option.some_ne_none Value (hE.symm.trans hs)
        · rw [List.mem_append, or_comm]
          refine or_congr_right ⟨fun hp => .inl ⟨E, Value, rfl, hE, hp⟩, ?_⟩
          rintro (⟨E', Value', he, hE', hp⟩ | ⟨c, l, proper, he, -⟩)
          · cases he
            cases hE.symm.trans hE'
            exact hp
          · cases he
    | other => exact rejected_cons (.inr ⟨trivial, _, rfl⟩)
    | list l proper =>
      cases l with
      | nil => exact rejected_cons (.inr ⟨trivial, _, rfl⟩)
      | cons c l =>
        cases c with
        | none => exact rejected_cons (.inr ⟨trivial, _, rfl⟩)
        | some c =>
          rw [serviceAclExpand]
          cases hp : pattern (some c :: l) proper with
          | error err =>
            rcases pattern_error hp with ⟨rfl, hs⟩ | ⟨e, rfl, himp⟩
            · exact rejected_cons (.inl ⟨hs, .inr ⟨_, rfl⟩⟩)
            · refine rejected_cons (.inr ⟨?_, e, rfl⟩)
              rw [pattern] at hp
              split at hp
              · cases hp
              · cases hp
              · cases hp
              · rename_i e' hne he'
                exact ⟨e', hne, he'⟩
          | ok p =>
            refine (ih (p :: Output)).cons ⟨pattern_clear hp .exitBadarg, ?_⟩ fun q => ?_
            · rintro ⟨e, -, he⟩
              exact pattern_clear hp e he
            · rw [List.mem_cons, or_comm]
              refine or_congr_right ⟨?_, ?_⟩
              · rintro rfl
                exact .inr ⟨c, l, proper, rfl, hp⟩
              · rintro (⟨E, Value, he, -⟩ | ⟨c', l', proper', he, hq⟩)
                · cases he
                · cases he
                  exact Except.ok.inj (hq.symm.trans hp)

/-- What the expansion of the list of a service returns. -/
theorem serviceAclExpandList_spec (ACL : Dictionary Atom) (d : DestList Atom) :
    match serviceAclExpandList ACL d with
    | .ok d' => (∀ e ∈ d.elements, Clear ACL e) ∧ ∀ p, p ∈ d'.elements ↔ ∃ e ∈ d.elements, ExpandsTo ACL e p
    | .error err => Rejected ACL d.elements err := by
  have hempty : (∀ e ∈ ([] : List (Elem Atom)), Clear ACL e) ∧
      ∀ p, p ∈ ([] : List (Elem Atom)) ↔ ∃ e ∈ ([] : List (Elem Atom)), ExpandsTo ACL e p := by
    simp
  cases d with
  | invalid => exact hempty
  | undefined => exact hempty
  | list L =>
    have hspec := serviceAclExpand_spec ACL L []
    rw [serviceAclExpandList]
    cases hr : serviceAclExpand ACL L [] with
    | error err =>
      rw [hr] at hspec
      exact hspec
    | ok Out =>
      rw [hr] at hspec
      refine ⟨hspec.1, fun p => ?_⟩
      exact (hspec.2 p).trans (or_iff_right List.not_mem_nil)

theorem stops_not_raises (h : Stops ACL e) : ¬ Raises e := by
  cases e with
  | atom E => exact id
  | other => exact h.elim
  | list l proper =>
    cases l with
    | nil => exact h.elim
    | cons c l =>
      cases c with
      | none => exact h.elim
      | some c =>
        rintro ⟨e, hne, he⟩
        exact hne (Except.error.inj (he.symm.trans h))

theorem regulated_append (hL : ∀ e ∈ L, Clear ACL e) : Regulated ACL (L ++ L') ↔ Regulated ACL L' := by
  induction L with
  | nil => exact Iff.rfl
  | cons e L ih =>
    have he := hL e List.mem_cons_self
    rw [List.cons_append, Regulated, ih fun x hx => hL x (List.mem_cons_of_mem _ hx)]
    exact ⟨fun h => h.2.resolve_left he.1, fun h => ⟨he.2, .inr h⟩⟩

/-- A list with a rejected element is kept exactly when the element does not raise. -/
theorem kept_of_rejected (h : Rejected ACL L err) : Kept ACL L ↔ ∀ x, err ≠ .raised x := by
  obtain ⟨l₁, e, l₂, rfl, hclear, ⟨hs, herr⟩ | ⟨hr, x, rfl⟩⟩ := h
  · refine iff_of_true ⟨?_, .inl ⟨e, List.mem_append_right _ List.mem_cons_self, hs⟩⟩ fun x hx => ?_
    · rw [regulated_append hclear]
      exact ⟨stops_not_raises hs, .inl hs⟩
    · rcases herr with ⟨E, rfl⟩ | ⟨y, rfl⟩ <;> cases hx
  · refine iff_of_false (fun h => ?_) fun h => h x rfl
    have := h.regulated
    rw [regulated_append hclear] at this
    exact this.1 hr

/-- Without a rejected element the patterns are strings exactly when the list is kept. -/
theorem kept_of_clear (hACL : Expanded ACL) (hL : ∀ e ∈ L, Clear ACL e) :
    Kept ACL L ↔ ∀ p, (∃ e ∈ L, ExpandsTo ACL e p) → IsPatternString p := by
  have hregulated : Regulated ACL L := by
    have := (@regulated_append _ _ _ _ [] hL).mpr trivial
    rwa [List.append_nil] at this
  refine ⟨fun h p hp => ?_, fun h => ⟨hregulated, .inr fun e he ho => ?_⟩⟩
  · obtain ⟨e, he, hp⟩ := hp
    rcases hp with ⟨E, Value, rfl, hE, hp⟩ | ⟨c, l, proper, rfl, hp⟩
    · exact hACL E Value hE p hp
    · have hodd := h.strings.resolve_left (fun ⟨x, hx, hs⟩ => (hL x hx).1 hs) _ he
      exact (isPatternString_iff hp).mpr fun x hx => by_contra fun hn => hodd ⟨x, hx, hn⟩
  · cases e with
    | atom E => exact ho
    | other => exact ho
    | list l proper =>
      cases l with
      | nil => exact ho
      | cons c l =>
        cases c with
        | none => exact ho
        | some c =>
          obtain ⟨x, hx, hn⟩ := ho
          have hclear := hL _ he
          cases hp : @pattern Atom (some c :: l) proper with
          | ok p => exact hn ((isPatternString_iff hp).mp (h p ⟨_, he, .inr ⟨c, l, proper, rfl, hp⟩⟩) x hx)
          | error err =>
            rw [pattern] at hp
            split at hp
            · cases hp
            · cases hp
            · rename_i hs
              exact hclear.1 hs
            · rename_i e' hne he'
              exact hclear.2 ⟨e', hne, he'⟩

/-- The lists of a service are expanded, or an element is rejected, exactly
when they are kept. -/
theorem serviceAclExpandLists_iff (hACL : Expanded ACL) (DestListDeny DestListAllow : DestList Atom) :
    Accepts (serviceAclExpandLists DestListDeny DestListAllow ACL) ↔
      Kept ACL (DestListDeny.elements ++ DestListAllow.elements) := by
  have hrejected : ∀ {err : AclError Atom}, Rejected ACL (DestListDeny.elements ++ DestListAllow.elements) err →
      (Accepts (.error err : Except (AclError Atom) (DestList Atom × DestList Atom)) ↔
        Kept ACL (DestListDeny.elements ++ DestListAllow.elements)) := by
    intro err h
    rw [kept_of_rejected h]
    obtain ⟨_, _, _, -, -, ⟨-, ⟨E, rfl⟩ | ⟨x, rfl⟩⟩ | ⟨-, x, rfl⟩⟩ := h
    · exact iff_of_true trivial fun _ hx => by cases hx
    · exact iff_of_true trivial fun _ hx => by cases hx
    · exact iff_of_false id fun h => h x rfl
  rw [serviceAclExpandLists]
  have hdeny := serviceAclExpandList_spec ACL DestListDeny
  have hallow := serviceAclExpandList_spec ACL DestListAllow
  cases hd : serviceAclExpandList ACL DestListDeny with
  | error err =>
    rw [hd] at hdeny
    exact hrejected hdeny.append_right
  | ok deny =>
    rw [hd] at hdeny
    rw [bind_ok rfl]
    cases ha : serviceAclExpandList ACL DestListAllow with
    | error err =>
      rw [ha] at hallow
      exact hrejected (hallow.append hdeny.1)
    | ok allow =>
      rw [ha] at hallow
      rw [bind_ok rfl, kept_of_clear hACL fun e he => ?_]
      · constructor
        · rintro ⟨h₁, h₂⟩ p ⟨e, he, hp⟩
          rcases List.mem_append.mp he with he | he
          · exact h₁ p ((hdeny.2 p).mpr ⟨e, he, hp⟩)
          · exact h₂ p ((hallow.2 p).mpr ⟨e, he, hp⟩)
        · intro h
          refine ⟨fun p hp => ?_, fun p hp => ?_⟩
          · obtain ⟨e, he, hp⟩ := (hdeny.2 p).mp hp
            exact h p ⟨e, List.mem_append_left _ he, hp⟩
          · obtain ⟨e, he, hp⟩ := (hallow.2 p).mp hp
            exact h p ⟨e, List.mem_append_right _ he, hp⟩
      · rcases List.mem_append.mp he with he | he
        · exact hdeny.1 e he
        · exact hallow.1 e he

end

/-- New definitions of strings and aliases are expanded to the patterns that
they reach, or rejected for a cycle, an alias that is not defined or a
malformed element that one of them reaches. The lists of a service are expanded
to pattern strings, or rejected, exactly when they are kept. -/
theorem acl_expansion {ACL : Dictionary Atom} (hACL : Expanded ACL) :
    (∀ L : List (Atom × List (Elem Atom)), (∀ x ∈ L, ∀ e ∈ x.2, Regular e) →
      match aclLookupAdd L ACL with
      | .ok NewACL => (∀ x ∈ L, Sound (define L ACL) x.2) ∧ Expanded NewACL ∧
          (∀ E ∉ L.map Prod.fst, NewACL.lookup E = ACL.lookup E) ∧
          ∀ E ∈ L.map Prod.fst, ∃ Value Out, (define L ACL).lookup E = some Value ∧ NewACL.lookup E = some Out ∧
            ∀ p, p ∈ Out ↔ ∃ e, Reaches (define L ACL) Value e ∧ PatternOf e p
      | .error err => ∃ x ∈ L, Rejects (define L ACL) x.1 x.2 err) ∧
    ∀ DestListDeny DestListAllow : DestList Atom, Accepts (serviceAclExpandLists DestListDeny DestListAllow ACL) ↔
      Kept ACL (DestListDeny.elements ++ DestListAllow.elements) :=
  ⟨fun _ hL => aclLookupAdd_spec hL hACL, serviceAclExpandLists_iff hACL⟩

/-- An alias of two that are defined is one more definition; a service has a list with it and a string. -/
theorem acl_expansion_string :
    let ACL : Dictionary ℕ := (∅ : Dictionary ℕ).insert 0 [.list [some 47, some 42] true]
    ∃ NewACL, aclLookupAdd [(1, [.atom 0, .list [some 98] true])] ACL = .ok NewACL ∧ Expanded NewACL ∧
      Accepts (serviceAclExpandLists (.list [.atom 0, .list [some 98] true]) .undefined ACL) := by
  intro ACL
  have hACL : Expanded ACL := by
    intro E Value h p hp
    rcases eq_or_ne E 0 with rfl | hne
    · rw [AList.lookup_insert] at h
      cases h
      rw [List.mem_singleton.mp hp]
      exact ⟨rfl, by simp [IsChar], rfl⟩
    · rw [AList.lookup_insert_ne hne] at h
      cases h
  obtain ⟨NewACL, hr⟩ : ∃ NewACL, aclLookupAdd [(1, [.atom 0, .list [some 98] true])] ACL = .ok NewACL := by
    have hl : ((AList.insert 1 [.atom 0, .list [some 98] true] ACL) : Dictionary ℕ).lookup 0 =
        some [.list [some 47, some 42] true] := rfl
    have hv : aclUpdateValues 1 (AList.insert 1 [.atom 0, .list [some 98] true] ACL)
        [.atom 0, .list [some 98] true] [] [] = .ok [.list [some 47, some 42] true, .list [some 98, some 42] true] := by
      rw [aclUpdateValues, dif_neg List.not_mem_nil]
      split
      · rename_i h
        cases hl.symm.trans h
      · rename_i OtherL h
        cases hl.symm.trans h
        simp [aclUpdateValues, pattern, isPattern, star]
    exact ⟨_, by rw [aclLookupAdd, aclStore, aclStore]; exact (bind_ok rfl _).trans (bind_ok hv _)⟩
  have h := (acl_expansion hACL).1 [(1, [.atom 0, .list [some 98] true])] (by simp [Regular, IsChar])
  rw [hr] at h
  refine ⟨NewACL, hr, h.2.1, ((acl_expansion hACL).2 _ _).mpr ⟨?_, .inr fun e he ho => ?_⟩⟩
  · refine ⟨nofun, .inr ⟨?_, .inr trivial⟩⟩
    rintro ⟨e, -, he⟩
    cases he
  · rcases List.mem_cons.mp he with rfl | he
    · exact ho
    · rw [List.mem_singleton.mp he] at ho
      obtain ⟨x, hx, hn⟩ := ho
      rw [List.mem_singleton.mp hx] at hn
      exact hn ⟨98, rfl, by decide, by decide⟩

/-- A tuple in the list. -/
theorem not_acl_expansion : ¬ ∀ DestListDeny DestListAllow : DestList ℕ,
    Accepts (serviceAclExpandLists DestListDeny DestListAllow ∅) := by
  intro h
  exact h (.list [.other]) .undefined

end CloudI.Configurator.Acl
