/-
  ClassOutline.Proofs.Statement.Parameters
  ────────────────────────────────
  **PARAMETERS STAY APART WHERE A COMMA IS MISSING.**

  A text that is read as a parameter begins with its stars or with its name
  (`exists_of_parameter?`), so it does not join what stands before it and is no
  string.  If it does not end in an operator either, and is no connecting keyword,
  it stays an item of its own wherever it stands in a row.  So a list of such texts
  is read as the same parameters whichever commas are missing, and nothing is
  reported but the runs that lack one (`parameters_of_runs`).
-/
import ClassOutline.Proofs.Initializer.Literals
import ClassOutline.Proofs.Nesting.Closed
import ClassOutline.Proofs.Nesting.Signs
import ClassOutline.Statement.Parameter

namespace ClassOutline.Text

/-! ## §1. What is read as a parameter. -/

/-- Stars and the rest make up the text. -/
theorem stars_append_starred (t : Text) : (starred t).1.stars ++ (starred t).2 = t := by
  unfold starred
  split <;> rfl

/-- The name of a target is the front of its text, up to a colon if there is one. -/
theorem exists_of_target (t : Text) :
    ∃ before after, t = before ++ after ∧ before.trim = (target t).name
      ∧ ∀ c ∈ after.head?, c = ':' := by
  unfold target
  split
  · next b hb =>
    have colon : b.char = ':' := eq_of_beq (char_of_breakUnits? hb)
    refine ⟨b.before, b.char :: b.after, eq_of_breakTopLevel? hb, rfl, fun c hc => ?_⟩
    exact (Option.some.inj hc).symm.trans colon
  · exact ⟨t, [], (List.append_nil t).symm, rfl, by simp⟩

/-- What stands before the sign of a parameter, or all of it. -/
def beforeSign (t : Text) : Text :=
  match t.assignment? with
  | some a => if a.isAugmented then t else a.target
  | none => t

/-- What stands behind the sign of a parameter. -/
def behindSign? (t : Text) : Option Text :=
  match t.assignment? with
  | some a => if a.isAugmented then none else some a.value.trim
  | none => none

theorem parameter?_eq (t : Text) :
    parameter? t
      = if isName (target (beforeSign (starred t).2)).name then
          some ⟨(target (beforeSign (starred t).2)).name, (starred t).1,
            Target.annotation (target (beforeSign (starred t).2)),
            (behindSign? (starred t).2).filter fun d => !d.isEmpty⟩
        else none := by
  unfold parameter? beforeSign behindSign?
  obtain ⟨kind, rest⟩ := starred t
  dsimp only
  cases rest.assignment? with
  | none => rfl
  | some a =>
      by_cases haugmented : a.isAugmented = true
      · simp [haugmented]
      · simp [haugmented]

/-- Behind what stands before it the sign begins, if there is one. -/
theorem exists_of_beforeSign (t : Text) :
    ∃ behind, t = beforeSign t ++ behind ∧ ∀ c ∈ behind.head?, c = '=' := by
  have whole : ∃ behind, t = t ++ behind ∧ ∀ c ∈ behind.head?, c = '=' :=
    ⟨[], (List.append_nil t).symm, by simp⟩
  unfold beforeSign
  cases ha : t.assignment? with
  | none => exact whole
  | some a =>
      dsimp only
      split
      · exact whole
      · next hplain =>
        have noOperator : a.operator = [] := by simpa [Assignment.isAugmented] using hplain
        have parts := eq_of_assignment? ha
        rw [noOperator, List.nil_append] at parts
        exact ⟨_, parts, by simp⟩

/-- **HOW A PARAMETER IS READ**: stars, then its name, up to a colon or a sign if there is one. -/
theorem exists_of_parameter? {t : Text} {p : WrittenParameter} (h : parameter? t = some p) :
    isName p.name = true ∧ ∃ before after, t = p.kind.stars ++ (before ++ after)
      ∧ before.trim = p.name ∧ ∀ c ∈ after.head?, c = ':' ∨ c = '=' := by
  rw [parameter?_eq, Option.ite_none_right_eq_some] at h
  obtain ⟨hname, hp⟩ := h
  obtain rfl := Option.some.inj hp
  obtain ⟨behind, hrest, hsign⟩ := exists_of_beforeSign (starred t).2
  obtain ⟨before, after, hwritten, htrim, hcolon⟩ := exists_of_target (beforeSign (starred t).2)
  refine ⟨hname, before, after ++ behind, ?_, htrim, fun c hc => ?_⟩
  · have whole := stars_append_starred t
    rw [hrest, hwritten, List.append_assoc] at whole
    exact whole.symm
  · cases after with
    | nil => exact .inr (hsign c hc)
    | cons d after => exact .inl (hcolon c hc)

/-- What is read as a parameter is no string: its stars or its name stand before any quote. -/
theorem isStringLiteral_eq_false {t : Text} {p : WrittenParameter} (h : parameter? t = some p) :
    isStringLiteral t = false := by
  obtain ⟨hname, before, after, rfl, htrim, hafter⟩ := exists_of_parameter? h
  -- the name has blanks around it at most
  have unquoted : ∀ c ∈ before, ¬ Quote.IsMark c := by
    intro c hc
    cases hblank : isBlank c with
    | true => exact Nesting.not_isMark_of_isBlank hblank
    | false =>
        have mem := mem_trim hc hblank
        rw [htrim] at mem
        exact (isPlain_of_isNameChar (isNameChar_of_mem hname mem)).1
  refine isStringLiteral_of_literalParts?_eq_none ?_
  cases p.kind with
  | regular =>
      cases after with
      | nil =>
          rw [List.append_nil]
          exact literalParts?_eq_none_of_unquoted unquoted
      | cons c after =>
          have hc : ¬ Quote.IsMark c ∧ isLiteralLetter c = false := by
            rcases hafter c rfl with rfl | rfl <;> decide
          exact literalParts?_eq_none unquoted hc.1 hc.2 after
  | varArgs | kwArgs =>
      exact literalParts?_eq_none (a := []) (by simp) (by decide) (by decide) _

/-- What is read as a parameter joins nothing before it, unless it begins with a blank. -/
theorem not_joinsPrevious_head {t : Text} {p : WrittenParameter} (h : parameter? t = some p)
    (hblank : ∀ c ∈ t.head?, isBlank c = false) : t.head?.any joinsPrevious = false := by
  obtain ⟨hname, before, after, rfl, htrim, -⟩ := exists_of_parameter? h
  cases hkind : p.kind with
  | regular =>
      rw [hkind] at hblank
      cases before with
      | nil =>
          rw [← htrim] at hname
          exact nomatch hname
      | cons c before =>
          have mem := mem_trim (t := c :: before) List.mem_cons_self (hblank c rfl)
          rw [htrim] at mem
          refine Bool.eq_false_iff.2 fun hjoins => ?_
          exact not_mem_of_isNameChar (isNameChar_of_mem hname mem) (by decide)
            (of_decide_eq_true hjoins)
  | varArgs | kwArgs => rfl

/-- The markers are no parameters, so a parameter is read as one. -/
theorem parameterItem_of_parameter? {t : Text} {p : WrittenParameter}
    (h : parameter? t = some p) : parameterItem t = ⟨[p], []⟩ := by
  have noMarker : ¬ (t = ['*'] ∨ t = ['/']) := by
    rintro (rfl | rfl)
    · have star : parameter? ['*'] = none := by decide +kernel
      exact nomatch star.symm.trans h
    · have slash : parameter? ['/'] = none := by decide +kernel
      exact nomatch slash.symm.trans h
  unfold parameterItem
  rw [if_neg noMarker, h]

/-! ## §2. Texts that stay apart. -/

/-- A parameter that can be told from its neighbours: one closed atom, without a comma of its
own, that does not end in an operator and is no connecting keyword. -/
structure IsToken (t : Text) : Prop extends IsClosedAtom t where
  comma : t.hasTopLevel ',' = false
  accepted : (parameter? t).isSome = true
  notJoining : lastIs joinsNext t = false
  notConnecting : connectingKeywords.contains t = false

instance (t : Text) : Decidable t.IsToken :=
  decidable_of_iff (t.IsClosedAtom ∧ t.hasTopLevel ',' = false ∧ (parameter? t).isSome = true
      ∧ lastIs joinsNext t = false ∧ connectingKeywords.contains t = false)
    ⟨fun h => ⟨h.1, h.2.1, h.2.2.1, h.2.2.2.1, h.2.2.2.2⟩,
      fun h => ⟨h.toIsClosedAtom, h.comma, h.accepted, h.notJoining, h.notConnecting⟩⟩

namespace IsToken

variable {t u : Text}

theorem undivided (h : IsToken t) : Undivided t := h.toIsClosedAtom.undivided h.comma

/-- **PARAMETERS DO NOT JOIN ONE ANOTHER.** -/
theorem continues_eq_false (ht : IsToken t) (hu : IsToken u) : continues t u = false := by
  obtain ⟨p, hp⟩ := Option.isSome_iff_exists.1 hu.accepted
  unfold continues
  rw [ht.notConnecting, hu.notConnecting, ht.notJoining,
    not_joinsPrevious_head hp hu.atomic.not_isBlank_head, isStringLiteral_eq_false hp,
    Bool.and_false]
  rfl

end IsToken

/-! ## §3. Lists of parameters. -/

/-- **PARAMETERS ARE READ ITEM BY ITEM**, and each piece between commas that has several items is
reported. -/
theorem parameters_eq {t : Text} {pieces : List (List Text)}
    (h : t.commaItems.map adjacentItems = pieces) :
    parameters t
      = ⟨pieces.flatten.flatMap fun part => (parameterItem part).value,
        pieces.flatMap fun parts =>
          (if 1 < parts.length then [.ambiguousParameters parts] else [])
            ++ parts.flatMap fun part => (parameterItem part).causes⟩ := by
  subst h
  unfold parameters
  simp [Reported.concat, Reported.since, List.flatMap_def, List.map_flatten, Function.comp_def,
    List.flatten_flatten]

/-- **MISSING COMMAS LEAVE ALL PARAMETERS.**  Each run of several parameters is reported, and
nothing else. -/
theorem parameters_of_runs {runs : List (List Text)} (hruns : ∀ run ∈ runs, run ≠ [])
    (h : ∀ run ∈ runs, ∀ t ∈ run, IsToken t) :
    (parameters (joinRuns runs)).value.map some = runs.flatten.map parameter?
      ∧ (parameters (joinRuns runs)).causes
        = runs.flatMap fun run => if 1 < run.length then [.ambiguousParameters run] else [] := by
  have undivided := fun run hrun t ht => (h run hrun t ht).undivided
  -- each run is taken apart into its parameters
  have pieces : (joinRuns runs).commaItems.map adjacentItems = runs := by
    rw [commaItems_joinRuns hruns undivided, List.map_map]
    refine (List.map_congr_left fun run hrun => ?_).trans (List.map_id runs)
    refine adjacentItems_join (fun t ht => (undivided run hrun t ht).toAtomic) ?_
    refine (List.pairwise_of_forall_mem_list fun t ht u hu => ?_).isChain
    exact (h run hrun t ht).continues_eq_false (h run hrun u hu)
  have read : ∀ t ∈ runs.flatten, ∃ p, parameter? t = some p ∧ parameterItem t = ⟨[p], []⟩ := by
    intro t ht
    obtain ⟨run, hrun, ht⟩ := List.mem_flatten.1 ht
    obtain ⟨p, hp⟩ := Option.isSome_iff_exists.1 (h run hrun t ht).accepted
    exact ⟨p, hp, parameterItem_of_parameter? hp⟩
  rw [parameters_eq pieces]
  refine ⟨?_, ?_⟩
  · show (runs.flatten.flatMap _).map some = _
    rw [List.map_flatMap, List.map_eq_flatMap]
    refine List.flatMap_congr fun t ht => ?_
    obtain ⟨p, hp, hitem⟩ := read t ht
    rw [hitem, hp]
    rfl
  · show runs.flatMap _ = _
    refine List.flatMap_congr fun run hrun => ?_
    have silent : run.flatMap (fun part => (parameterItem part).causes) = [] := by
      refine List.flatMap_eq_nil_iff.2 fun t ht => ?_
      obtain ⟨p, -, hitem⟩ := read t (List.mem_flatten.2 ⟨run, hrun, ht⟩)
      rw [hitem]
    rw [silent, List.append_nil]

end ClassOutline.Text
