/-
  ClassOutline.Proofs.Checked.Headers
  ────────────────────────────────
  **PARAMETERS AND HEADERS ARE READ WHERE WORDS CAN COUNT THEIR BRACKETS.**

  A list of parameters is walked over as a whole before it is taken apart.  So the
  run over a row of parameters is stopped exactly where one over one of them is
  (`parameters_answer_alike`), and bare markers between them make no difference
  (`signature_answers_alike`).

  The groups of a header are looked for one behind the other, each in what is left
  of the text, so no run over a short header is stopped (`headerFits_of_length`).
-/
import ClassOutline.Proofs.Checked.Rows
import ClassOutline.Proofs.Statement.Headers
import ClassOutline.Proofs.Statement.Signature

namespace ClassOutline

namespace Text

/-! ## §1. Rows of parameters. -/

/-- Runs one after the other are stopped where one of them is. -/
theorem mapM_guarded {α β : Type} (fits : α → Bool) (f : α → β) (xs : List α) :
    xs.mapM (fun x => guarded (fits x) (f x)) = guarded (xs.all fits) (xs.map f) := by
  induction xs with
  | nil => rfl
  | cons x xs ih =>
      rw [List.mapM_cons, ih, List.all_cons]
      cases fits x with
      | false => rfl
      | true => cases xs.all fits <;> rfl

/-- **MISSING COMMAS LEAVE ALL PARAMETERS.**  The run over a row of parameters answers exactly what
the runs over the parameters answer one after the other, and is stopped where one of these is: never
if each parameter has fewer characters than a word counts.  Each run of several parameters without a
comma is reported, and nothing else. -/
theorem parameters_answer_alike {runs : List (List Text)} (hruns : ∀ run ∈ runs, run ≠ [])
    (h : ∀ run ∈ runs, ∀ t ∈ run, IsToken t) :
    (Checked.parameters (joinRuns runs)).map (fun r => r.value.map some)
        = runs.flatten.mapM Checked.parameter
      ∧ (∀ r, Checked.parameters (joinRuns runs) = some r →
          r.causes
            = runs.flatMap fun run => if 1 < run.length then [.ambiguousParameters run] else [])
      ∧ ((∀ t ∈ runs.flatten, t.length < Nesting.countLimit) →
          ∃ r, Checked.parameters (joinRuns runs) = some r) := by
  obtain ⟨values, causes⟩ := parameters_of_runs hruns h
  have keeps : ∀ run ∈ runs, ∀ t ∈ run, Keeps (fun _ => false) t := fun run hrun t ht =>
    (h run hrun t ht).closed.keeps_inside
  have whole : (joinRuns runs).fits = runs.flatten.all fits :=
    walkFits_joinRuns (by decide) rfl keeps
  have each : runs.flatten.mapM Checked.parameter
      = guarded (runs.flatten.all fits) (runs.flatten.map parameter?) := by
    rw [← mapM_guarded]
    exact congrArg (List.mapM · _) (funext Checked.parameter_eq)
  rw [Checked.parameters_eq]
  refine ⟨?_, fun r hr => ?_, fun hshort => ?_⟩
  · rw [each, whole, ← values]
    unfold guarded
    split <;> rfl
  · obtain ⟨-, rfl⟩ := guarded_eq_some_iff.1 hr
    exact causes
  · rw [whole]
    exact ⟨_, guarded_of_fits (List.all_eq_true.2 fun t ht => fits_of_length (hshort t ht))⟩

theorem parameters_answer_alike_of_two_runs :
    (Checked.parameters
          "a:list[int]=f(1, 'x y') *args **kw:dict, b='=' c=(d := 2)".toList).map
        (fun r => r.value.map some)
      = some [some ⟨"a".toList, .regular, some "list[int]".toList, some "f(1, 'x y')".toList⟩,
          some ⟨"args".toList, .varArgs, none, none⟩,
          some ⟨"kw".toList, .kwArgs, some "dict".toList, none⟩,
          some ⟨"b".toList, .regular, none, some "'='".toList⟩,
          some ⟨"c".toList, .regular, none, some "(d := 2)".toList⟩] := by
  obtain ⟨values, -, -⟩ := @parameters_answer_alike
    [["a:list[int]=f(1, 'x y')".toList, "*args".toList, "**kw:dict".toList],
      ["b='='".toList, "c=(d := 2)".toList]]
    (by simp) (by decide +kernel)
  exact values.trans (by decide +kernel)

end Text

/-! ## §2. Signatures. -/

namespace SignatureItem

open Text

theorem keeps_written {i : SignatureItem} (h : i.IsPrintable) :
    Keeps (fun _ => false) i.written := by
  rw [← join_words]
  exact keeps_join_space rfl fun t ht =>
    (undivided_words h t ht).keeps.mono fun _ hc => nomatch hc

/-- A marker adds nothing. -/
theorem fits_written (i : SignatureItem) :
    i.written.fits = i.parameter?.all fun p => p.written.fits := by
  cases i with
  | parameter p => rfl
  | star => exact fits_of_length (by decide)
  | slash => exact fits_of_length (by decide)

/-- A printed signature can be walked over if its parameters can. -/
theorem fits_join_written {items : List SignatureItem} (h : ∀ i ∈ items, i.IsPrintable) :
    (join ", " (items.map written)).fits
      = (items.filterMap parameter?).all fun p => p.written.fits := by
  have row : (join ", " (items.map written)).fits = (items.map written).all fits :=
    walkFits_join_comma (by decide) rfl (List.forall_mem_map.2 fun i hi => keeps_written (h i hi))
  rw [row, List.all_map]
  clear row h
  induction items with
  | nil => rfl
  | cons i items ih =>
      rw [List.all_cons, ih, Function.comp_apply, fits_written]
      cases hp : i.parameter? with
      | none =>
          rw [List.filterMap_cons_none hp]
          rfl
      | some p =>
          rw [List.filterMap_cons_some hp]
          rfl

/-- **READING A PRINTED SIGNATURE GIVES ITS PARAMETERS BACK**, with squashed annotations and
without a report.  Markers between the parameters change nothing: with and without them the same
runs are stopped, none if each printed parameter has fewer characters than a word counts. -/
theorem signature_answers_alike {items : List SignatureItem} (h : ∀ i ∈ items, i.IsPrintable) :
    let ps := items.filterMap parameter?
    let fits := ps.all fun p => p.written.fits
    Checked.parameters (join ", " (items.map written))
        = guarded fits ⟨ps.map WrittenParameter.squashed, []⟩
      ∧ Checked.parameters (join ", " (ps.map WrittenParameter.written))
        = guarded fits ⟨ps.map WrittenParameter.squashed, []⟩
      ∧ ((∀ p ∈ ps, p.written.length < Nesting.countLimit) → fits = true) := by
  obtain ⟨marked, plain⟩ := parameters_written h
  intro ps fits
  -- the same parameters as items without markers
  have alone : ∀ i ∈ ps.map SignatureItem.parameter, i.IsPrintable := by
    refine List.forall_mem_map.2 fun p hp q hq => ?_
    obtain rfl := Option.some.inj hq
    obtain ⟨i, hi, hp⟩ := List.mem_filterMap.1 hp
    exact h i hi p hp
  have without := fits_join_written alone
  have same : (ps.map SignatureItem.parameter).filterMap parameter? = ps := by
    rw [List.filterMap_map]
    exact List.filterMap_some
  rw [same, List.map_map] at without
  rw [Checked.parameters_eq, Checked.parameters_eq]
  refine ⟨?_, ?_, fun hshort => List.all_eq_true.2 fun p hp => fits_of_length (hshort p hp)⟩
  · rw [fits_join_written h, marked]
  · rw [plain]
    exact congrArg (guarded · _) without

theorem signature_answers_alike_with_markers :
    Checked.parameters
        "self, /, a: Map[str,  int] = \x7b'b=c,': (1, 2)\x7d, *, **for: x:y = =!".toList
      = some ⟨[⟨"self".toList, .regular, none, none⟩,
          ⟨"a".toList, .regular, some "Map[str, int]".toList,
            some "\x7b'b=c,': (1, 2)\x7d".toList⟩,
          ⟨"for".toList, .kwArgs, some "x:y".toList, some "=!".toList⟩], []⟩ := by
  obtain ⟨marked, -, answered⟩ := @signature_answers_alike
    [.parameter ⟨"self".toList, .regular, none, none⟩, .slash,
      .parameter ⟨"a".toList, .regular, some "Map[str,  int]".toList,
        some "\x7b'b=c,': (1, 2)\x7d".toList⟩, .star,
      .parameter ⟨"for".toList, .kwArgs, some "x:y".toList, some "=!".toList⟩]
    (by decide +kernel)
  refine marked.trans ?_
  rw [guarded_of_fits (answered (by decide))]
  rfl

end SignatureItem

/-! ## §3. Headers. -/

namespace Text

theorem skipGroupFits_of_length (opener : Char) {t : Text} (h : t.length < Nesting.countLimit) :
    t.skipGroupFits opener = true := by
  unfold skipGroupFits
  rw [groupFits_of_length h, Bool.or_true]

/-- **A HEADER CAN BE READ IF IT HAS FEWER CHARACTERS THAN A WORD COUNTS.** -/
theorem headerFits_of_length {t : Text} (h : t.length < Nesting.countLimit) :
    t.headerFits = true := by
  -- each part is what the ones before it left of the text
  have tail : (trimStart (t.dropWhile isNameChar)).length ≤ t.length :=
    (length_trimStart_le _).trans (List.dropWhile_suffix _).length_le
  unfold headerFits
  dsimp only
  rw [skipGroupFits_of_length '[' (by omega), Bool.true_and]
  refine Bool.or_eq_true_iff.2 (.inr ?_)
  cases hTypes : skipGroup? '[' (trimStart (t.dropWhile isNameChar)) with
  | none => rfl
  | some afterTypes =>
      have behindTypes := length_skipGroup?_le hTypes
      rw [Option.all_some, skipGroupFits_of_length '(' (by omega), Bool.true_and]
      cases hArguments : argumentGroup? afterTypes with
      | none => rfl
      | some found =>
          obtain ⟨arguments, afterArguments⟩ := found
          have behindArguments := length_argumentGroup?_le hArguments
          show skipResultFits afterArguments = true
          unfold skipResultFits
          rw [fits_of_length (by omega), Bool.or_true]

/-- The arguments of a header are shorter than the header. -/
theorem length_arguments_lt_of_header? {t : Text} {h : Header} {arguments : Text}
    (hh : t.header? = some h) (ha : h.arguments = some arguments) :
    arguments.length < t.length := by
  obtain ⟨-, afterTypes, afterArguments, body, hTypes, hArguments, hResult, -⟩ :=
    exists_of_header? hh
  have name := (List.dropWhile_suffix isNameChar (l := t)).length_le
  have trimmed := length_trimStart_le (t.dropWhile isNameChar)
  have types := length_skipGroup?_le hTypes
  have result := length_skipResult?_le hResult
  rw [List.length_cons] at result
  unfold argumentGroup? at hArguments
  split at hArguments
  · obtain ⟨⟨group, after⟩, hgroup, heq⟩ := Option.map_eq_some_iff.1 hArguments
    obtain ⟨hinside, rfl⟩ := Prod.mk.inj heq
    rw [ha] at hinside
    obtain rfl := Option.some.inj hinside
    have parts := congrArg List.length (eq_of_leadingGroup? hgroup)
    have behind := length_trimStart_le after
    rw [List.length_append] at parts
    rw [List.length_dropLast, List.length_drop]
    omega
  · obtain ⟨hnone, -⟩ := Prod.mk.inj (Option.some.inj hArguments)
    rw [ha] at hnone
    exact nomatch hnone

end Text

end ClassOutline
