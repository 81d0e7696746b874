/-
  ClassOutline.Proofs.Statement.Signature
  ────────────────────────────────
  **A PRINTED SIGNATURE IS READ AS IT WAS.**

  A parameter is printed as its stars, its name, a colon with the annotation and
  a sign with the default.  Spaces part these words, but each joins the next, so a
  parameter is one item (`adjacentItems_written`); the first colon and the first
  sign of it are those that were printed (`parameter?_written`).

  The printed parameters and the markers between them are the pieces between the
  commas.  So reading gives the parameters back, and the markers change nothing
  (`parameters_written`).
-/
import ClassOutline.Proofs.Statement.Parameters

namespace ClassOutline

/-! ## §1. Printing. -/

namespace WrittenParameter

open Text

/-- The name, and its annotation behind a colon. -/
def writtenTarget (p : WrittenParameter) : Text :=
  match p.annotation with
  | some annotation => p.name ++ ':' :: ' ' :: annotation
  | none => p.name

/-- The parameter as it is printed. -/
def written (p : WrittenParameter) : Text :=
  match p.default with
  | some value => p.kind.stars ++ (p.writtenTarget ++ ' ' :: '=' :: ' ' :: value)
  | none => p.kind.stars ++ p.writtenTarget

/-- The parameter with one space between the words of its annotation. -/
def squashed (p : WrittenParameter) : WrittenParameter :=
  { p with annotation := p.annotation.map squash }

/-- A parameter with a name, and with closed atoms for annotation and default that hold no
separator of what is around them. -/
structure IsPrintable (p : WrittenParameter) : Prop where
  name : isName p.name = true
  annotation : ∀ a ∈ p.annotation,
    a.IsClosedAtom ∧ a.hasTopLevel ',' = false ∧ a.hasTopLevel '=' = false
  default : ∀ d ∈ p.default, d.IsClosedAtom ∧ d.hasTopLevel ',' = false

instance (p : WrittenParameter) : Decidable p.IsPrintable :=
  decidable_of_iff (isName p.name = true
      ∧ (∀ a ∈ p.annotation, a.IsClosedAtom ∧ a.hasTopLevel ',' = false ∧ a.hasTopLevel '=' = false)
      ∧ ∀ d ∈ p.default, d.IsClosedAtom ∧ d.hasTopLevel ',' = false)
    ⟨fun h => ⟨h.1, h.2.1, h.2.2⟩, fun h => ⟨h.name, h.annotation, h.default⟩⟩

/-! ## §2. The words of a parameter. -/

/-- The stars and the name, and the annotation behind a colon. -/
def targetWords (p : WrittenParameter) : List Text :=
  match p.annotation with
  | some annotation => [p.kind.stars ++ p.name ++ [':'], annotation]
  | none => [p.kind.stars ++ p.name]

/-- The sign and the default. -/
def defaultWords (p : WrittenParameter) : List Text :=
  match p.default with
  | some value => [['='], value]
  | none => []

/-- The words that spaces part in a printed parameter. -/
def words (p : WrittenParameter) : List Text := p.targetWords ++ p.defaultWords

theorem words_ne_nil (p : WrittenParameter) : p.words ≠ [] := by
  unfold words targetWords
  cases p.annotation <;> simp

theorem join_words (p : WrittenParameter) : join " " p.words = p.written := by
  unfold words targetWords defaultWords written writtenTarget
  cases p.annotation <;> cases p.default <;> simp [join_space_cons_cons]

/-- **EACH WORD OF A PARAMETER JOINS THE NEXT.** -/
theorem chain_words (p : WrittenParameter) : p.words.IsChain fun t u => continues t u = true := by
  -- the colon and the sign join what stands around them
  have colon (t u : Text) : continues (t ++ [':']) u = true := by
    simp [continues, lastIs, joinsNext]
  have behind (t : Text) : continues t ['='] = true := by
    simp [continues, joinsPrevious]
  have before (u : Text) : continues ['='] u = true := by
    simp [continues, lastIs, joinsNext]
  unfold words targetWords defaultWords
  cases p.annotation <;> cases p.default <;> simp [colon, before, behind, -List.append_assoc]

/-- The stars and the name are undivided. -/
theorem undivided_name {p : WrittenParameter} (h : isName p.name = true) :
    Undivided (p.kind.stars ++ p.name) := by
  refine .of_plain (List.append_ne_nil_of_right_ne_nil _ ?_) fun c hc => ?_
  · rintro hnil
    rw [hnil] at h
    exact nomatch h
  · rcases List.mem_append.1 hc with hc | hc
    · have star : c = '*' := by
        cases hkind : p.kind <;> simp_all [ParameterKind.stars]
      subst star
      exact ⟨isPlain_of_not_mem (by decide), by decide, by decide⟩
    · have hname := isNameChar_of_mem h hc
      refine ⟨isPlain_of_isNameChar hname, not_isBlank_of_isNameChar hname, beq_false_of_ne ?_⟩
      rintro rfl
      exact absurd hname (by decide)

theorem undivided_targetWords {p : WrittenParameter} (h : p.IsPrintable) :
    ∀ t ∈ p.targetWords, Undivided t := by
  have name := undivided_name h.name
  unfold targetWords
  cases ha : p.annotation with
  | none => exact List.forall_mem_singleton.2 name
  | some a =>
      obtain ⟨hatom, hcomma, -⟩ := h.annotation a ha
      exact List.forall_mem_cons.2 ⟨name.append_sign isPlain_colon rfl rfl,
        List.forall_mem_singleton.2 (hatom.undivided hcomma)⟩

theorem undivided_defaultWords {p : WrittenParameter} (h : p.IsPrintable) :
    ∀ t ∈ p.defaultWords, Undivided t := by
  have sign : Undivided ['='] := .of_char (isPlain_of_not_mem (by decide)) rfl rfl
  unfold defaultWords
  cases hd : p.default with
  | none => exact fun t ht => absurd ht List.not_mem_nil
  | some d =>
      obtain ⟨hatom, hcomma⟩ := h.default d hd
      exact List.forall_mem_cons.2 ⟨sign, List.forall_mem_singleton.2 (hatom.undivided hcomma)⟩

theorem undivided_words {p : WrittenParameter} (h : p.IsPrintable) :
    ∀ t ∈ p.words, Undivided t := by
  intro t ht
  rcases List.mem_append.1 ht with ht | ht
  · exact undivided_targetWords h t ht
  · exact undivided_defaultWords h t ht

/-- **A PRINTED PARAMETER IS ONE ITEM.** -/
theorem adjacentItems_written {p : WrittenParameter} (h : p.IsPrintable) :
    p.written.adjacentItems = [p.written] := by
  obtain ⟨t, ts, hwords⟩ := List.exists_cons_of_ne_nil p.words_ne_nil
  have chain := p.chain_words
  have atomic : ∀ u ∈ p.words, Atomic u := fun u hu => (undivided_words h u hu).toAtomic
  rw [hwords] at chain atomic
  rw [← join_words, hwords]
  exact adjacentItems_join_of_continues atomic chain

/-! ## §3. Reading a printed parameter. -/

/-- The stars in front of a name are those of the parameter. -/
theorem starred_append {name : Text} (h : isName name = true) (kind : ParameterKind) (rest : Text) :
    starred (kind.stars ++ (name ++ rest)) = (kind, name ++ rest) := by
  cases name with
  | nil => exact nomatch h
  | cons c name =>
      have noStar : c ≠ '*' := by
        rintro rfl
        exact absurd (isNameChar_of_mem h List.mem_cons_self) (by decide)
      cases kind with
      | regular => simp [ParameterKind.stars, starred, noStar]
      | varArgs => simp [ParameterKind.stars, starred, noStar]
      | kwArgs => simp [ParameterKind.stars, starred]

/-- **THE FIRST COLON IS THE PRINTED ONE**, and blanks around name and annotation are taken. -/
theorem target_written {p : WrittenParameter} (h : p.IsPrintable) {tail : Text}
    (htail : tail = [] ∨ tail = [' ']) :
    Text.target (p.writtenTarget ++ tail) = ⟨p.name, p.annotation.map squash⟩ := by
  have name : Keeps (· == ':') p.name := keeps_of_isName h.name (by decide)
  unfold writtenTarget Text.target
  cases p.annotation with
  | none =>
      have noColon : Keeps (· == ':') (p.name ++ tail) := by
        rcases htail with rfl | rfl
        · rwa [List.append_nil]
        · exact name.append_cons isPlain_space.1 (.cons isPlain_space rfl .nil)
      have trimmed : trim (p.name ++ tail) = p.name := by
        rcases htail with rfl | rfl
        · rw [List.append_nil, trim_of_isName h.name]
        · rw [trim_append_of_isBlank rfl, trim_of_isName h.name]
      dsimp only
      rw [noColon.breakTopLevel?_eq_none fun _ hc => hc]
      show Target.mk (trim (p.name ++ tail)) none = _
      rw [trimmed]
      rfl
  | some a =>
      have squashed : squash (' ' :: a ++ tail) = squash a := by
        rcases htail with rfl | rfl
        · rw [List.append_nil, squash_cons_of_isBlank rfl]
        · rw [squash_append_of_isBlank rfl, squash_cons_of_isBlank rfl]
      dsimp only
      rw [List.append_assoc, List.cons_append,
        name.breakTopLevel?_append (fun _ hc => hc) isPlain_colon.1 rfl]
      show Target.mk p.name.trim (some (squash (' ' :: a ++ tail))) = _
      rw [squashed, trim_of_isName h.name]
      rfl

/-- Nothing assigns in front of the printed sign. -/
theorem keeps_writtenTarget {p : WrittenParameter} (h : p.IsPrintable) :
    Keeps (· == '=') p.writtenTarget := by
  have name : Keeps (· == '=') p.name := keeps_of_isName h.name (by decide)
  unfold writtenTarget
  cases ha : p.annotation with
  | none => exact name
  | some a =>
      obtain ⟨hatom, -, hsign⟩ := h.annotation a ha
      exact name.append_cons isPlain_colon.1 (.cons isPlain_colon rfl
        (.cons isPlain_space rfl (hatom.closed.keeps_of_hasTopLevel hsign)))

theorem starred_written {p : WrittenParameter} (h : p.IsPrintable) (rest : Text) :
    starred (p.kind.stars ++ (p.writtenTarget ++ rest)) = (p.kind, p.writtenTarget ++ rest) := by
  unfold writtenTarget
  cases p.annotation with
  | none => exact starred_append h.name p.kind rest
  | some a =>
      dsimp only
      rw [List.append_assoc]
      exact starred_append h.name p.kind _

/-- **A PRINTED PARAMETER IS READ AS IT WAS**, its annotation squashed. -/
theorem parameter?_written {p : WrittenParameter} (h : p.IsPrintable) :
    Text.parameter? p.written = some p.squashed := by
  have front := keeps_writtenTarget h
  rw [parameter?_eq]
  unfold written squashed
  cases hd : p.default with
  | none =>
      have starred := starred_written h []
      have target := target_written h (.inl rfl)
      rw [List.append_nil] at starred target
      have noSign := front.assignment?_eq_none rfl
      dsimp only
      rw [starred]
      unfold beforeSign behindSign?
      rw [noSign]
      dsimp only
      rw [target, if_pos h.name]
      rfl
  | some d =>
      have sign := front.assignment?_append (' ' :: d) (by simp)
      have atom := (h.default d hd).1.atomic
      have filled : (!d.isEmpty) = true := by simp [atom.nonempty]
      dsimp only
      rw [starred_written h]
      unfold beforeSign behindSign?
      rw [sign]
      simp only [Assignment.isAugmented, List.isEmpty_nil, Bool.not_true, Bool.false_eq_true,
        if_false, target_written h (.inr rfl), h.name, if_true, trim_space_cons, atom.trimmed,
        Option.filter_some, filled]

end WrittenParameter

/-! ## §4. Signatures. -/

/-- What a signature lists: parameters, and bare markers between them. -/
inductive SignatureItem where
  | parameter (p : WrittenParameter)
  | star
  | slash
  deriving DecidableEq, Repr

namespace SignatureItem

open Text

/-- The item as it is printed. -/
def written : SignatureItem → Text
  | parameter p => p.written
  | star => ['*']
  | slash => ['/']

/-- The parameter that the item lists. -/
def parameter? : SignatureItem → Option WrittenParameter
  | parameter p => some p
  | star => none
  | slash => none

/-- The words of a parameter; a marker is one. -/
def words : SignatureItem → List Text
  | parameter p => p.words
  | star => [['*']]
  | slash => [['/']]

/-- The parameters among the items are printable. -/
def IsPrintable (i : SignatureItem) : Prop := ∀ p ∈ i.parameter?, p.IsPrintable

instance (i : SignatureItem) : Decidable i.IsPrintable :=
  inferInstanceAs (Decidable (∀ p ∈ i.parameter?, p.IsPrintable))

theorem join_words (i : SignatureItem) : join " " i.words = i.written := by
  cases i with
  | parameter p => exact p.join_words
  | star => rfl
  | slash => rfl

theorem words_ne_nil (i : SignatureItem) : i.words ≠ [] := by
  cases i with
  | parameter p => exact p.words_ne_nil
  | star => exact List.cons_ne_nil _ _
  | slash => exact List.cons_ne_nil _ _

section
variable {i : SignatureItem} (h : i.IsPrintable)
include h

theorem undivided_words : ∀ t ∈ i.words, Undivided t := by
  have marker (c : Char) (hc : Undivided [c]) : ∀ t ∈ [[c]], Undivided t :=
    List.forall_mem_singleton.2 hc
  cases i with
  | parameter p => exact WrittenParameter.undivided_words (h p rfl)
  | star =>
      exact marker '*' (.of_char (isPlain_of_not_mem (by decide)) rfl rfl)
  | slash =>
      exact marker '/' (.of_char (isPlain_of_not_mem (by decide)) rfl rfl)

theorem adjacentItems_written : i.written.adjacentItems = [i.written] := by
  have marker (t : Text) (ht : Undivided t) : t.adjacentItems = [t] :=
    ht.keeps.adjacentItems_eq (fun _ hc => hc) ht.nonempty
  cases i with
  | parameter p => exact WrittenParameter.adjacentItems_written (h p rfl)
  | star => exact marker _ (undivided_words h _ List.mem_cons_self)
  | slash => exact marker _ (undivided_words h _ List.mem_cons_self)

/-- A printed parameter is read, and a marker is passed over. -/
theorem parameterItem_written :
    parameterItem i.written = ⟨(i.parameter?.map WrittenParameter.squashed).toList, []⟩ := by
  cases i with
  | parameter p =>
      exact parameterItem_of_parameter? (WrittenParameter.parameter?_written (h p rfl))
  | star => rfl
  | slash => rfl

end

/-- The printed items are the pieces between the commas. -/
theorem commaItems_written {items : List SignatureItem} (h : ∀ i ∈ items, i.IsPrintable) :
    (join ", " (items.map written)).commaItems = items.map written := by
  have runs : (items.map words).map (join " ") = items.map written := by
    rw [List.map_map]
    exact List.map_congr_left fun i _ => i.join_words
  have pieces : (joinRuns (items.map words)).commaItems = _ := commaItems_joinRuns
    (List.forall_mem_map.2 fun i _ => i.words_ne_nil)
    (List.forall_mem_map.2 fun i hi => undivided_words (h i hi))
  unfold joinRuns at pieces
  rwa [runs] at pieces

theorem parameters_items (items : List SignatureItem) (h : ∀ i ∈ items, i.IsPrintable) :
    parameters (join ", " (items.map written))
      = ⟨(items.filterMap parameter?).map WrittenParameter.squashed, []⟩ := by
  have pieces : (join ", " (items.map written)).commaItems.map adjacentItems
      = (items.map written).map fun t => [t] := by
    rw [commaItems_written h]
    exact List.map_congr_left (List.forall_mem_map.2 fun i hi => adjacentItems_written (h i hi))
  have values : (items.flatMap fun i => (parameterItem i.written).value)
      = (items.filterMap parameter?).map WrittenParameter.squashed := by
    rw [List.map_filterMap, List.filterMap_eq_flatMap_toList]
    refine List.flatMap_congr fun i hi => ?_
    rw [parameterItem_written (h i hi)]
  have silent : (items.flatMap fun i => (parameterItem i.written).causes) = [] := by
    refine List.flatMap_eq_nil_iff.2 fun i hi => ?_
    rw [parameterItem_written (h i hi)]
  rw [parameters_eq pieces, flatten_singletons, ← values]
  simp [List.flatMap_map, silent]

/-- **READING A PRINTED SIGNATURE GIVES ITS PARAMETERS BACK**, with squashed annotations and
without a report.  Markers between the parameters change nothing. -/
theorem parameters_written {items : List SignatureItem} (h : ∀ i ∈ items, i.IsPrintable) :
    parameters (join ", " (items.map written))
        = ⟨(items.filterMap parameter?).map WrittenParameter.squashed, []⟩
      ∧ parameters (join ", " ((items.filterMap parameter?).map WrittenParameter.written))
        = ⟨(items.filterMap parameter?).map WrittenParameter.squashed, []⟩ := by
  refine ⟨parameters_items items h, ?_⟩
  -- the same parameters as items without markers
  have plain := parameters_items ((items.filterMap parameter?).map .parameter) (by
    refine List.forall_mem_map.2 fun p hp q hq => ?_
    obtain rfl := Option.some.inj hq
    obtain ⟨i, hi, hp⟩ := List.mem_filterMap.1 hp
    exact h i hi p hp)
  simpa [Function.comp_def, written, parameter?] using plain

end SignatureItem

end ClassOutline
