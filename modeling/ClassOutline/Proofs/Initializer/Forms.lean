/-
  ClassOutline.Proofs.Initializer.Forms
  ────────────────────────────────
  **WHICH FORM A SOLID TEXT IS CLASSIFIED AS.**

  The forms are tried in a fixed order, so a text has the one it is written in
  only if none before fits: brackets are no literal, a name is neither a literal
  nor a bracket, and a call is none of these (`NoLiteral`).  What is left of
  classifying is one lemma for each form.

  A dotted name is a *path* here, and the only keywords that matter are those
  an expression may have alone.
-/
import ClassOutline.Initializer.Classify
import ClassOutline.Proofs.Initializer.Literals
import ClassOutline.Proofs.Nesting.Items
import ClassOutline.Proofs.Nesting.Solid

namespace ClassOutline.Text

/-! ## §1. Paths. -/

/-- The keywords that are more than a name where an expression is read. -/
def expressionKeywords : List Text :=
  ["True".toList, "False".toList, "None".toList, "for".toList, "lambda".toList]

/-- A name that is no such keyword. -/
def isSegment (t : Text) : Bool := isName t && !expressionKeywords.contains t

/-- Segments joined by dots. -/
def isPath (t : Text) : Bool := (fields '.' t).all isSegment

/-- A segment is made of plain characters. -/
theorem plain_of_isName {t : Text} (h : isName t = true) {c : Char} (hc : c ∈ t) :
    Nesting.IsPlain c ∧ isSeparator c = false := by
  have hname := isNameChar_of_mem h hc
  refine ⟨isPlain_of_isNameChar hname, ?_⟩
  have none : c ∉ [',', ':', '=', '*'] := not_mem_of_isNameChar hname (by decide)
  unfold isSeparator
  rw [not_isBlank_of_isNameChar hname, Bool.false_or]
  exact Bool.eq_false_iff.2 fun hmem => none (List.contains_iff_mem.1 hmem)

theorem solid_of_isName {t : Text} (h : isName t = true) : Solid t := by
  refine .of_plain ?_ fun _ hc => plain_of_isName h hc
  rintro rfl
  exact nomatch h

theorem isName_of_isSegment {t : Text} (h : isSegment t = true) : isName t = true :=
  (Bool.and_eq_true_iff.1 h).1

/-- A path is made of plain characters. -/
theorem plain_of_isPath {t : Text} (h : isPath t = true) {c : Char} (hc : c ∈ t) :
    Nesting.IsPlain c ∧ isSeparator c = false := by
  by_cases hdot : c = '.'
  · subst hdot
    exact ⟨isPlain_of_not_mem (by decide), by decide⟩
  · obtain ⟨f, hf, hcf⟩ := mem_fields_of_mem hc hdot
    exact plain_of_isName (isName_of_isSegment (List.all_eq_true.1 h f hf)) hcf

theorem ne_nil_of_isPath {t : Text} (h : isPath t = true) : t ≠ [] := by
  rintro rfl
  exact nomatch h

theorem solid_of_isPath {t : Text} (h : isPath t = true) : Solid t :=
  .of_plain (ne_nil_of_isPath h) fun _ hc => plain_of_isPath h hc

/-- Segments joined by dots are a path. -/
theorem isPath_join {path : List Text} (hne : path ≠ []) (h : ∀ s ∈ path, isSegment s = true) :
    isPath (join "." path) = true := by
  unfold isPath
  rw [fields_join hne fun s hs => dot_not_mem_of_isName (isName_of_isSegment (h s hs))]
  exact List.all_eq_true.2 h

/-- A path begins with the first character of a name. -/
theorem exists_head_of_isPath {t : Text} (h : isPath t = true) :
    ∃ c rest, t = c :: rest ∧ isNameStart c = true := by
  cases t with
  | nil => exact nomatch h
  | cons c rest =>
      refine ⟨c, rest, rfl, ?_⟩
      have first : ∃ f fs, fields '.' (c :: rest) = (c :: f) :: fs := by
        by_cases hdot : c = '.'
        · subst hdot
          unfold isPath at h
          rw [fields_cons_self] at h
          exact nomatch h
        · obtain ⟨f, fs, -, hcons⟩ := fields_cons_of_ne hdot rest
          exact ⟨f, fs, hcons⟩
      obtain ⟨f, fs, hfields⟩ := first
      unfold isPath at h
      rw [hfields] at h
      have hname := isName_of_isSegment (List.all_eq_true.1 h _ List.mem_cons_self)
      exact (Bool.and_eq_true_iff.1 hname).1

theorem dottedParts_of_isPath {t : Text} (h : isPath t = true) :
    isDottedName t = true ∧ dottedParts t = fields '.' t := by
  have names : ∀ f ∈ fields '.' t, isName f = true := fun f hf =>
    isName_of_isSegment (List.all_eq_true.1 h f hf)
  refine ⟨List.all_eq_true.2 fun f hf => ?_, ?_⟩
  · rw [trim_of_isName (names f hf)]
    exact names f hf
  · unfold dottedParts
    rw [List.map_congr_left fun f hf => trim_of_isName (names f hf), List.map_id']

/-- A path has no parenthesis. -/
theorem keeps_of_isPath {t : Text} (h : isPath t = true) : Keeps (· == '(') t := by
  refine .of_plain fun c hc => ⟨(plain_of_isPath h hc).1, beq_false_of_ne ?_⟩
  rintro rfl
  exact absurd ((plain_of_isPath h hc).1.2 .closed) (by decide)

/-! ## §2. What is no literal. -/

/-- What has a character that is no ASCII letter is none of the keywords. -/
theorem not_keyword_of_mem {t : Text} {c : Char} (hc : c ∈ t) (hletter : isAsciiLetter c = false) :
    t ∉ expressionKeywords := by
  intro hmem
  have letters : (expressionKeywords.all fun k => k.all isAsciiLetter) = true := by decide
  rw [List.all_eq_true.1 (List.all_eq_true.1 letters t hmem) c hc] at hletter
  exact nomatch hletter

theorem not_keyword_of_isPath {t : Text} (h : isPath t = true) : t ∉ expressionKeywords := by
  intro hmem
  have paths : expressionKeywords.any isPath = false := by decide
  exact List.any_eq_false.1 paths t hmem h

theorem constant?_eq_none {t : Text} (h : t ∉ expressionKeywords) : constant? t = none := by
  have ne (k : Text) (hk : k ∈ expressionKeywords) : t ≠ k := fun heq => h (heq ▸ hk)
  unfold constant?
  rw [if_neg (ne _ (by decide)), if_neg (ne _ (by decide)), if_neg (ne _ (by decide))]

theorem ofInt_not_keyword (n : Int) : ofInt n ∉ expressionKeywords := by
  unfold ofInt
  split
  · exact not_keyword_of_mem List.mem_cons_self (by decide)
  · cases hn : ofNat n.natAbs with
    | nil => exact absurd hn (ofNat_ne_nil _)
    | cons c rest =>
        have hc : isDigit c = true := isDigit_of_mem_ofNat (hn ▸ List.mem_cons_self)
        exact not_keyword_of_mem List.mem_cons_self (not_isAsciiLetter_of_isDigit hc)

/-- A text that is read as no constant, number or string. -/
structure NoLiteral (t : Text) : Prop where
  constant : constant? t = none
  number : numberValue? t = none
  string : stringValue? t = none

/-- A text is read as no string if a solid one begins with no literal's letters and quote. -/
theorem Solid.stringValue?_eq_none {t : Text} (h : Solid t) (hparts : literalParts? t = none) :
    stringValue? t = none :=
  Text.stringValue?_eq_none hparts h.atoms_eq

/-- What brackets enclose is no literal with them. -/
theorem noLiteral_of_enclosed? {opener closer : Char} (hpair : BracketPair opener closer)
    {t inner : Text} (h : enclosed? opener closer t = some inner) : NoLiteral t := by
  have first : isAsciiLetter opener = false ∧ isDigit opener = false ∧ isBlank opener = false
      ∧ opener ∉ ['-', '+', '.'] ∧ isLiteralLetter opener = false := by
    rcases hpair with ⟨rfl, rfl⟩ | ⟨rfl, rfl⟩ | ⟨rfl, rfl⟩ <;> decide
  obtain ⟨hletter, hdigit, hblank, hsign, hliteral⟩ := first
  have atoms := atoms_of_enclosed? h hblank
  obtain ⟨rfl, -⟩ := eq_of_enclosed? h
  refine ⟨constant?_eq_none (not_keyword_of_mem List.mem_cons_self hletter),
    numberValue?_eq_none hdigit hsign _, Text.stringValue?_eq_none ?_ atoms⟩
  exact literalParts?_eq_none (a := []) (fun c hc => absurd hc List.not_mem_nil)
    hpair.not_isMark.1 hliteral _

theorem noLiteral_of_brackets {opener closer : Char} (hpair : BracketPair opener closer)
    {inner : Text} (h : Keeps (fun _ => false) inner) :
    NoLiteral (opener :: (inner ++ [closer])) :=
  noLiteral_of_enclosed? hpair (enclosed?_of_brackets hpair h)

/-- What begins like a name is no number. -/
theorem numberValue?_eq_none_of_isNameStart {c : Char} (h : isNameStart c = true) (rest : Text) :
    numberValue? (c :: rest) = none :=
  numberValue?_eq_none (not_isDigit_of_isNameStart h)
    (not_mem_of_isNameChar (isNameChar_of_isNameStart h) (by decide)) rest

theorem noLiteral_of_isPath {t : Text} (h : isPath t = true) : NoLiteral t := by
  obtain ⟨c, rest, hhead, hc⟩ := exists_head_of_isPath h
  refine ⟨constant?_eq_none (not_keyword_of_isPath h),
    hhead ▸ numberValue?_eq_none_of_isNameStart hc rest, ?_⟩
  exact (solid_of_isPath h).stringValue?_eq_none
    (literalParts?_eq_none_of_unquoted fun d hd => (plain_of_isPath h hd).1.1)

theorem noLiteral_of_call {name inner : Text} (hname : isPath name = true)
    (h : Keeps (fun _ => false) inner) : NoLiteral (name ++ '(' :: (inner ++ [')'])) := by
  obtain ⟨c, rest, hhead, hc⟩ := exists_head_of_isPath hname
  have paren : '(' ∈ name ++ '(' :: (inner ++ [')']) :=
    List.mem_append_right name List.mem_cons_self
  refine ⟨constant?_eq_none (not_keyword_of_mem paren (by decide)), ?_, ?_⟩
  · rw [hhead]
    exact numberValue?_eq_none_of_isNameStart hc _
  · exact ((solid_of_isPath hname).of_call h).stringValue?_eq_none
      (literalParts?_eq_none (fun d hd => (plain_of_isPath hname hd).1.1) (by decide)
        (by decide) _)

/-! ## §3. One lemma for each form. -/

variable {inner : Classifier}

/-- A solid text has no comma at top level, so each form is tried in turn. -/
theorem classifyForm_of_solid {t : Text} (h : Solid t) :
    classifyForm inner t
      = if let some v := constant? t then ⟨.literal v, []⟩
        else if let some r := numberValue? t then r.map .literal
        else if let some s := stringValue? t then ⟨.literal (.string s), []⟩
        else if let some enclosed := enclosed? '[' ']' t then classifyList inner t enclosed
        else if let some enclosed := enclosed? '{' '}' t then classifyDict inner t enclosed
        else if let some enclosed := enclosed? '(' ')' t then classifyTuple inner t enclosed
        else (classifyName? inner t).getD (unclassified t (.unrecognizedExpression t)) := by
  have nonempty : ¬ t.isEmpty = true := fun hempty => h.nonempty (List.isEmpty_iff.1 hempty)
  have comma : ¬ t.hasTopLevel ',' = true := by
    rw [h.keeps.hasTopLevel_eq_false rfl]
    exact Bool.false_ne_true
  unfold classifyForm
  exact (if_neg nonempty).trans (if_neg comma)

/-- Brackets are no literal, and are classified by what they enclose. -/
theorem classifyForm_of_square {enclosed : Text} (h : Keeps (fun _ => false) enclosed) :
    classifyForm inner ('[' :: (enclosed ++ [']']))
      = classifyList inner ('[' :: (enclosed ++ [']'])) enclosed := by
  have pair : BracketPair '[' ']' := .inr (.inl ⟨rfl, rfl⟩)
  have no := noLiteral_of_brackets pair h
  rw [classifyForm_of_solid (.of_brackets pair h), no.constant, no.number, no.string,
    enclosed?_of_brackets pair h]

theorem classifyForm_of_braces {enclosed : Text} (h : Keeps (fun _ => false) enclosed) :
    classifyForm inner ('{' :: (enclosed ++ ['}']))
      = classifyDict inner ('{' :: (enclosed ++ ['}'])) enclosed := by
  have pair : BracketPair '{' '}' := .inr (.inr ⟨rfl, rfl⟩)
  have no := noLiteral_of_brackets pair h
  rw [classifyForm_of_solid (.of_brackets pair h), no.constant, no.number, no.string,
    enclosed?_cons_of_ne (by decide), enclosed?_of_brackets pair h]

theorem classifyForm_of_parentheses {enclosed : Text} (h : Keeps (fun _ => false) enclosed) :
    classifyForm inner ('(' :: (enclosed ++ [')']))
      = classifyTuple inner ('(' :: (enclosed ++ [')'])) enclosed := by
  have pair : BracketPair '(' ')' := .inl ⟨rfl, rfl⟩
  have no := noLiteral_of_brackets pair h
  rw [classifyForm_of_solid (.of_brackets pair h), no.constant, no.number, no.string,
    enclosed?_cons_of_ne (by decide), enclosed?_cons_of_ne (by decide),
    enclosed?_of_brackets pair h]

/-- What begins like a name is a name or a call. -/
theorem classifyForm_of_isNameStart {c : Char} {rest : Text} (h : Solid (c :: rest))
    (hno : NoLiteral (c :: rest)) (hc : isNameStart c = true) {r : Reported Initializer}
    (hname : classifyName? inner (c :: rest) = some r) : classifyForm inner (c :: rest) = r := by
  have noBracket : c ∉ ['[', '{', '('] :=
    not_mem_of_isNameChar (isNameChar_of_isNameStart hc) (by decide)
  simp only [List.mem_cons, List.not_mem_nil, or_false, not_or] at noBracket
  obtain ⟨hsquare, hbrace, hparen⟩ := noBracket
  rw [classifyForm_of_solid h, hno.constant, hno.number, hno.string,
    enclosed?_cons_of_ne hsquare, enclosed?_cons_of_ne hbrace, enclosed?_cons_of_ne hparen, hname]
  rfl

theorem classifyForm_of_isPath {t : Text} (h : isPath t = true) :
    classifyForm inner t = ⟨.name (fields '.' t), []⟩ := by
  obtain ⟨dotted, parts⟩ := dottedParts_of_isPath h
  have named : classifyName? inner t = some ⟨.name (fields '.' t), []⟩ := by
    unfold classifyName?
    rw [(keeps_of_isPath h).breakTopLevel?_eq_none fun _ hc => hc, dotted, parts]
    rfl
  obtain ⟨c, rest, rfl, hc⟩ := exists_head_of_isPath h
  exact classifyForm_of_isNameStart (solid_of_isPath h) (noLiteral_of_isPath h) hc named

/-- A call is classified by its arguments. -/
theorem classifyForm_of_call {name arguments : Text} (hname : isPath name = true)
    (h : Keeps (fun _ => false) arguments) :
    classifyForm inner (name ++ '(' :: (arguments ++ [')']))
      = (classifyItems inner .callArguments argumentValue arguments).map
          (.call (fields '.' name)) := by
  obtain ⟨dotted, parts⟩ := dottedParts_of_isPath hname
  -- the first parenthesis at top level is that of the call
  have called : classifyName? inner (name ++ '(' :: (arguments ++ [')']))
      = some ((classifyItems inner .callArguments argumentValue arguments).map
          (.call (fields '.' name))) := by
    unfold classifyName?
    rw [(keeps_of_isPath hname).breakTopLevel?_append (fun _ hc => hc) (by decide) rfl]
    dsimp only
    rw [enclosed?_of_brackets (.inl ⟨rfl, rfl⟩) h, (solid_of_isPath hname).trimmed]
    dsimp only
    rw [dotted, parts]
    rfl
  have solid := (solid_of_isPath hname).of_call h
  have no := noLiteral_of_call hname h
  obtain ⟨c, rest, rfl, hc⟩ := exists_head_of_isPath hname
  exact classifyForm_of_isNameStart solid no hc called

end ClassOutline.Text
