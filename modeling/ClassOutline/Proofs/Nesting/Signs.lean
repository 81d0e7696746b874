/-
  ClassOutline.Proofs.Nesting.Signs
  ────────────────────────────────
  **WHERE AN ASSIGNMENT DIVIDES A TEXT.**

  The target, the operator and the value of an assignment make up the text, with
  the sign between them (`eq_of_assignment?`).  A sign behind a space assigns if
  none stands before it, whatever the value is (`Keeps.assignment?_append`).
  Blanks around a text make no sign assign (`assignment?_trim_eq_none`).
-/
import ClassOutline.Proofs.Nesting.Rows

namespace ClassOutline

namespace Assignment

/-! ## §1. What an assignment is made of. -/

/-- An operator is the end of what stands before the sign, and reads alike backwards. -/
theorem eq_of_operatorBefore? {seen operator : Text} (h : operatorBefore? seen = some operator) :
    operator.reverse = operator ∧ seen = operator ++ seen.drop operator.length := by
  unfold operatorBefore? at h
  split at h
  case h_5 c rest _ _ _ _ =>
    split at h
    · exact nomatch h
    · split at h <;> obtain rfl := Option.some.inj h <;> exact ⟨rfl, rfl⟩
  all_goals obtain rfl := Option.some.inj h; exact ⟨rfl, rfl⟩

theorem eq_of_inUnits? {seen : Text} {ls : List Lexeme} {a : Assignment}
    (h : inUnits? seen ls = some a) :
    seen.reverse ++ Lexeme.concat ls = a.target ++ (a.operator ++ '=' :: a.value) := by
  induction ls generalizing seen with
  | nil => exact nomatch h
  | cons l ls ih =>
      rw [inUnits?] at h
      split at h
      · -- the sign is found at `l`
        next operator hsign =>
        obtain rfl := Option.some.inj h
        rw [Option.ite_none_right_eq_some] at hsign
        obtain ⟨hmatch, hoperator⟩ := hsign
        obtain ⟨palindrome, hseen⟩ := eq_of_operatorBefore? hoperator
        have sign : l.head = '=' :=
          eq_of_beq (Bool.and_eq_true_iff.1 (Bool.and_eq_true_iff.1 hmatch).1).2
        have front : seen.reverse = (seen.drop operator.length).reverse ++ operator := by
          rw [← palindrome, ← List.reverse_append, palindrome, ← hseen]
        rw [front, Lexeme.concat_cons, sign, List.append_assoc]
      · have later := ih h
        rw [List.reverse_append, List.reverse_reverse, List.append_assoc] at later
        exact later

/-! ## §2. Blanks around a text. -/

/-- An operator is at most two characters long. -/
theorem operatorBefore?_cons_cons (c d : Char) (seen : Text) :
    operatorBefore? (c :: d :: seen) = operatorBefore? [c, d] := by
  grind [operatorBefore?.eq_def]

/-- A blank is no part of an operator. -/
theorem operatorBefore?_append_blank {w : Char} (hw : Text.isBlank w = true) (seen more : Text) :
    operatorBefore? (seen ++ w :: more) = operatorBefore? seen := by
  have noComparison : w ∉ ['<', '>', '!', ':', '='] :=
    fun hmem => List.any_eq_false.1 (by decide) w hmem hw
  have noArithmetic : w ∉ ['+', '-', '*', '/', '%', '&', '|', '^', '@'] :=
    fun hmem => List.any_eq_false.1 (by decide) w hmem hw
  match seen with
  | [] =>
      show operatorBefore? (w :: more) = some []
      grind [operatorBefore?.eq_def]
  | [c] =>
      show operatorBefore? (c :: w :: more) = _
      rw [operatorBefore?_cons_cons]
      grind [operatorBefore?.eq_def]
  | c :: d :: seen =>
      show operatorBefore? (c :: d :: (seen ++ w :: more)) = _
      rw [operatorBefore?_cons_cons, operatorBefore?_cons_cons c d seen]

/-- A blank in front of a text does not make a sign assign, and hides none. -/
theorem inUnits?_append_blank {w : Char} (hw : Text.isBlank w = true) (seen : Text)
    (ls : List Lexeme) {more : Text} :
    inUnits? (seen ++ w :: more) ls = none ↔ inUnits? seen ls = none := by
  induction ls generalizing seen with
  | nil => exact Iff.rfl
  | cons l ls ih =>
      rw [inUnits?, inUnits?, operatorBefore?_append_blank hw]
      split
      · exact iff_of_false (Option.some_ne_none _) (Option.some_ne_none _)
      · rw [← List.append_assoc]
        exact ih _

/-- A blank behind a text takes no part in the search for a sign.  The last unit may take it, if
it is a lone backslash in a string, but that is no sign. -/
theorem inUnits?_lexemes_of_append {w : Char} (hw : Text.isBlank w = true) {n : Nesting}
    {a rest : Text} {seen : Text} (h : inUnits? seen (n.lexemes (a ++ w :: rest)) = none) :
    inUnits? seen (n.lexemes a) = none := by
  have noMark := Nesting.not_isMark_of_isBlank hw
  have noSign : ¬ w = '=' := by
    rintro rfl
    exact nomatch hw
  -- along the units of `a`
  fun_induction Nesting.lexemes n a generalizing seen with
  | case1 n => rfl
  | case2 n c a ih =>
      rw [List.cons_append, Nesting.lexemes_cons, Nesting.advance_append_cons noMark, inUnits?] at h
      rw [inUnits?]
      rcases Nesting.advance_within n c a with hle | ⟨rfl, hescape⟩
      · rw [List.take_append_of_le_length hle, List.drop_append_of_le_length hle] at h
        -- the next unit begins alike, and a blank is no sign
        have next : (((n.advance c a).1.lexemes (a.drop (n.advance c a).2)).head?.any
              fun unit => unit.head == '=')
            = (((n.advance c a).1.lexemes (a.drop (n.advance c a).2 ++ w :: rest)).head?.any
              fun unit => unit.head == '=') := by
          cases a.drop (n.advance c a).2 with
          | nil =>
              rw [Nesting.lexemes_nil, List.nil_append, Nesting.lexemes_cons]
              exact (beq_false_of_ne noSign).symm
          | cons d later =>
              rw [Nesting.lexemes_cons, List.cons_append, Nesting.lexemes_cons]
              rfl
        rw [next]
        split at h
        · exact absurd h (Option.some_ne_none _)
        · next hsign => exact ih h
      · -- a backslash that takes the blank stands in a string
        have inString : ¬ n.quote = none := by
          intro hquote
          have fits : (n.advance c []).2 ≤ 0 := Nesting.advance_within_of_closed
            (by rw [Nesting.afterText_cons, hescape, List.drop_nil, Nesting.afterText_nil]
                exact hquote)
          rw [hescape] at fits
          exact absurd fits (Nat.not_succ_le_zero 0)
        have noMatch (tail : Text) : Lexeme.matchesTop (· == '=') ⟨c, tail, n⟩ = false := by
          unfold Lexeme.matchesTop Lexeme.isTopLevel Nesting.isTopLevel
          rw [Option.isNone_eq_false_iff.2 (Option.isSome_iff_ne_none.2 inString), Bool.and_false]
          rfl
        rw [noMatch, List.drop_nil, Nesting.lexemes_nil]
        rfl

end Assignment

namespace Text

/-- **TARGET, OPERATOR, SIGN AND VALUE MAKE UP THE TEXT.** -/
theorem eq_of_assignment? {t : Text} {a : Assignment} (h : t.assignment? = some a) :
    t = a.target ++ (a.operator ++ '=' :: a.value) := by
  have whole := Assignment.eq_of_inUnits? h
  rwa [concat_lexemes] at whole

/-- No sign assigns behind a blank that does not assign without it. -/
theorem assignment?_blank_cons_eq_none {w : Char} (hw : isBlank w = true) {t : Text}
    (h : assignment? (w :: t) = none) : t.assignment? = none := by
  have noSign : ¬ w = '=' := by
    rintro rfl
    exact nomatch hw
  have unmatched : Lexeme.matchesTop (· == '=') ⟨w, [], .closed⟩ = false := beq_false_of_ne noSign
  unfold assignment? at h
  rw [lexemes_cons_of_isPlain (isPlain_of_isBlank hw), Assignment.inUnits?, unmatched] at h
  exact (Assignment.inUnits?_append_blank hw [] t.lexemes).1 h

/-- **TRIMMING MAKES NO SIGN ASSIGN.** -/
theorem assignment?_trim_eq_none {t : Text} (h : t.assignment? = none) :
    t.trim.assignment? = none := by
  have front : t.trimStart.assignment? = none := by
    induction t with
    | nil => exact h
    | cons w t ih =>
        unfold trimStart at ih ⊢
        rw [List.dropWhile_cons]
        split
        · next hw => exact ih (assignment?_blank_cons_eq_none hw h)
        · exact h
  obtain ⟨blanks, hblank, hsplit⟩ := t.trimStart.exists_eq_trimEnd_append
  cases blanks with
  | nil =>
      rw [List.append_nil] at hsplit
      unfold trim
      rwa [← hsplit]
  | cons w blanks =>
      rw [hsplit] at front
      exact Assignment.inUnits?_lexemes_of_append (hblank w List.mem_cons_self) front

/-! ## §3. A sign behind a space. -/

/-- **THE FIRST SIGN ASSIGNS IF A SPACE STANDS BEFORE IT**, and no other sign behind it. -/
theorem Keeps.assignment?_append {front : Text} (h : Keeps (· == '=') front) (value : Text)
    (hvalue : value.head? ≠ some '=') :
    assignment? (front ++ ' ' :: '=' :: value) = some ⟨front ++ [' '], [], value⟩ := by
  have isPlain_sign : Nesting.IsPlain '=' := isPlain_of_not_mem (by decide)
  have space : Lexeme.matchesTop (· == '=') ⟨' ', [], .closed⟩ = false := rfl
  have sign : Lexeme.matchesTop (· == '=') ⟨'=', [], .closed⟩ = true := rfl
  have single : (value.lexemes.head?.any fun next => next.head == '=') = false := by
    cases value with
    | nil =>
        unfold lexemes
        rw [Nesting.lexemes_nil]
        rfl
    | cons c value =>
        unfold lexemes
        rw [Nesting.lexemes_cons]
        exact beq_false_of_ne fun hc => hvalue (congrArg some hc)
  unfold assignment?
  rw [h.lexemes_append_cons isPlain_space.1, lexemes_cons_of_isPlain isPlain_space,
    lexemes_cons_of_isPlain isPlain_sign,
    inUnits?_append [] fun l hl => h.matchesTop_eq_false (fun _ hc => hc) hl,
    Assignment.inUnits?, space, Assignment.inUnits?, sign, single]
  simp [Assignment.operatorBefore?, Lexeme.text, concat_lexemes]

end Text

end ClassOutline
