/-
  ClassOutline.Proofs.Initializer.Literals
  ────────────────────────────────
  **NUMBERS AND STRINGS ARE READ AS THEY WERE WRITTEN.**

  Digits, with underscores between them, are the body of an integer: with a sign
  or without one they are read as a number (`IsIntegerBody.numberValue?_eq`).  So
  the decimal form of an integer of 64 bits is read as that integer
  (`numberValue?_ofInt`).  A quotable text between single quotes is read as that
  text (`stringValue?_of_isQuotable`).  What begins otherwise is neither.
-/
import ClassOutline.Initializer.Basic
import ClassOutline.Proofs.Text.Plain

namespace ClassOutline.Text

/-! ## §1. Digits. -/

theorem isDigit_of_mem_ofNat {n : Nat} {c : Char} (hc : c ∈ ofNat n) : isDigit c = true :=
  Nat.isDigit_of_mem_toDigits (by decide) (by decide) hc

/-- ASCII digits come before the letters. -/
theorem toNat_le_of_isDigit {c : Char} (h : isDigit c = true) : c.toNat ≤ 57 :=
  UInt32.le_iff_toNat_le.1 (of_decide_eq_true (Bool.and_eq_true_iff.1 h).2)

theorem not_isAsciiLetter_of_isDigit {c : Char} (h : isDigit c = true) : isAsciiLetter c = false := by
  have hle := toNat_le_of_isDigit h
  have above (d : Char) (hd : 57 < d.toNat) : decide (d ≤ c) = false :=
    decide_eq_false fun hdc => by
      have hnat : d.toNat ≤ c.toNat := UInt32.le_iff_toNat_le.1 hdc
      omega
  unfold isAsciiLetter
  rw [above 'a' (by decide), above 'A' (by decide)]
  rfl

theorem not_isDigit_of_isNameStart {c : Char} (h : isNameStart c = true) : isDigit c = false := by
  refine Bool.eq_false_iff.2 fun hdigit => ?_
  have ascii : c.toNat < 128 := Nat.lt_of_le_of_lt (toNat_le_of_isDigit hdigit) (by decide)
  have letter : isLetter c = false := by
    unfold isLetter
    rw [if_pos ascii]
    exact not_isAsciiLetter_of_isDigit hdigit
  have underscore : c ≠ '_' := by
    rintro rfl
    exact absurd hdigit (by decide)
  unfold isNameStart at h
  rw [letter, beq_false_of_ne underscore] at h
  exact nomatch h

theorem isNameChar_of_isDigit {c : Char} (h : isDigit c = true) : isNameChar c = true := by
  have ascii : c.toNat < 128 := Nat.lt_of_le_of_lt (toNat_le_of_isDigit h) (by decide)
  have numeric : isNumeric c = true := by
    unfold isNumeric
    rw [if_pos ascii]
    exact h
  unfold isNameChar
  rw [numeric, Bool.or_true, Bool.true_or]

/-! ## §2. Integers. -/

/-- The body of an integer literal: ASCII digits, with underscores only between them. -/
structure IsIntegerBody (body : Text) : Prop where
  chars : ∀ c ∈ body, isDigit c = true ∨ c = '_'
  digit : ∃ c ∈ body, isDigit c = true
  first : body.head? ≠ some '_'
  last : body.getLast? ≠ some '_'

theorem isIntegerBody_iff {body : Text} :
    IsIntegerBody body ↔ body.all (fun c => isDigit c || c == '_') = true ∧ body.any isDigit = true
      ∧ body.head? ≠ some '_' ∧ body.getLast? ≠ some '_' := by
  simp only [List.all_eq_true, List.any_eq_true, Bool.or_eq_true, beq_iff_eq]
  exact ⟨fun ⟨chars, digit, first, last⟩ => ⟨chars, digit, first, last⟩,
    fun ⟨chars, digit, first, last⟩ => ⟨chars, digit, first, last⟩⟩

instance (body : Text) : Decidable (IsIntegerBody body) := decidable_of_iff _ isIntegerBody_iff.symm

theorem IsIntegerBody.exists_head {body : Text} (h : IsIntegerBody body) :
    ∃ c rest, body = c :: rest ∧ isDigit c = true := by
  obtain ⟨d, hd, -⟩ := h.digit
  obtain ⟨c, rest, rfl⟩ := List.exists_cons_of_ne_nil (List.ne_nil_of_mem hd)
  refine ⟨c, rest, rfl, (h.chars c List.mem_cons_self).resolve_right ?_⟩
  rintro rfl
  exact h.first rfl

theorem IsIntegerBody.trimStart_eq {body : Text} (h : IsIntegerBody body) :
    trimStart body = body := by
  obtain ⟨c, rest, rfl, hc⟩ := h.exists_head
  have hblank : isBlank c = false := not_isBlank_of_isNameChar (isNameChar_of_isDigit hc)
  exact List.dropWhile_cons_of_neg (by rw [hblank]; exact Bool.false_ne_true)

/-- A body has no sign. -/
theorem IsIntegerBody.signAndBody_eq {body : Text} (h : IsIntegerBody body) :
    signAndBody body = (false, body) := by
  obtain ⟨c, rest, rfl, hc⟩ := h.exists_head
  unfold signAndBody
  split
  · next hminus =>
    rw [(List.cons.inj hminus).1] at hc
    exact absurd hc (by decide)
  · next hplus =>
    rw [(List.cons.inj hplus).1] at hc
    exact absurd hc (by decide)
  · rfl

theorem IsIntegerBody.not_mem {body : Text} (h : IsIntegerBody body) {c : Char}
    (hdigit : isDigit c = false) (hunderscore : c ≠ '_') : c ∉ body := by
  intro hmem
  rcases h.chars c hmem with hc | hc
  · rw [hc] at hdigit
    exact nomatch hdigit
  · exact hunderscore hc

/-- The digits of a body are those of a number. -/
theorem IsIntegerBody.numberDigits?_eq {body : Text} (h : IsIntegerBody body) :
    numberDigits? body = some (body.filter (· != '_')) := by
  have all : body.all (fun c => isDigit c || c == '.' || c == '_') = true := by
    refine List.all_eq_true.2 fun c hc => ?_
    rcases h.chars c hc with hdigit | rfl
    · rw [hdigit, Bool.true_or, Bool.true_or]
    · rfl
  exact if_pos ⟨List.any_eq_true.2 h.digit, all, h.first, h.last⟩

/-- **A SIGN AND THE BODY OF AN INTEGER ARE AN INTEGER.** -/
theorem IsIntegerBody.numberValue?_eq {t body : Text} {negative : Bool} (h : IsIntegerBody body)
    (hsign : signAndBody t = (negative, body)) :
    numberValue? t = some (integerValue t negative (body.filter (· != '_'))) := by
  have point : '.' ∉ body.filter (· != '_') := fun hmem =>
    h.not_mem rfl (by decide) (List.mem_of_mem_filter hmem)
  unfold numberValue?
  rw [hsign]
  dsimp only
  rw [h.numberDigits?_eq]
  dsimp only
  rw [fields_of_not_mem point]

/-! ## §3. Numbers in decimal form. -/

theorem ofNat_ne_nil (n : Nat) : ofNat n ≠ [] := Nat.toDigits_ne_nil

/-- **THE DIGITS OF A NUMBER ARE READ BACK AS THE NUMBER.** -/
theorem decimalValue_ofNat (n : Nat) : decimalValue (ofNat n) = n :=
  Nat.ofDigitChars_ten_toDigits

theorem underscore_not_mem_ofNat (n : Nat) : '_' ∉ ofNat n :=
  fun hmem => absurd (isDigit_of_mem_ofNat hmem) (by decide)

theorem isIntegerBody_ofNat (n : Nat) : IsIntegerBody (ofNat n) where
  chars _ hc := .inl (isDigit_of_mem_ofNat hc)
  digit := by
    obtain ⟨c, hc⟩ := List.exists_mem_of_ne_nil _ (ofNat_ne_nil n)
    exact ⟨c, hc, isDigit_of_mem_ofNat hc⟩
  first h := underscore_not_mem_ofNat n (List.mem_of_mem_head? h)
  last h := underscore_not_mem_ofNat n (List.mem_of_getLast? h)

/-- What is read of a sign and digits, given that the value fits. -/
theorem numberValue?_of_signAndBody {t : Text} {negative : Bool} {k : Nat} {n : Int}
    (hsign : signAndBody t = (negative, ofNat k)) (hn : (if negative then -(k : Int) else k) = n)
    (hlow : -0x8000000000000000 ≤ n) (hhigh : n < 0x8000000000000000) :
    numberValue? t = some ⟨.int n, []⟩ := by
  have kept : (ofNat k).filter (· != '_') = ofNat k :=
    List.filter_eq_self.2 fun c hc => bne_iff_ne.2 fun heq => underscore_not_mem_ofNat k (heq ▸ hc)
  rw [(isIntegerBody_ofNat k).numberValue?_eq hsign, kept, integerValue, decimalValue_ofNat, hn,
    if_pos ⟨hlow, hhigh⟩]

/-- **AN INTEGER OF 64 BITS IS READ AS IT WAS WRITTEN.** -/
theorem numberValue?_ofInt {n : Int} (hlow : -0x8000000000000000 ≤ n)
    (hhigh : n < 0x8000000000000000) : numberValue? (ofInt n) = some ⟨.int n, []⟩ := by
  have body := isIntegerBody_ofNat n.natAbs
  unfold ofInt
  split
  · have sign : signAndBody ('-' :: ofNat n.natAbs) = (true, ofNat n.natAbs) :=
      congrArg (Prod.mk true) body.trimStart_eq
    exact numberValue?_of_signAndBody sign (by rw [if_pos rfl]; omega) hlow hhigh
  · exact numberValue?_of_signAndBody body.signAndBody_eq
      (by rw [if_neg Bool.false_ne_true]; omega) hlow hhigh

/-- What begins with neither a digit, a point nor a sign is no number; an underscore in front is
none of its digits. -/
theorem numberValue?_eq_none {c : Char} (hdigit : isDigit c = false)
    (hsign : c ∉ ['-', '+', '.']) (rest : Text) : numberValue? (c :: rest) = none := by
  simp only [List.mem_cons, List.not_mem_nil, or_false, not_or] at hsign
  obtain ⟨hminus, hplus, hpoint⟩ := hsign
  have sign : signAndBody (c :: rest) = (false, c :: rest) := by
    unfold signAndBody
    split
    · next heq => exact absurd (List.cons.inj heq).1 hminus
    · next heq => exact absurd (List.cons.inj heq).1 hplus
    · rfl
  have digits : numberDigits? (c :: rest) = none := by
    unfold numberDigits?
    rw [if_neg]
    rintro ⟨-, hall, hhead, -⟩
    have hc := List.all_eq_true.1 hall c List.mem_cons_self
    rw [hdigit, beq_false_of_ne hpoint, Bool.false_or, Bool.false_or] at hc
    exact hhead (congrArg some (eq_of_beq hc))
  unfold numberValue?
  rw [sign]
  dsimp only
  rw [digits]

/-! ## §4. Strings. -/

/-- **A QUOTABLE TEXT BETWEEN QUOTES IS READ AS IT WAS WRITTEN.** -/
theorem stringValue?_of_isQuotable {s : Text} (hs : isQuotable s = true) :
    stringValue? ('\'' :: (s ++ ['\''])) = some s := by
  have parts : literalParts? ('\'' :: (s ++ ['\''])) = some ([], '\'' :: (s ++ ['\''])) := rfl
  have literal : isStringLiteral ('\'' :: (s ++ ['\''])) = true := by
    unfold isStringLiteral
    rw [parts]
    dsimp only
    rw [(isGroup_of_isQuotable hs).leadingGroup?]
    rfl
  -- three quotes in front would leave the second one bare
  have notTriple : startsWith ('\'' :: (s ++ ['\''])) Quote.tripleSingle.delimiter = false := by
    cases s with
    | nil => rfl
    | cons c rest =>
        have hc : ('\'' == c) = false := quote_ne_head_of_isQuotable hs
        show (('\'' == '\'') && (('\'' == c) && _)) = false
        rw [hc, Bool.false_and, Bool.and_false]
  have notDouble : startsWith ('\'' :: (s ++ ['\''])) Quote.tripleDouble.delimiter = false := rfl
  have single : startsWith ('\'' :: (s ++ ['\''])) Quote.single.delimiter = true := rfl
  have closes : endsWith ('\'' :: (s ++ ['\''])) Quote.single.delimiter = true :=
    List.isSuffixOf_iff_suffix.2 ⟨'\'' :: s, rfl⟩
  have long : 2 * 1 ≤ ('\'' :: (s ++ ['\''])).length := by
    rw [List.length_cons, List.length_append, List.length_singleton]
    omega
  have inner : (('\'' :: (s ++ ['\''])).drop 1).take (('\'' :: (s ++ ['\''])).length - 2 * 1) = s := by
    rw [List.drop_one, List.tail_cons, List.length_cons, List.length_append, List.length_singleton]
    exact List.take_left' (by omega)
  unfold stringValue? literalContents?
  rw [literal, if_pos rfl, parts]
  simp only [List.findSome?_cons, notTriple, notDouble, Bool.false_eq_true, false_and, and_false,
    if_false]
  rw [if_pos ⟨long, single, closes⟩]
  exact congrArg some inner

theorem not_quote_of_not_isMark {c : Char} (h : ¬ Quote.IsMark c) :
    (c != '\'' && c != '"') = true :=
  Bool.and_eq_true_iff.2 ⟨bne_iff_ne.2 fun hc => h (.inl hc), bne_iff_ne.2 fun hc => h (.inr hc)⟩

/-- A text without quotes is no string. -/
theorem literalParts?_eq_none_of_unquoted {t : Text} (h : ∀ c ∈ t, ¬ Quote.IsMark c) :
    literalParts? t = none := by
  have nothing : t.dropWhile (fun c => c != '\'' && c != '"') = [] :=
    List.dropWhile_eq_nil_iff.2 fun c hc => not_quote_of_not_isMark (h c hc)
  unfold literalParts?
  rw [nothing]
  rfl

/-- A text is no string if what is no letter of a literal stands before its first quote. -/
theorem literalParts?_eq_none {a : Text} (ha : ∀ c ∈ a, ¬ Quote.IsMark c) {w : Char}
    (hw : ¬ Quote.IsMark w) (hletter : isLiteralLetter w = false) (rest : Text) :
    literalParts? (a ++ w :: rest) = none := by
  -- `w` is among the characters in front of the first quote
  have letters : w ∈ (a ++ w :: rest).takeWhile fun c => c != '\'' && c != '"' := by
    rw [List.takeWhile_append_of_pos fun c hc => not_quote_of_not_isMark (ha c hc)]
    refine List.mem_append_right a ?_
    rw [List.takeWhile_cons, not_quote_of_not_isMark hw]
    exact List.mem_cons_self
  have notAll : ((a ++ w :: rest).takeWhile fun c => c != '\'' && c != '"').all isLiteralLetter
      = false := by
    refine Bool.eq_false_iff.2 fun hall => ?_
    rw [List.all_eq_true.1 hall w letters] at hletter
    exact nomatch hletter
  unfold literalParts?
  dsimp only
  rw [notAll, Bool.and_false]
  rfl

theorem isStringLiteral_of_literalParts?_eq_none {t : Text} (h : literalParts? t = none) :
    isStringLiteral t = false := by
  unfold isStringLiteral
  rw [h]

theorem stringValue?_eq_none {t : Text} (hparts : literalParts? t = none) (hatoms : t.atoms = [t]) :
    stringValue? t = none := by
  unfold stringValue?
  rw [isStringLiteral_of_literalParts?_eq_none hparts, if_neg Bool.false_ne_true, hatoms]
  exact if_neg fun h => absurd h.1 (Nat.lt_irrefl 1)

end ClassOutline.Text
