/-
  ClassOutline.Proofs.Initializer.Integers
  ────────────────────────────────
  **INTEGERS OF 64 BITS ARE READ EXACTLY.**

  An integer is written with digits, and underscores between them, behind a sign
  and blanks if there is a sign.  `WritesInteger t n` says that `t` is written so
  and that `n` is what its digits are worth by their positions.

  Reading it is dividing it again: into sign and body (`writesInteger_iff`), and
  the body has no point, so it is one field.  A written integer is read as its
  value if that fits a signed word of 64 bits, and is kept and reported if not.
  For the converse, every other form an expression can have leads to another kind
  of value (`number_of_layer_eq_int`).
-/
import Mathlib.Data.Nat.Digits.Defs
import ClassOutline.Proofs.Initializer.Layer

namespace ClassOutline.Text

/-! ## §1. Integers as they are written. -/

/-- What the digits of a body are worth: each by its position, counted from the last one. -/
def bodyValue (body : Text) : Nat :=
  Nat.ofDigits 10 ((body.filter (· != '_')).reverse.map fun c => c.toNat - '0'.toNat)

/-- A text that writes an integer: a body, behind a sign with or without blanks after it. -/
inductive WritesInteger : Text → Int → Prop where
  | unsigned {body : Text} (h : IsIntegerBody body) : WritesInteger body (bodyValue body)
  | plus {blanks body : Text} (hblanks : ∀ c ∈ blanks, isBlank c = true) (h : IsIntegerBody body) :
      WritesInteger ('+' :: (blanks ++ body)) (bodyValue body)
  | minus {blanks body : Text} (hblanks : ∀ c ∈ blanks, isBlank c = true) (h : IsIntegerBody body) :
      WritesInteger ('-' :: (blanks ++ body)) (-(bodyValue body : Int))

/-- Digits read from the first one on are worth what their positions say. -/
theorem decimalValue_body (body : Text) :
    decimalValue (body.filter (· != '_')) = bodyValue body := by
  unfold decimalValue bodyValue
  rw [Nat.ofDigits_eq_foldr, List.foldr_map, List.foldr_reverse]
  congr 1
  funext n c
  exact Nat.add_comm _ _

/-- Behind a sign the blanks are dropped, up to the body. -/
theorem IsIntegerBody.trimStart_append {blanks body : Text} (h : IsIntegerBody body)
    (hblanks : ∀ c ∈ blanks, isBlank c = true) : trimStart (blanks ++ body) = body := by
  rw [trimStart_append_of_isBlank hblanks, h.trimStart_eq]

/-- **A WRITTEN INTEGER IS A SIGN AND A BODY**, as they are told apart. -/
theorem writesInteger_iff {t : Text} {n : Int} :
    WritesInteger t n ↔ ∃ negative body, signAndBody t = (negative, body) ∧ IsIntegerBody body
      ∧ n = if negative then -(bodyValue body : Int) else bodyValue body := by
  constructor
  · intro h
    cases h with
    | unsigned h => exact ⟨false, t, h.signAndBody_eq, h, rfl⟩
    | plus hblanks h =>
        exact ⟨false, _, congrArg (Prod.mk false) (h.trimStart_append hblanks), h, rfl⟩
    | minus hblanks h =>
        exact ⟨true, _, congrArg (Prod.mk true) (h.trimStart_append hblanks), h, rfl⟩
  · rintro ⟨negative, body, hsign, h, rfl⟩
    unfold signAndBody at hsign
    split at hsign
    · next rest =>
      obtain ⟨rfl, rfl⟩ := Prod.mk.inj hsign
      obtain ⟨blanks, hblanks, hrest⟩ := exists_eq_append_trimStart rest
      have written := WritesInteger.minus hblanks h
      rw [← hrest] at written
      exact written
    · next rest =>
      obtain ⟨rfl, rfl⟩ := Prod.mk.inj hsign
      obtain ⟨blanks, hblanks, hrest⟩ := exists_eq_append_trimStart rest
      have written := WritesInteger.plus hblanks h
      rw [← hrest] at written
      exact written
    · obtain ⟨rfl, rfl⟩ := Prod.mk.inj hsign
      exact .unsigned h

/-- Digits, underscores, signs and blanks: no written integer has a comma. -/
theorem WritesInteger.comma_not_mem {t : Text} {n : Int} (h : WritesInteger t n) : ',' ∉ t := by
  have body {b : Text} (hb : IsIntegerBody b) : ',' ∉ b := hb.not_mem rfl (by decide)
  have signed {sign : Char} {blanks b : Text} (hsign : ',' ≠ sign)
      (hblanks : ∀ c ∈ blanks, isBlank c = true) (hb : IsIntegerBody b) :
      ',' ∉ sign :: (blanks ++ b) := by
    rintro (_ | ⟨_, hmem⟩)
    · exact hsign rfl
    · rcases List.mem_append.1 hmem with hmem | hmem
      · exact absurd (hblanks ',' hmem) (by decide)
      · exact body hb hmem
  cases h with
  | unsigned h => exact body h
  | plus hblanks h => exact signed (by decide) hblanks h
  | minus hblanks h => exact signed (by decide) hblanks h

/-- Some digit is written. -/
theorem WritesInteger.exists_digit {t : Text} {n : Int} (h : WritesInteger t n) :
    ∃ c ∈ t, isDigit c = true := by
  cases h with
  | unsigned h => exact h.digit
  | plus _ h | minus _ h =>
      obtain ⟨c, hc, hdigit⟩ := h.digit
      exact ⟨c, List.mem_cons_of_mem _ (List.mem_append_right _ hc), hdigit⟩

/-! ## §2. They are read. -/

/-- **A WRITTEN INTEGER IS A NUMBER**: its value if that is one of 64 bits, and else unrecognized. -/
theorem WritesInteger.numberValue?_eq {t : Text} {n : Int} (h : WritesInteger t n) :
    numberValue? t
      = some (if -0x8000000000000000 ≤ n ∧ n < 0x8000000000000000 then ⟨.int n, []⟩
        else ⟨.unrecognized t, [.integerOutOfRange t]⟩) := by
  obtain ⟨negative, body, hsign, hbody, rfl⟩ := writesInteger_iff.1 h
  rw [hbody.numberValue?_eq hsign, integerValue, decimalValue_body]

/-- A number with a digit in it and no comma is classified as that number. -/
theorem classifyForm_of_numberValue? {inner : Classifier} {t : Text} {r : Reported Value}
    (hdigit : ∃ c ∈ t, isDigit c = true) (hcomma : ',' ∉ t) (h : numberValue? t = some r) :
    classifyForm inner t = r.map .literal := by
  obtain ⟨c, hc, hdigit⟩ := hdigit
  have nonempty : ¬ t.isEmpty = true := fun hempty =>
    List.ne_nil_of_mem hc (List.isEmpty_iff.1 hempty)
  have noComma : ¬ t.hasTopLevel ',' = true := fun hmem => hcomma (mem_of_hasTopLevel hmem)
  have noConstant : constant? t = none :=
    constant?_eq_none (not_keyword_of_mem hc (not_isAsciiLetter_of_isDigit hdigit))
  unfold classifyForm
  rw [if_neg nonempty, if_neg noComma, noConstant, h]

theorem WritesInteger.classify_eq {t : Text} {n : Int} (h : WritesInteger t.trim n) :
    classify t
      = if -0x8000000000000000 ≤ n ∧ n < 0x8000000000000000 then ⟨.literal (.int n), []⟩
        else ⟨.unrecognized t.trim, [.integerOutOfRange t.trim]⟩ := by
  unfold classify
  rw [classifyWithin, classifyForm_of_numberValue? h.exists_digit h.comma_not_mem h.numberValue?_eq]
  split
  · rfl
  · rfl

/-! ## §3. Nothing else is. -/

/-- A number's digits without a point are those of the body of an integer. -/
theorem isIntegerBody_of_numberDigits? {body digits : Text} (h : numberDigits? body = some digits)
    (hpoint : '.' ∉ digits) : IsIntegerBody body ∧ digits = body.filter (· != '_') := by
  unfold numberDigits? at h
  split at h
  · next written =>
    obtain ⟨hany, hall, hfirst, hlast⟩ := written
    obtain rfl := Option.some.inj h
    refine ⟨⟨fun c hc => ?_, List.any_eq_true.1 hany, hfirst, hlast⟩, rfl⟩
    have allowed := List.all_eq_true.1 hall c hc
    have noPoint : c ≠ '.' := by
      rintro rfl
      exact hpoint (List.mem_filter.2 ⟨hc, rfl⟩)
    rw [beq_false_of_ne noPoint, Bool.or_false, Bool.or_eq_true] at allowed
    exact allowed.imp_right eq_of_beq
  · cases h

theorem eq_of_integerValue_eq_int {t digits : Text} {negative : Bool} {n : Int}
    (h : (integerValue t negative digits).value = .int n) :
    n = if negative then -(decimalValue digits : Int) else decimalValue digits := by
  unfold integerValue at h
  extract_lets m at h
  split at h
  · exact (Value.int.inj h).symm
  · exact nomatch h

/-- A number is an integer only if it is written as one, without a point. -/
theorem writesInteger_of_numberValue? {t : Text} {r : Reported Value} {n : Int}
    (h : numberValue? t = some r) (hvalue : r.value = .int n) : WritesInteger t n := by
  unfold numberValue? at h
  obtain ⟨negative, body, hsign⟩ : ∃ negative body, signAndBody t = (negative, body) := ⟨_, _, rfl⟩
  rw [hsign] at h
  dsimp only at h
  split at h
  · cases h
  · next digits hdigits =>
    split at h
    · next whole hwhole =>
      obtain ⟨point, rfl⟩ := fields_eq_singleton_iff.1 hwhole
      obtain rfl := Option.some.inj h
      obtain ⟨hbody, rfl⟩ := isIntegerBody_of_numberDigits? hdigits point
      refine writesInteger_iff.2 ⟨negative, body, hsign, hbody, ?_⟩
      rw [eq_of_integerValue_eq_int hvalue, decimalValue_body]
    · obtain rfl := Option.some.inj h
      exact nomatch hvalue
    · cases h

theorem constant?_ne_int (t : Text) (n : Int) : constant? t ≠ some (.int n) := by
  unfold constant?
  split
  · nofun
  · split
    · nofun
    · split
      · nofun
      · nofun

/-- Whatever fills them, brackets are no integer if that is none. -/
theorem enclosedLayer_ne_int {empty : Value} {l : Layer} {n : Int} (hempty : empty ≠ .int n)
    (hl : l ≠ .literal (.int n)) (t enclosed : Text) :
    enclosedLayer empty l t enclosed ≠ .literal (.int n) := by
  unfold enclosedLayer
  split
  · nofun
  · split
    · exact fun heq => hempty (Layer.literal.inj heq)
    · exact hl

theorem nameLayer?_ne_int (t : Text) (n : Int) : nameLayer? t ≠ some (.literal (.int n)) := by
  unfold nameLayer?
  split
  · split
    · nofun
    · nofun
  · split
    · nofun
    · split
      · nofun
      · nofun

/-- **NO OTHER FORM OF AN EXPRESSION IS AN INTEGER.** -/
theorem number_of_layer_eq_int {t : Text} {n : Int} (h : t.layer = .literal (.int n)) :
    ∃ r, numberValue? t = some r ∧ r.value = .int n := by
  unfold layer at h
  split at h
  · exact nomatch h
  · split at h
    · exact nomatch h
    · -- literals, then brackets of each kind, then names
      split at h
      · next v hconstant =>
        obtain rfl := Layer.literal.inj h
        exact absurd hconstant (constant?_ne_int t n)
      · split at h
        · next r hnumber => exact ⟨r, hnumber, Layer.literal.inj h⟩
        · split at h
          · exact nomatch h
          · split at h
            · refine (enclosedLayer_ne_int ?_ ?_ t _ h).elim <;> nofun
            · split at h
              · refine (enclosedLayer_ne_int ?_ ?_ t _ h).elim
                · nofun
                · split <;> nofun
              · split at h
                · refine (enclosedLayer_ne_int ?_ ?_ t _ h).elim <;> nofun
                · cases hname : nameLayer? t with
                  | none =>
                      rw [hname] at h
                      exact nomatch h
                  | some l =>
                      rw [hname] at h
                      exact absurd (hname.trans (congrArg some h)) (nameLayer?_ne_int t n)

theorem writesInteger_of_classify {t : Text} {n : Int}
    (h : (classify t).value = .literal (.int n)) : WritesInteger t.trim n := by
  unfold classify at h
  rw [classifyWithin, classifyForm_value] at h
  have literal : t.trim.layer = .literal (.int n) := by
    cases hlayer : t.trim.layer with
    | literal v =>
        rw [hlayer] at h
        exact congrArg Layer.literal (Initializer.literal.inj h)
    | list | dict | tuple | name | call =>
        rw [hlayer] at h
        exact nomatch h
  obtain ⟨r, hnumber, hvalue⟩ := number_of_layer_eq_int literal
  exact writesInteger_of_numberValue? hnumber hvalue

/-- **INTEGERS OF 64 BITS ARE READ EXACTLY.**  A text that writes an integer is classified as that
integer, and nothing is reported, if it is one of 64 bits; otherwise it is kept as it was
written, and one literal that cannot be classified is reported.  Whatever is classified as an
integer writes that integer. -/
theorem classify_integer (t : Text) :
    (∀ n, WritesInteger t.trim n →
        (-2 ^ 63 ≤ n ∧ n ≤ 2 ^ 63 - 1 → classify t = ⟨.literal (.int n), []⟩)
        ∧ (¬ (-2 ^ 63 ≤ n ∧ n ≤ 2 ^ 63 - 1) →
          classify t = ⟨.unrecognized t.trim, [.integerOutOfRange t.trim]⟩
            ∧ (Cause.integerOutOfRange t.trim).kind = .unclassifiableLiteral))
      ∧ ∀ n, (classify t).value = .literal (.int n) → WritesInteger t.trim n := by
  refine ⟨fun n written => ⟨fun hrange => ?_, fun hrange => ?_⟩,
    fun n hvalue => writesInteger_of_classify hvalue⟩
  · rw [written.classify_eq, if_pos (by omega)]
  · exact ⟨by rw [written.classify_eq, if_neg (by omega)], rfl⟩

/-- The least integer there is, and the first one that is too large. -/
theorem classify_integer_at_bounds :
    let least : Text := " -\u00a09_223_372_036_854_775_808\t".toList
    let above : Text := "+ 009223372036854775808".toList
    classify least = ⟨.literal (.int (-2 ^ 63)), []⟩ ∧ WritesInteger least.trim (-2 ^ 63)
      ∧ WritesInteger above.trim (2 ^ 63)
      ∧ classify above = ⟨.unrecognized above, [.integerOutOfRange above]⟩ := by
  intro least above
  have writtenLeast : WritesInteger least.trim (-2 ^ 63) :=
    writesInteger_iff.2 ⟨true, "9_223_372_036_854_775_808".toList, by decide +kernel⟩
  have writtenAbove : WritesInteger above.trim (2 ^ 63) :=
    writesInteger_iff.2 ⟨false, "009223372036854775808".toList, by decide +kernel⟩
  have readLeast := ((classify_integer least).1 _ writtenLeast).1 (by decide +kernel)
  exact ⟨readLeast, (classify_integer least).2 _ (congrArg Reported.value readLeast), writtenAbove,
    (((classify_integer above).1 _ writtenAbove).2 (by decide +kernel)).1⟩

end ClassOutline.Text
