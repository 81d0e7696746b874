/-
  ClassOutline.Proofs.Nesting.SignBytes
  ────────────────────────────────
  **WHICH SIGN ASSIGNS, BY THE BYTES AROUND IT.**

  Whether an `=` assigns is decided by one byte behind it and two in front
  (`AssignsAt`), so the assignment of a text is at the first `=` at top level that
  these bytes let through (`assignment?_closed_form`).

  The search keeps the characters it has passed, and never looks at bytes.  Both
  agree because all characters that matter are of one byte, and that byte stands in
  no other character (`assignsAt_iff`).
-/
import ClassOutline.Proofs.Nesting.Signs
import ClassOutline.Proofs.Text.Bytes

namespace ClassOutline

/-! ## §1. The bytes that let a sign assign. -/

/-- The `=` at an offset assigns, by the bytes around it: it is not doubled and not part of `!=` or
`:=`, and an angle bracket in front of it is doubled. -/
def AssignsAt (bytes : List UInt8) (offset : Nat) : Prop :=
  bytes[offset + 1]? ≠ some '='.toUInt8
    ∧ Text.byteBefore? bytes offset 1 ∉ ['=', '!', ':'].map (fun x => some x.toUInt8)
    ∧ (Text.byteBefore? bytes offset 1 ∈ ['<', '>'].map (fun x => some x.toUInt8) →
        Text.byteBefore? bytes offset 2 = Text.byteBefore? bytes offset 1)

instance (bytes : List UInt8) (offset : Nat) : Decidable (AssignsAt bytes offset) :=
  inferInstanceAs (Decidable (_ ∧ _ ∧ _))

/-- The same, character by character. -/
theorem assignsAt_iff_forall (bytes : List UInt8) (offset : Nat) :
    AssignsAt bytes offset ↔ bytes[offset + 1]? ≠ some '='.toUInt8
      ∧ (∀ x ∈ ['=', '!', ':'], Text.byteBefore? bytes offset 1 ≠ some x.toUInt8)
      ∧ ∀ x ∈ ['<', '>'], Text.byteBefore? bytes offset 1 = some x.toUInt8 →
          Text.byteBefore? bytes offset 2 = some x.toUInt8 := by
  refine and_congr_right fun _ => and_congr ?_ ?_
  · rw [List.mem_map, not_exists]
    exact forall_congr' fun x => not_and.trans (forall_congr' fun _ => not_congr eq_comm)
  · constructor
    · intro h x hx hlast
      rw [h (List.mem_map.2 ⟨x, hx, hlast.symm⟩), hlast]
    · intro h hmem
      obtain ⟨x, hx, hlast⟩ := List.mem_map.1 hmem
      rw [h x hx hlast.symm, hlast]

namespace Text

variable {x : Char} (seen rest : Text)

/-- The byte in front of an offset is a character of one byte if this is passed last. -/
theorem byteBefore?_one_iff (hx : x.toNat < 128) :
    byteBefore? (bytes (seen.reverse ++ rest)) (byteLength seen.reverse) 1 = some x.toUInt8
      ↔ seen.head? = some x := by
  rw [byteBefore?_one, getLast?_bytes_iff hx, List.getLast?_reverse]

/-- Before such a character the byte in front of it is the one that is passed before it. -/
theorem byteBefore?_two_iff (hx : x.toNat < 128) (hhead : seen.head? = some x) :
    byteBefore? (bytes (seen.reverse ++ rest)) (byteLength seen.reverse) 2 = some x.toUInt8
      ↔ seen[1]? = some x := by
  obtain ⟨before, rfl⟩ := List.head?_eq_some_iff.1 hhead
  rw [List.reverse_cons, byteBefore?_two _ _ hx, getLast?_bytes_iff hx, List.getLast?_reverse,
    List.getElem?_cons_succ, List.head?_eq_getElem?]

end Text

namespace Assignment

/-- An operator is found, maybe an empty one, unless a comparison or a walrus ends there. -/
theorem isSome_operatorBefore?_iff (seen : Text) :
    (operatorBefore? seen).isSome = true
      ↔ (∀ x ∈ ['=', '!', ':'], seen.head? ≠ some x)
        ∧ ∀ x ∈ ['<', '>'], seen.head? = some x → seen[1]? = some x := by
  unfold operatorBefore?
  split
  case h_5 c rest less greater _ _ =>
    -- the last character is not doubled, so an angle bracket compares
    have once : ∀ x ∈ ['<', '>'], c = x → rest[0]? ≠ some x := by
      intro x hx hc hnext
      obtain ⟨later, rfl⟩ := List.head?_eq_some_iff.1 (List.head?_eq_getElem?.trans hnext)
      simp only [List.mem_cons, List.not_mem_nil, or_false] at hx
      rcases hx with rfl | rfl
      · exact less later hc rfl
      · exact greater later hc rfl
    have parts : c ∈ ['<', '>', '!', ':', '='] ↔ c ∈ ['=', '!', ':'] ∨ c ∈ ['<', '>'] := by
      simp only [List.mem_cons, List.not_mem_nil, or_false]
      tauto
    split
    · next hmem =>
      refine iff_of_false nofun fun h => ?_
      rcases parts.1 hmem with hc | hc
      · exact h.1 c hc rfl
      · exact once c hc rfl (h.2 c hc rfl)
    · next hmem =>
      refine iff_of_true (by split <;> rfl) ⟨fun x hx hhead => ?_, fun x hx hhead => ?_⟩
      · obtain rfl := Option.some.inj hhead
        exact hmem (parts.2 (.inl hx))
      · obtain rfl := Option.some.inj hhead
        exact absurd (parts.2 (.inr hx)) hmem
  all_goals simp

/-- **THE BYTES AROUND A SIGN SAY WHAT THE CHARACTERS AROUND IT SAY.** -/
theorem assignsAt_iff (seen rest : Text) :
    AssignsAt (Text.bytes (seen.reverse ++ '=' :: rest)) (Text.byteLength seen.reverse)
      ↔ rest.head? ≠ some '=' ∧ (operatorBefore? seen).isSome = true := by
  have ascii : ∀ x ∈ ['=', '!', ':', '<', '>'], x.toNat < 128 := by simp
  have behind := Text.getElem?_bytes_behind seen.reverse rest (x := '=') (by decide)
  rw [isSome_operatorBefore?_iff, assignsAt_iff_forall, behind, ne_eq,
    Text.head?_bytes_iff (by decide)]
  refine and_congr_right fun _ => and_congr ?_ ?_
  · refine forall₂_congr fun x hx => not_congr ?_
    exact Text.byteBefore?_one_iff seen _ (ascii x (List.mem_append_left ['<', '>'] hx))
  · refine forall₂_congr fun x hx => ?_
    have small := ascii x (List.mem_append_right ['=', '!', ':'] hx)
    rw [Text.byteBefore?_one_iff seen _ small]
    exact forall_congr' fun hhead => Text.byteBefore?_two_iff seen _ small hhead

end Assignment

/-! ## §2. The first sign that assigns. -/

namespace Lexeme

variable {p : Char → Bool} {l : Lexeme}

/-- The byte offsets of the units at top level that satisfy `p`, the first unit being at `start`. -/
def offsetsTop (p : Char → Bool) (start : Nat) (ls : List Lexeme) : List Nat :=
  ((located start ls).filter fun (_, l) => l.matchesTop p).map Prod.fst

theorem offsetsTop_cons_of_pos (h : l.matchesTop p = true) (start : Nat) (ls : List Lexeme) :
    offsetsTop p start (l :: ls) = start :: offsetsTop p (start + l.text.byteLength) ls := by
  unfold offsetsTop
  rw [located, List.filter_cons, if_pos h, List.map_cons]

theorem offsetsTop_cons_of_neg (h : ¬ l.matchesTop p = true) (start : Nat) (ls : List Lexeme) :
    offsetsTop p start (l :: ls) = offsetsTop p (start + l.text.byteLength) ls := by
  unfold offsetsTop
  rw [located, List.filter_cons, if_neg h]

end Lexeme

/-- The first unit of a text stands at its beginning. -/
theorem Text.topLevelOffsets_eq (p : Char → Bool) (t : Text) :
    t.topLevelOffsets p = Lexeme.offsetsTop p 0 t.lexemes := rfl

namespace Assignment

/-- A sign at top level is a unit of its own. -/
theorem tail_of_matchesTop {n : Nesting} {t : Text} {l : Lexeme} (hl : l ∈ n.lexemes t)
    (hsign : l.matchesTop (· == '=') = true) : l.tail = [] := by
  fun_induction Nesting.lexemes n t with
  | case1 => exact absurd hl List.not_mem_nil
  | case2 n c rest ih =>
      rcases List.mem_cons.1 hl with rfl | hl
      · obtain ⟨htop, hhead⟩ := Bool.and_eq_true_iff.1 hsign
        obtain rfl : c = '=' := eq_of_beq hhead
        obtain rfl : n = .closed := Nesting.eq_closed htop
        rfl
      · exact ih hl

/-- The first of the units is taken for the sign if it is one at top level and the bytes let it. -/
theorem isSome_operator_iff (seen : Text) {l : Lexeme} (ls : List Lexeme)
    (htail : l.matchesTop (· == '=') = true → l.tail = []) :
    (if l.matchesTop (· == '=') && !(ls.head?.any fun next => next.head == '=')
        then operatorBefore? seen else none).isSome = true
      ↔ l.matchesTop (· == '=') = true
        ∧ AssignsAt (Text.bytes (seen.reverse ++ Lexeme.concat (l :: ls)))
            (Text.byteLength seen.reverse) := by
  by_cases hsign : l.matchesTop (· == '=') = true
  · -- the sign has no tail, so the byte behind it is the first of the next unit
    have whole : Lexeme.concat (l :: ls) = '=' :: Lexeme.concat ls := by
      rw [Lexeme.concat_cons, htail hsign, eq_of_beq (Bool.and_eq_true_iff.1 hsign).2]
      rfl
    have next : (Lexeme.concat ls).head? ≠ some '='
        ↔ (!(ls.head?.any fun k => k.head == '=')) = true := by
      cases ls with
      | nil => exact iff_of_true nofun rfl
      | cons k ls => simp
    rw [whole, assignsAt_iff, next, hsign, Bool.true_and]
    split
    · next hfree => simp [hfree]
    · next hfree => simp [hfree]
  · simp [hsign]

/-- Target and operator make up what stands before the sign. -/
theorem byteLength_target_add {seen operator : Text} (h : operatorBefore? seen = some operator) :
    Text.byteLength (seen.drop operator.length).reverse + operator.byteLength
      = Text.byteLength seen.reverse := by
  obtain ⟨palindrome, hseen⟩ := eq_of_operatorBefore? h
  conv => rhs; rw [hseen, List.reverse_append, palindrome, Text.byteLength_append]

/-- **THE SEARCH FINDS THE FIRST SIGN AT TOP LEVEL THAT THE BYTES AROUND IT LET ASSIGN.** -/
theorem map_signOffset_inUnits? (seen : Text) {ls : List Lexeme}
    (htail : ∀ l ∈ ls, l.matchesTop (· == '=') = true → l.tail = []) :
    (inUnits? seen ls).map signOffset
      = (Lexeme.offsetsTop (· == '=') (Text.byteLength seen.reverse) ls).find?
          fun offset => AssignsAt (Text.bytes (seen.reverse ++ Lexeme.concat ls)) offset := by
  -- unit by unit; what is passed moves from the units to `seen`, and the text stays the same
  induction ls generalizing seen with
  | nil => rfl
  | cons l ls ih =>
      have first := isSome_operator_iff seen ls (htail l List.mem_cons_self)
      have later := ih (l.text.reverse ++ seen) fun k hk => htail k (List.mem_cons_of_mem l hk)
      rw [List.reverse_append, List.reverse_reverse, List.append_assoc, Text.byteLength_append]
        at later
      rw [inUnits?]
      split
      · next operator hoperator =>
        -- the search ends here, and so does the other
        rw [hoperator] at first
        obtain ⟨hsign, hassigns⟩ := first.1 rfl
        rw [Option.ite_none_right_eq_some] at hoperator
        rw [Lexeme.offsetsTop_cons_of_pos hsign, List.find?_cons_of_pos]
        · exact congrArg some (byteLength_target_add hoperator.2)
        · exact decide_eq_true hassigns
      · next hoperator =>
        rw [hoperator] at first
        -- passed over by both: a sign that does not assign, or no sign
        by_cases hsign : l.matchesTop (· == '=') = true
        · rw [Lexeme.offsetsTop_cons_of_pos hsign, List.find?_cons_of_neg]
          · exact later
          · intro hassigns
            exact Bool.false_ne_true (first.2 ⟨hsign, of_decide_eq_true hassigns⟩)
        · rw [Lexeme.offsetsTop_cons_of_neg hsign]
          exact later

/-! ## §3. The operator in front of the sign. -/

/-- The characters that are doubled in an operator of two. -/
def doubledSigns : List Char := ['<', '>', '*', '/']

/-- The characters that are operators by themselves. -/
def singleSigns : List Char := ['+', '-', '*', '/', '%', '&', '|', '^', '@']

/-- The operators that may stand in front of a sign; the empty one is that of a plain assignment. -/
def operators : List Text :=
  [[], ['+'], ['-'], ['*'], ['/'], ['%'], ['&'], ['|'], ['^'], ['@'], ['*', '*'], ['/', '/'],
   ['<', '<'], ['>', '>']]

/-- The characters that operators end in. -/
def operatorEnds : List Char := ['+', '-', '*', '/', '%', '&', '|', '^', '@', '<', '>']

/-- An operator is a doubled sign, a single one, or empty where none stands. -/
theorem operatorBefore?_cases {seen operator : Text} (h : operatorBefore? seen = some operator) :
    (∃ x ∈ doubledSigns, ∃ rest, seen = x :: x :: rest ∧ operator = [x, x])
      ∨ (∃ x ∈ singleSigns, ∃ rest, seen = x :: rest ∧ operator = [x])
      ∨ (operator = [] ∧ ∀ x ∈ operatorEnds, seen.head? ≠ some x) := by
  unfold operatorBefore? at h
  split at h
  case h_5 c rest _ _ _ _ =>
    split at h
    · exact nomatch h
    · next hplain =>
      split at h
      · next hc =>
        obtain rfl := Option.some.inj h
        exact .inr (.inl ⟨c, hc, rest, rfl, rfl⟩)
      · next hc =>
        obtain rfl := Option.some.inj h
        refine .inr (.inr ⟨rfl, fun x hx hhead => ?_⟩)
        obtain rfl := Option.some.inj hhead
        rcases List.mem_append (s := singleSigns).1 hx with hsingle | hangle
        · exact hc hsingle
        · exact hplain (List.mem_append_left ['!', ':', '='] hangle)
  case h_6 =>
    obtain rfl := Option.some.inj h
    exact .inr (.inr ⟨rfl, nofun⟩)
  all_goals
    obtain rfl := Option.some.inj h
    exact .inl ⟨_, by decide, _, rfl, rfl⟩

theorem mem_operators {seen operator : Text} (h : operatorBefore? seen = some operator) :
    operator ∈ operators := by
  rcases operatorBefore?_cases h with ⟨x, hx, rest, -, rfl⟩ | ⟨x, hx, rest, -, rfl⟩ | ⟨rfl, -⟩
  · have doubled : ∀ x ∈ doubledSigns, [x, x] ∈ operators := by simp [doubledSigns, operators]
    exact doubled x hx
  · have single : ∀ x ∈ singleSigns, [x] ∈ operators := by simp [singleSigns, operators]
    exact single x hx
  · exact List.mem_cons_self

theorem ne_nil_iff_of_operatorBefore? {seen operator : Text}
    (h : operatorBefore? seen = some operator) :
    operator ≠ [] ↔ ∃ x ∈ operatorEnds, seen.head? = some x := by
  rcases operatorBefore?_cases h with
    ⟨x, hx, rest, rfl, rfl⟩ | ⟨x, hx, rest, rfl, rfl⟩ | ⟨rfl, hnone⟩
  · have ends : ∀ x ∈ doubledSigns, x ∈ operatorEnds := by simp [doubledSigns, operatorEnds]
    exact iff_of_true (List.cons_ne_nil x [x]) ⟨x, ends x hx, rfl⟩
  · exact iff_of_true (List.cons_ne_nil x []) ⟨x, List.mem_append_left ['<', '>'] hx, rfl⟩
  · refine iff_of_false (fun hne => hne rfl) ?_
    rintro ⟨x, hx, hhead⟩
    exact hnone x hx hhead

/-- A doubled star or slash is one operator. -/
theorem operatorBefore?_of_doubled {seen : Text} {x : Char} (hx : x ∈ ['*', '/'])
    (hlast : seen.head? = some x) (hbefore : seen[1]? = some x) :
    operatorBefore? seen = some [x, x] := by
  obtain ⟨later, rfl⟩ := List.head?_eq_some_iff.1 hlast
  obtain ⟨rest, rfl⟩ := List.head?_eq_some_iff.1 (List.head?_eq_getElem?.trans hbefore)
  simp only [List.mem_cons, List.not_mem_nil, or_false] at hx
  rcases hx with rfl | rfl
  · rfl
  · rfl

/-- The operator is what was found in front of the sign. -/
theorem exists_seen_of_inUnits? {seen : Text} {ls : List Lexeme} {a : Assignment}
    (h : inUnits? seen ls = some a) :
    ∃ before, operatorBefore? before = some a.operator
      ∧ before.reverse = a.target ++ a.operator := by
  induction ls generalizing seen with
  | nil => exact nomatch h
  | cons l ls ih =>
      rw [inUnits?] at h
      split at h
      · next operator hsign =>
        obtain rfl := Option.some.inj h
        obtain ⟨-, hoperator⟩ := Option.ite_none_right_eq_some.1 hsign
        obtain ⟨palindrome, hseen⟩ := eq_of_operatorBefore? hoperator
        refine ⟨seen, hoperator, ?_⟩
        conv => lhs; rw [hseen, List.reverse_append, palindrome]
      · exact ih h

end Assignment

/-! ## §4. The closed form. -/

namespace Text

variable {t : Text} {a : Assignment}

/-- Between the two offsets of an assignment stands its operator. -/
theorem bytesBetween_operator (h : t.assignment? = some a) :
    t.bytesBetween a.operatorOffset a.signOffset = a.operator.bytes := by
  conv => lhs; rw [eq_of_assignment? h]
  exact bytesBetween_append a.target a.operator _

/-- What was passed in front of the sign ends at its offset, and ends in the operator. -/
theorem exists_seen_of_assignment? (h : t.assignment? = some a) :
    ∃ before rest, Assignment.operatorBefore? before = some a.operator
      ∧ t = before.reverse ++ rest ∧ a.signOffset = byteLength before.reverse := by
  obtain ⟨before, hoperator, hfront⟩ := Assignment.exists_seen_of_inUnits? h
  refine ⟨before, '=' :: a.value, hoperator, ?_, ?_⟩
  · rw [hfront, List.append_assoc]
    exact eq_of_assignment? h
  · rw [hfront, byteLength_append]
    rfl

/-- **THE ASSIGNMENT OF A TEXT, BY ITS BYTES.**  It is at the first `=` at top level that the bytes
around it let assign.  The bytes from one offset to the other are those of an operator, which is
the doubled star or slash if one stands there, and there are some if the assignment is augmented:
if the byte in front of the sign is one that operators end in. -/
theorem assignment?_closed_form (t : Text) :
    t.assignment?.map Assignment.signOffset
        = (t.topLevelOffsets (· == '=')).find? (fun offset => AssignsAt t.bytes offset)
      ∧ ∀ a, t.assignment? = some a →
          t.bytesBetween a.operatorOffset a.signOffset ∈ Assignment.operators.map bytes
          ∧ (∀ x ∈ ['*', '/'],
              byteBefore? t.bytes a.signOffset 1 = some x.toUInt8 →
              byteBefore? t.bytes a.signOffset 2 = some x.toUInt8 →
              t.bytesBetween a.operatorOffset a.signOffset = [x.toUInt8, x.toUInt8])
          ∧ (a.isAugmented = true ↔ t.bytesBetween a.operatorOffset a.signOffset ≠ [])
          ∧ (a.isAugmented = true ↔ ∃ x ∈ Assignment.operatorEnds,
              byteBefore? t.bytes a.signOffset 1 = some x.toUInt8) := by
  constructor
  · have tails : ∀ l ∈ t.lexemes, l.matchesTop (· == '=') = true → l.tail = [] :=
      fun l hl => Assignment.tail_of_matchesTop hl
    have search := Assignment.map_signOffset_inUnits? [] tails
    rw [concat_lexemes] at search
    rw [topLevelOffsets_eq]
    exact search
  · intro a ha
    have augmented : a.isAugmented = true ↔ a.operator ≠ [] := by
      unfold Assignment.isAugmented
      simp
    rw [bytesBetween_operator ha, augmented]
    obtain ⟨before, rest, hoperator, whole, offset⟩ := exists_seen_of_assignment? ha
    rw [whole, offset]
    -- from here on all is about the characters that were passed
    refine ⟨List.mem_map_of_mem (Assignment.mem_operators hoperator), ?_,
      (not_congr bytes_eq_nil_iff).symm, ?_⟩
    · intro x hx hlast hbefore
      have small := (by simp : ∀ x ∈ ['*', '/'], x.toNat < 128) x hx
      have last := (byteBefore?_one_iff before rest small).1 hlast
      have second := (byteBefore?_two_iff before rest small last).1 hbefore
      have doubled := Assignment.operatorBefore?_of_doubled hx last second
      rw [hoperator] at doubled
      rw [Option.some.inj doubled, bytes_cons, bytes_cons, utf8EncodeChar_of_lt small]
      rfl
    · rw [Assignment.ne_nil_iff_of_operatorBefore? hoperator]
      have small : ∀ x ∈ Assignment.operatorEnds, x.toNat < 128 := by simp [Assignment.operatorEnds]
      refine exists_congr fun x => and_congr_right fun hx => ?_
      exact (byteBefore?_one_iff before rest (small x hx)).symm

/-- Behind comparisons and a nested sign, with characters of two bytes in between. -/
theorem assignment?_closed_form_behind_comparisons :
    let t := "é<=x==f(y=1) é**=z".toList
    let a : Assignment := ⟨"é<=x==f(y=1) é".toList, ['*', '*'], ['z']⟩
    assignment? t = some a ∧ topLevelOffsets (· == '=') t = [3, 5, 6, 18]
      ∧ [3, 5, 6, 18].find? (fun offset => AssignsAt (bytes t) offset) = some 18
      ∧ bytesBetween t 16 18 = ['*'.toUInt8, '*'.toUInt8] := by
  intro t a
  have found : assignment? t = some a := by decide +kernel
  have offsets : topLevelOffsets (· == '=') t = [3, 5, 6, 18] := by decide +kernel
  obtain ⟨first, written⟩ := assignment?_closed_form t
  rw [found, offsets] at first
  refine ⟨found, offsets, first.symm, ?_⟩
  exact (written a found).2.1 '*' (by decide) (by decide +kernel) (by decide +kernel)

end Text

end ClassOutline
