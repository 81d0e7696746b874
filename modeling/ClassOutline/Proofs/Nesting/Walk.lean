/-
  ClassOutline.Proofs.Nesting.Walk
  ────────────────────────────────
  **A WALK OVER A TEXT DOES NOT SEE HOW THE TEXT WAS TRIMMED.**

  A unit is recognised by looking ahead, so a walk over `a ++ b` need not be a
  walk over `a` and then one over `b`.  It is when `b` begins with a character
  that no delimiter has and that does nothing by itself: either `a` ends where
  a unit ends, and the character is passed over, or `a` ends in half of an
  escape, and the character is the other half (`afterText_append_cons`).

  Blanks are such characters, and so is a backslash at the very end.  Hence
  what the scanner takes from the edges of a line changes no nesting, and the
  code of a line leaves open what the line leaves open (`afterText_code`).
-/
import ClassOutline.LogicalLine.Basic

namespace ClassOutline

/-! ## §1. How far a unit looks ahead. -/

/-- A prefix without the character `w` does not reach over it. -/
theorem Text.startsWith_append_cons {w : Char} {front : Text} (hw : w ∉ front) (a rest : Text) :
    Text.startsWith (a ++ w :: rest) front = Text.startsWith a front := by
  induction front generalizing a with
  | nil =>
      show List.isPrefixOf [] _ = List.isPrefixOf [] _
      rw [List.isPrefixOf_nil_left, List.isPrefixOf_nil_left]
  | cons d front ih =>
      have hne : d ≠ w := fun h => hw (h ▸ List.mem_cons_self)
      have hw : w ∉ front := fun h => hw (List.mem_cons_of_mem _ h)
      cases a with
      | nil =>
          show ((d == w) && _) = false
          rw [beq_false_of_ne hne, Bool.false_and]
      | cons c a =>
          show ((d == c) && Text.startsWith (a ++ w :: rest) front)
            = ((d == c) && Text.startsWith a front)
          rw [ih hw a]

namespace Quote

/-- The characters that delimiters are made of. -/
def IsMark (c : Char) : Prop := c = '\'' ∨ c = '"'

instance (c : Char) : Decidable (IsMark c) := inferInstanceAs (Decidable (_ ∨ _))

theorem isMark_of_mem_delimiter {q : Quote} {c : Char} (h : c ∈ q.delimiter) : IsMark c := by
  cases q <;> simp [delimiter] at h <;> simp [IsMark, h]

/-- A delimiter that opens is there in full. -/
theorem startsWith_of_opening? {c : Char} {rest : Text} {q : Quote}
    (h : opening? c rest = some q) : Text.startsWith (c :: rest) q.delimiter = true := by
  unfold opening? at h
  split at h
  · next hc =>
    subst hc
    split at h
    · next htriple => cases h; exact htriple
    · cases h; rfl
  · split at h
    · next hc =>
      subst hc
      split at h
      · next htriple => cases h; exact htriple
      · cases h; rfl
    · cases h

/-- No delimiter stands where another character does. -/
theorem startsWith_delimiter {w : Char} (hw : ¬ IsMark w) (rest : Text) (q : Quote) :
    Text.startsWith (w :: rest) q.delimiter = false := by
  have hempty : Text.startsWith [] q.delimiter = false := by
    cases q <;> rfl
  have hq : w ∉ q.delimiter := fun h => hw (isMark_of_mem_delimiter h)
  exact (Text.startsWith_append_cons hq [] rest).trans hempty

theorem opening?_append_cons {w : Char} (hw : ¬ IsMark w) (c : Char) (a rest : Text) :
    opening? c (a ++ w :: rest) = opening? c a := by
  have hsingle : w ∉ ['\'', '\''] := fun h =>
    hw (isMark_of_mem_delimiter (q := tripleSingle) (List.mem_cons_of_mem _ h))
  have hdouble : w ∉ ['"', '"'] := fun h =>
    hw (isMark_of_mem_delimiter (q := tripleDouble) (List.mem_cons_of_mem _ h))
  unfold opening?
  rw [Text.startsWith_append_cons hsingle, Text.startsWith_append_cons hdouble]

end Quote

namespace Nesting

/-- A unit does not look over a character that no delimiter has. -/
theorem advance_append_cons {w : Char} (hw : ¬ Quote.IsMark w) (n : Nesting) (c : Char)
    (a rest : Text) : n.advance c (a ++ w :: rest) = n.advance c a := by
  unfold advance
  cases n.quote with
  | none => simp only [Quote.opening?_append_cons hw]
  | some q =>
      have hq : w ∉ q.delimiter := fun h => hw (Quote.isMark_of_mem_delimiter h)
      have hsame : Text.startsWith (c :: (a ++ w :: rest)) q.delimiter
          = Text.startsWith (c :: a) q.delimiter := Text.startsWith_append_cons hq (c :: a) rest
      simp only [hsame]

/-- A unit ends inside the text, unless it is a backslash that the text ends in. -/
theorem advance_within (n : Nesting) (c : Char) (rest : Text) :
    (n.advance c rest).2 ≤ rest.length ∨ (rest = [] ∧ n.advance c rest = (n, 1)) := by
  have fits (q : Quote) (h : Text.startsWith (c :: rest) q.delimiter = true) :
      q.delimiter.length - 1 ≤ rest.length := by
    have := (List.isPrefixOf_iff_prefix.1 h).length_le
    rw [List.length_cons] at this
    omega
  unfold advance
  split
  · split
    · cases rest with
      | nil => exact .inr ⟨rfl, rfl⟩
      | cons d rest => exact .inl (Nat.le_add_left 1 rest.length)
    · split
      · next q _ _ hstarts => exact .inl (fits q hstarts)
      · exact .inl (Nat.zero_le _)
  · split
    · next q hopen => exact .inl (fits q (Quote.startsWith_of_opening? hopen))
    · exact .inl (Nat.zero_le _)

/-! ## §2. Walks over two texts, one after the other. -/

theorem afterText_nil (n : Nesting) : n.afterText [] = n := by
  rw [afterText]

theorem afterText_cons (n : Nesting) (c : Char) (rest : Text) :
    n.afterText (c :: rest)
      = (n.advance c rest).1.afterText (rest.drop (n.advance c rest).2) := by
  rw [afterText]

/-- **A WALK CAN BE CUT AT AN IDLE CHARACTER**: one that no delimiter has and that changes
nothing in front of what follows.  The character itself may be escaped by the last one. -/
theorem afterText_append_cons {w : Char} {rest : Text} (hw : ¬ Quote.IsMark w)
    (idle : ∀ m : Nesting, m.afterText (w :: rest) = m.afterText rest) (n : Nesting) (a : Text) :
    n.afterText (a ++ w :: rest) = (n.afterText a).afterText rest := by
  fun_induction afterText n a with
  | case1 n => exact idle n
  | case2 n c a ih =>
      rw [List.cons_append, afterText_cons, advance_append_cons hw]
      rcases advance_within n c a with hle | ⟨hnil, hescape⟩
      · -- the unit ends inside `a`
        rw [List.drop_append_of_le_length hle]
        exact ih
      · -- a backslash at the end of `a` takes `w` with it
        subst hnil
        rw [hescape, List.drop_nil, afterText_nil]
        rfl

theorem not_isMark_of_isBlank {w : Char} (hw : Text.isBlank w = true) : ¬ Quote.IsMark w := by
  intro h
  rcases h with rfl | rfl
  · exact absurd hw (by decide)
  · exact absurd hw (by decide)

/-- A blank is a unit of its own and changes nothing. -/
theorem advance_of_isBlank {w : Char} (hw : Text.isBlank w = true) (n : Nesting) (rest : Text) :
    n.advance w rest = (n, 0) := by
  have ne (c : Char) (hc : Text.isBlank c = false) : w ≠ c := by
    intro h
    rw [h, hc] at hw
    exact absurd hw (by decide)
  unfold advance
  split
  · next q _ =>
    rw [if_neg (ne '\\' (by decide)), Quote.startsWith_delimiter (not_isMark_of_isBlank hw)]
    rfl
  · have hopen : Quote.opening? w rest = none := by
      unfold Quote.opening?
      rw [if_neg (ne '\'' (by decide)), if_neg (ne '"' (by decide))]
    rw [hopen]
    show (n.afterBracket w, 0) = (n, 0)
    unfold afterBracket
    rw [if_neg (ne '(' (by decide)), if_neg (ne ')' (by decide)), if_neg (ne '[' (by decide)),
      if_neg (ne ']' (by decide)), if_neg (ne '{' (by decide)), if_neg (ne '}' (by decide))]

theorem afterText_blank_cons {w : Char} (hw : Text.isBlank w = true) (n : Nesting) (rest : Text) :
    n.afterText (w :: rest) = n.afterText rest := by
  rw [afterText_cons, advance_of_isBlank hw]
  rfl

/-- A walk can be cut at a blank. -/
theorem afterText_append_blank {w : Char} (hw : Text.isBlank w = true) (n : Nesting)
    (a rest : Text) : n.afterText (a ++ w :: rest) = (n.afterText a).afterText rest :=
  afterText_append_cons (not_isMark_of_isBlank hw) (fun m => afterText_blank_cons hw m rest) n a

/-- A backslash at the very end escapes nothing. -/
theorem afterText_append_backslash (n : Nesting) (a : Text) :
    n.afterText (a ++ ['\\']) = n.afterText a := by
  have hw : ¬ Quote.IsMark '\\' := by decide
  have idle (m : Nesting) : m.afterText ['\\'] = m.afterText [] := by
    rw [afterText_cons, List.drop_nil, afterText_nil, afterText_nil]
    unfold advance
    split
    · rfl
    · rfl
  rw [afterText_append_cons hw idle, afterText_nil]

/-! ## §3. Walks over what is left of a line. -/

theorem afterText_trimStart (n : Nesting) (t : Text) : n.afterText t.trimStart = n.afterText t := by
  induction t with
  | nil => rfl
  | cons c t ih =>
      unfold Text.trimStart at ih ⊢
      by_cases hc : Text.isBlank c = true
      · rw [List.dropWhile_cons_of_pos hc, ih, afterText_blank_cons hc]
      · rw [List.dropWhile_cons_of_neg hc]

/-- Blanks at the end close nothing, and a string they end in stays open without them. -/
theorem afterText_append_blanks {blanks : Text} (hblank : ∀ c ∈ blanks, Text.isBlank c = true)
    (n : Nesting) (t : Text) : n.afterText (t ++ blanks) = n.afterText t := by
  cases blanks with
  | nil => rw [List.append_nil]
  | cons w blanks =>
      have passed : ∀ (bs : Text), (∀ c ∈ bs, Text.isBlank c = true) → ∀ m : Nesting,
          m.afterText bs = m := by
        intro bs hbs m
        induction bs with
        | nil => exact afterText_nil m
        | cons b bs ih =>
            rw [afterText_blank_cons (hbs b List.mem_cons_self)]
            exact ih fun c hc => hbs c (List.mem_cons_of_mem b hc)
      rw [afterText_append_blank (hblank w List.mem_cons_self)]
      exact passed blanks (fun c hc => hblank c (List.mem_cons_of_mem w hc)) _

theorem afterText_trimEnd (n : Nesting) (t : Text) : n.afterText t.trimEnd = n.afterText t := by
  obtain ⟨blanks, hblank, hsplit⟩ := t.exists_eq_trimEnd_append
  calc n.afterText t.trimEnd
      = n.afterText (t.trimEnd ++ blanks) := (afterText_append_blanks hblank n t.trimEnd).symm
    _ = n.afterText t := by rw [← hsplit]

theorem afterText_trim (n : Nesting) (t : Text) : n.afterText t.trim = n.afterText t := by
  unfold Text.trim
  rw [afterText_trimEnd, afterText_trimStart]

/-- The code of a line is the line up to its end or to a `#`. -/
theorem code_prefix (n : Nesting) (raw : Text) :
    raw = (n.code raw).1 ∨ ∃ comment, raw = (n.code raw).1 ++ '#' :: comment := by
  -- along the units of the line, as the code is read
  fun_induction code n raw with
  | case1 n => exact .inl rfl
  | case2 n c rest h => exact .inr ⟨rest, by rw [h.2]; rfl⟩
  | case3 n c rest h code after heq ih =>
      rw [heq] at ih
      have hrest : rest = rest.take (n.advance c rest).2 ++ rest.drop (n.advance c rest).2 :=
        (List.take_append_drop _ rest).symm
      rcases ih with ih | ⟨comment, ih⟩
      · left
        have ih : rest.drop (n.advance c rest).2 = code := ih
        show c :: rest = c :: (rest.take (n.advance c rest).2 ++ code)
        rw [← ih]
        exact congrArg (c :: ·) hrest
      · right
        have ih : rest.drop (n.advance c rest).2 = code ++ '#' :: comment := ih
        refine ⟨comment, ?_⟩
        show c :: rest = c :: (rest.take (n.advance c rest).2 ++ code ++ '#' :: comment)
        rw [List.append_assoc, ← ih]
        exact congrArg (c :: ·) hrest

/-- A unit is the same with the code that follows it as with the line that follows it. -/
theorem advance_code (n : Nesting) (c : Char) (rest : Text) (m : Nesting) :
    n.advance c (rest.take (n.advance c rest).2 ++ (m.code (rest.drop (n.advance c rest).2)).1)
      = n.advance c rest := by
  have hash : ¬ Quote.IsMark '#' := by decide
  generalize hk : (n.advance c rest).2 = k
  -- what the line has behind its code begins with `#`, over which no unit looks
  rcases code_prefix m (rest.drop k) with h | ⟨comment, h⟩
  · rw [← h, List.take_append_drop]
  · calc n.advance c (rest.take k ++ (m.code (rest.drop k)).1)
        = n.advance c ((rest.take k ++ (m.code (rest.drop k)).1) ++ '#' :: comment) :=
          (advance_append_cons hash n c _ comment).symm
      _ = n.advance c rest := by rw [List.append_assoc, ← h, List.take_append_drop]

/-- **THE CODE OF A LINE LEAVES OPEN WHAT THE LINE LEAVES OPEN.** -/
theorem afterText_code (n : Nesting) (raw : Text) :
    n.afterText (n.code raw).1 = (n.code raw).2 := by
  fun_induction code n raw with
  | case1 n => exact afterText_nil n
  | case2 n c rest h => exact afterText_nil n
  | case3 n c rest h code after heq ih =>
      have hadvance := advance_code n c rest (n.advance c rest).1
      rw [heq] at ih hadvance
      have hadvance : n.advance c (rest.take (n.advance c rest).2 ++ code) = n.advance c rest :=
        hadvance
      have ih : (n.advance c rest).1.afterText code = after := ih
      show n.afterText (c :: (rest.take (n.advance c rest).2 ++ code)) = after
      rw [afterText_cons, hadvance]
      rcases advance_within n c rest with hle | ⟨hnil, hescape⟩
      · -- the unit is whole in the code, and the walk goes on behind it
        rw [List.drop_left' (List.length_take_of_le hle)]
        exact ih
      · -- a backslash ends the line, so no code is left
        subst hnil
        rw [hescape] at heq ih ⊢
        have hcode : code = [] := by
          rw [List.drop_nil, Nesting.code] at heq
          exact (congrArg Prod.fst heq).symm
        subst hcode
        exact ih

end Nesting

end ClassOutline
