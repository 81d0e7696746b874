/-
  ClassOutline.Proofs.Initializer.Parentheses
  ────────────────────────────────
  **PARENTHESES AROUND A ROW CHANGE NOTHING.**

  A row with a comma at top level is a tuple, in parentheses or not.  Without
  them the comma decides before any other form is tried (`classify_of_comma`).
  In them the comma is not at top level, and all other forms are tried before the
  one that fits: what is enclosed is the row again, so it is taken apart into the
  same items (`classify_of_parentheses`).

  Only the blanks at the edges of the row make a difference: they are trimmed
  without parentheses and kept inside.  They belong to the first and the last piece,
  and pieces are trimmed anyway.
-/
import ClassOutline.Proofs.Initializer.MissingCommas
import ClassOutline.Proofs.Nesting.Pieces

namespace ClassOutline.Text

variable {t : Text}

/-- The blanks at the edges of a row are in none of its pieces. -/
theorem commaItems_trim (t : Text) : t.trim.commaItems = t.commaItems := by
  unfold commaItems
  rw [splitTopLevel_trim isDivider_comma (by decide)]

/-- The items of a row are those of the row without blanks at its edges. -/
theorem classifyItems_trim (inner : Classifier) (kind : ItemKind) (select : Text → Text)
    (t : Text) : classifyItems inner kind select t.trim = classifyItems inner kind select t := by
  unfold classifyItems
  rw [commaItems_trim]

/-- A row is not blank. -/
theorem isEmpty_trim_of_comma (h : t.hasTopLevel ',' = true) : t.trim.isEmpty = false :=
  Bool.eq_false_iff.2 (not_isEmpty_trim (mem_of_hasTopLevel h) (by decide))

/-- **A COMMA AT TOP LEVEL MAKES A TUPLE.** -/
theorem classify_of_comma (h : t.hasTopLevel ',' = true) :
    classify t = (classifyItems (classifyWithin levelLimit) .tupleElements id t).map .tuple := by
  have comma : t.trim.hasTopLevel ',' = true :=
    hasTopLevel_of_trim isDivider_comma (by decide) h
  unfold classify
  rw [classifyWithin, classifyForm, isEmpty_trim_of_comma h, if_neg Bool.false_ne_true, comma,
    if_pos rfl, classifyItems_trim]

/-- **PARENTHESES MAKE A TUPLE OF WHAT THEY ENCLOSE**, if that is closed, not blank and no
comprehension. -/
theorem classify_of_parentheses (hclosed : t.IsClosed) (hfilled : t.trim.isEmpty = false)
    (hfor : "for".toList ∉ t.atoms) :
    classify ('(' :: (t ++ [')']))
      = (classifyItems (classifyWithin levelLimit) .tupleElements id t).map .tuple := by
  have noComprehension : isComprehension t = false :=
    Bool.eq_false_iff.2 fun hmem => hfor (List.contains_iff_mem.1 hmem)
  rw [classify_of_brackets (.inl ⟨rfl, rfl⟩), classifyForm_of_parentheses hclosed.keeps_inside,
    classifyTuple, classifyEnclosed, noComprehension, if_neg Bool.false_ne_true, hfilled,
    if_neg Bool.false_ne_true]

/-- **A ROW IS THE SAME TUPLE IN PARENTHESES.**  Bare and in parentheses a closed row with a comma
at top level, none of whose atoms is the keyword of a comprehension, is classified as one tuple,
and the same is reported in the same order. -/
theorem classify_row_in_parentheses (hcomma : t.hasTopLevel ',' = true) (hclosed : t.IsClosed)
    (hfor : "for".toList ∉ t.atoms) :
    ∃ items causes, classify t = ⟨.tuple items, causes⟩
      ∧ classify ('(' :: (t ++ [')'])) = ⟨.tuple items, causes⟩ :=
  ⟨_, _, classify_of_comma hcomma,
    classify_of_parentheses hclosed (isEmpty_trim_of_comma hcomma) hfor⟩

end ClassOutline.Text
