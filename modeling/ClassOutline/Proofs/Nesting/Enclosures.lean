/-
  ClassOutline.Proofs.Nesting.Enclosures
  ────────────────────────────────
  **WHAT A PAIR OF DELIMITERS ENCLOSES.**

  A text that is one group between two delimiters is cut, in bytes, behind the
  first of them and in front of the second (`slice?`).  The cut is where it
  should be unless both are the same character, of several bytes, and the text
  is nothing else: a text of two bytes is taken to have room for both
  (`isWrapped_and_slice?_eq_none_iff`).

  A closed text is found between its brackets.  Their group ends with them,
  whatever they enclose, so nothing is found where a text goes on behind it
  (`enclosure_of_closed_append`).
-/
import ClassOutline.Proofs.Nesting.Closed
import ClassOutline.Proofs.Nesting.Items
import ClassOutline.Proofs.Text.Bytes

namespace ClassOutline

namespace Text

/-! ## §1. Parts between two byte offsets. -/

/-- The first so many bytes of a text; nothing if they end inside a character or behind the
text. -/
def takeBytes? : Text → Nat → Option Text
  | _, 0 => some []
  | [], _ + 1 => none
  | c :: t, k + 1 =>
    if c.utf8Size ≤ k + 1 then (takeBytes? t (k + 1 - c.utf8Size)).map (c :: ·) else none

/-- What stands behind so many bytes of a text; nothing if they end inside a character or behind
the text. -/
def dropBytes? : Text → Nat → Option Text
  | t, 0 => some t
  | [], _ + 1 => none
  | c :: t, k + 1 => if c.utf8Size ≤ k + 1 then dropBytes? t (k + 1 - c.utf8Size) else none

/-- The part of a text from one byte offset to another; nothing if the first is behind the last, or
if a character does not begin or the text does not end at either. -/
def slice? (t : Text) (first last : Nat) : Option Text :=
  if first ≤ last then (takeBytes? t last).bind fun front => dropBytes? front first else none

/-- Bytes for a character and some more are at least one, and without those of the character they
are what is more. -/
theorem exists_add_utf8Size (c : Char) (k : Nat) :
    ∃ m, c.utf8Size + k = m + 1 ∧ c.utf8Size ≤ m + 1 ∧ m + 1 - c.utf8Size = k := by
  have positive := c.utf8Size_pos
  refine ⟨c.utf8Size + k - 1, ?_, ?_, ?_⟩
  · omega
  · omega
  · omega

/-- The bytes of the first character are taken with it. -/
theorem takeBytes?_cons (c : Char) (t : Text) (k : Nat) :
    takeBytes? (c :: t) (c.utf8Size + k) = (takeBytes? t k).map (c :: ·) := by
  obtain ⟨m, succ, fits, left⟩ := exists_add_utf8Size c k
  rw [succ, takeBytes?, if_pos fits, left]

theorem dropBytes?_cons (c : Char) (t : Text) (k : Nat) :
    dropBytes? (c :: t) (c.utf8Size + k) = dropBytes? t k := by
  obtain ⟨m, succ, fits, left⟩ := exists_add_utf8Size c k
  rw [succ, dropBytes?, if_pos fits, left]

theorem takeBytes?_append (front rest : Text) :
    takeBytes? (front ++ rest) front.byteLength = some front := by
  induction front with
  | nil => cases rest <;> rfl
  | cons c front ih => rw [List.cons_append, byteLength_cons, takeBytes?_cons, ih, Option.map_some]

theorem dropBytes?_append (front rest : Text) :
    dropBytes? (front ++ rest) front.byteLength = some rest := by
  induction front with
  | nil => cases rest <;> rfl
  | cons c front ih => rw [List.cons_append, byteLength_cons, dropBytes?_cons, ih]

/-- A part is cut out at the offsets where it begins and ends. -/
theorem slice?_append (front part rest : Text) :
    slice? (front ++ (part ++ rest)) front.byteLength (front.byteLength + part.byteLength)
      = some part := by
  unfold slice?
  rw [if_pos (Nat.le_add_right _ _), ← byteLength_append, ← List.append_assoc, takeBytes?_append,
    Option.bind_some, dropBytes?_append]

/-! ## §2. Cutting between two delimiters. -/

/-- The text begins and ends with the delimiters, it is one group, and its bytes are enough for two
characters. -/
def IsWrapped (opener closer : Char) (t : Text) : Prop :=
  t.head? = some opener ∧ t.getLast? = some closer ∧ 2 ≤ t.byteLength
    ∧ leadingGroup? t = some (t, [])

instance (opener closer : Char) (t : Text) : Decidable (IsWrapped opener closer t) :=
  inferInstanceAs (Decidable (_ ∧ _ ∧ _ ∧ _))

section
variable {opener closer : Char} {t : Text}

/-- A wrapped text is one character or a text between the delimiters. -/
theorem IsWrapped.cases (h : IsWrapped opener closer t) :
    (t = [opener] ∧ closer = opener) ∨ ∃ inner, t = opener :: (inner ++ [closer]) := by
  obtain ⟨hfirst, hlast, -, -⟩ := h
  obtain ⟨rest, rfl⟩ := List.head?_eq_some_iff.1 hfirst
  cases rest with
  | nil => exact .inl ⟨rfl, (Option.some.inj hlast).symm⟩
  | cons c rest =>
      rw [List.getLast?_cons_cons] at hlast
      obtain ⟨inner, hinner⟩ := List.getLast?_eq_some_iff.1 hlast
      exact .inr ⟨inner, by rw [hinner]⟩

/-- Between the delimiters the text is cut out that stands there. -/
theorem slice?_of_delimiters (opener closer : Char) (inner : Text) :
    slice? (opener :: (inner ++ [closer])) opener.utf8Size
      (byteLength (opener :: (inner ++ [closer])) - closer.utf8Size) = some inner := by
  have single (c : Char) : byteLength [c] = c.utf8Size := rfl
  have last : byteLength (opener :: (inner ++ [closer])) - closer.utf8Size
      = byteLength [opener] + inner.byteLength := by
    rw [byteLength_cons, byteLength_append, single, single]
    omega
  rw [last]
  exact slice?_append [opener] inner [closer]

/-- A single character leaves nothing between its end and its beginning. -/
theorem slice?_of_single (c : Char) :
    slice? [c] c.utf8Size (byteLength [c] - c.utf8Size) = none := by
  have positive := c.utf8Size_pos
  have nothing : byteLength [c] - c.utf8Size = 0 := Nat.sub_self c.utf8Size
  unfold slice?
  rw [nothing, if_neg (by omega)]

/-- A character of several bytes is one group, being neither a bracket nor a quote. -/
theorem leadingGroup?_of_wide {c : Char} (hwide : 1 < c.utf8Size) :
    leadingGroup? [c] = some ([c], []) := by
  have plain : Nesting.IsPlain c := isPlain_of_not_mem fun hmem => by
    have narrow :
        (['\'', '"', '(', ')', '[', ']', '{', '}'].all fun d => d.utf8Size == 1) = true := by
      decide
    have one : c.utf8Size = 1 := eq_of_beq (List.all_eq_true.1 narrow c hmem)
    omega
  unfold leadingGroup?
  rw [groupFrom?, Nesting.advance_of_not_isMark rfl plain.1, plain.2]
  rfl

/-- **THE CUT IS OUT OF RANGE EXACTLY FOR A CHARACTER OF SEVERAL BYTES** that is taken for both
delimiters. -/
theorem isWrapped_and_slice?_eq_none_iff :
    IsWrapped opener closer t ∧ slice? t opener.utf8Size (t.byteLength - closer.utf8Size) = none
      ↔ t = [opener] ∧ closer = opener ∧ 1 < opener.utf8Size := by
  constructor
  · rintro ⟨wrapped, outOfRange⟩
    rcases wrapped.cases with ⟨rfl, rfl⟩ | ⟨inner, rfl⟩
    · exact ⟨rfl, rfl, wrapped.2.2.1⟩
    · rw [slice?_of_delimiters] at outOfRange
      exact absurd outOfRange (Option.some_ne_none inner)
  · rintro ⟨rfl, rfl, hwide⟩
    exact ⟨⟨rfl, rfl, hwide, leadingGroup?_of_wide hwide⟩, slice?_of_single closer⟩

/-- **THE ENCLOSURE IS WHAT IS CUT OUT OF A WRAPPED TEXT.** -/
theorem enclosure_eq_slice (opener closer : Char) (t : Text) :
    enclosure opener closer t
      = if IsWrapped opener closer t then
          match slice? t opener.utf8Size (t.byteLength - closer.utf8Size) with
          | some inner => .around inner
          | none => .overlapping
        else .outside := by
  unfold enclosure
  by_cases hends : t.head? = some opener ∧ t.getLast? = some closer ∧ 2 ≤ t.byteLength
  · rw [if_pos hends]
    split
    · -- one character
      next group c hgroup =>
      obtain rfl : [c] = group := (eq_of_leadingGroup? hgroup).trans (List.append_nil group)
      have wrapped : IsWrapped opener closer [c] := ⟨hends.1, hends.2.1, hends.2.2, hgroup⟩
      obtain rfl : c = opener := Option.some.inj hends.1
      obtain rfl : c = closer := Option.some.inj hends.2.1
      rw [if_pos wrapped, slice?_of_single]
    · -- the delimiters are two characters, and what is left of the text ends with the second
      next group c inner hne hgroup =>
      obtain rfl : c :: inner = group := (eq_of_leadingGroup? hgroup).trans (List.append_nil group)
      have wrapped : IsWrapped opener closer (c :: inner) :=
        ⟨hends.1, hends.2.1, hends.2.2, hgroup⟩
      rw [if_pos wrapped]
      rcases wrapped.cases with ⟨hsingle, -⟩ | ⟨between, hbetween⟩
      · exact absurd (List.cons.inj hsingle).2 hne
      · rw [hbetween, slice?_of_delimiters, (List.cons.inj hbetween).2, List.dropLast_concat]
    · next hsingle hgroup =>
      refine (if_neg fun wrapped => ?_).symm
      obtain ⟨rest, rfl⟩ := List.head?_eq_some_iff.1 hends.1
      exact hgroup _ opener rest wrapped.2.2.2 rfl
  · rw [if_neg hends, if_neg fun wrapped => hends ⟨wrapped.1, wrapped.2.1, wrapped.2.2.1⟩]

/-! ## §3. Brackets. -/

/-- **NOTHING IS ENCLOSED WHERE A TEXT GOES ON BEHIND ITS FIRST GROUP.** -/
theorem enclosure_of_closed_append (hpair : BracketPair opener closer) {inner : Text}
    (h : inner.IsClosed) {rest : Text} (hne : rest ≠ []) :
    enclosure opener closer (opener :: (inner ++ closer :: rest)) = .outside := by
  rw [enclosure_eq_slice, if_neg]
  -- the group of the text ends at its first closing bracket
  rintro ⟨-, -, -, whole⟩
  rw [leadingGroup?_of_brackets hpair h.keeps_inside] at whole
  exact hne (Prod.mk.inj (Option.some.inj whole)).2

end

end Text

end ClassOutline
