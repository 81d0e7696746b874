/-
  ClassOutline.Text.Name
  ────────────────────────────────
  **NAMES, DOTTED NAMES AND LEADING KEYWORDS.**

  A name is a letter or underscore followed by letters, digits and
  underscores; letters and digits are those of Unicode 17.  A keyword counts
  only where no name character follows it, so `classify` does not start with
  `class`.
-/
import ClassOutline.Text.Basic
import ClassOutline.Text.CharTable

namespace ClassOutline.Text

/-! ## §1. Characters of a name. -/

/-- An ASCII letter. -/
def isAsciiLetter (c : Char) : Bool := ('a' ≤ c && c ≤ 'z') || ('A' ≤ c && c ≤ 'Z')

/-- An ASCII digit. -/
def isDigit (c : Char) : Bool := '0' ≤ c && c ≤ '9'

/-- A letter: the property Alphabetic. -/
def isLetter (c : Char) : Bool :=
  if c.toNat < 128 then isAsciiLetter c else CharTable.alphabetic.contains c

/-- A digit or another number: the categories Nd, Nl and No; the letter numbers Nl are
letters already. -/
def isNumeric (c : Char) : Bool :=
  if c.toNat < 128 then isDigit c
  else CharTable.decimalDigit.contains c || CharTable.otherNumber.contains c

/-- A character that can start a name. -/
def isNameStart (c : Char) : Bool := isLetter c || c == '_'

/-- A character that can continue a name. -/
def isNameChar (c : Char) : Bool := isLetter c || isNumeric c || c == '_'

/-! ## §2. Names. -/

/-- `t` is one name. -/
def isName : Text → Bool
  | [] => false
  | c :: rest => isNameStart c && rest.all isNameChar

/-- `t` is one or more names joined by dots; blanks may stand around the dots. -/
def isDottedName (t : Text) : Bool := (fields '.' t).all fun part => isName part.trim

/-- The parts of a dotted name. -/
def dottedParts (t : Text) : List Text := (fields '.' t).map trim

/-- The parts joined by dots. -/
def dotted (parts : List Text) : Text := join "." parts

/-- What follows `keyword` at the start of `t`, if no name character comes next. -/
def afterKeyword? (t keyword : Text) : Option Text :=
  match t.after? keyword with
  | some [] => some []
  | some (c :: rest) => if isNameChar c then none else some (trimStart (c :: rest))
  | none => none

theorem length_of_isPrefixOf? {front t rest : Text} (h : front.isPrefixOf? t = some rest) :
    t.length = front.length + rest.length := by
  induction front generalizing t with
  | nil =>
    obtain rfl : t = rest := Option.some.inj h
    simp
  | cons a front ih =>
    cases t with
    | nil => cases h
    | cons b t =>
      have h : (if a == b then front.isPrefixOf? t else none) = some rest := h
      split at h
      · have := ih h; simp only [List.length_cons]; omega
      · simp at h

/-- A keyword with at least one character leaves less than was there. -/
theorem length_afterKeyword?_lt {t keyword rest : Text} (hk : keyword ≠ [])
    (h : afterKeyword? t keyword = some rest) : rest.length < t.length := by
  have pos : 0 < keyword.length := List.length_pos_iff.2 hk
  simp only [afterKeyword?, after?] at h
  split at h
  · next heq => have := length_of_isPrefixOf? heq; simp_all
  · next c r heq =>
    have hl := length_of_isPrefixOf? heq
    split at h
    · simp at h
    · obtain rfl := Option.some.inj h
      have := length_trimStart_le (c :: r)
      omega
  · simp at h

end ClassOutline.Text
