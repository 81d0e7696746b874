/-
  ClassOutline.Nesting.Assignment
  ────────────────────────────────
  **THE ASSIGNMENT SIGN OF A TEXT.**

  The first top-level `=` that is no part of `==`, `!=`, `<=`, `>=` or `:=`
  assigns.  An operator written directly before it makes the assignment
  augmented: one of `+ - * / % & | ^ @ ** // << >>`.
-/
import ClassOutline.Nesting.Lexeme

namespace ClassOutline

/-- A text divided at its assignment sign: target, operator, sign, value. -/
structure Assignment where
  target : Text
  operator : Text
  value : Text
  deriving DecidableEq, Repr

namespace Assignment

/-- An operator stands before the sign. -/
def isAugmented (a : Assignment) : Bool := !a.operator.isEmpty

/-- The byte offset of the operator, or of the sign if there is none. -/
def operatorOffset (a : Assignment) : Nat := a.target.byteLength

/-- The byte offset of the sign. -/
def signOffset (a : Assignment) : Nat := a.target.byteLength + a.operator.byteLength

/-- The operator that ends in front of an `=`, given the characters before it from the last
one backwards: empty for a plain assignment, and `none` if the `=` does not assign. -/
def operatorBefore? : Text → Option Text
  | '<' :: '<' :: _ => some ['<', '<']
  | '>' :: '>' :: _ => some ['>', '>']
  | '*' :: '*' :: _ => some ['*', '*']
  | '/' :: '/' :: _ => some ['/', '/']
  | c :: _ =>
    if c ∈ ['<', '>', '!', ':', '='] then none
    else if c ∈ ['+', '-', '*', '/', '%', '&', '|', '^', '@'] then some [c]
    else some []
  | [] => some []

/-- The first assigning sign among units that follow the characters `seen`, the last of them
first. -/
def inUnits? (seen : Text) : List Lexeme → Option Assignment
  | [] => none
  | l :: ls =>
    let sign := l.matchesTop (· == '=') && !(ls.head?.any fun next => next.head == '=')
    match (if sign then operatorBefore? seen else none) with
    | some operator =>
      some ⟨(seen.drop operator.length).reverse, operator, l.tail ++ Lexeme.concat ls⟩
    | none => inUnits? (l.text.reverse ++ seen) ls

theorem length_value_lt_of_inUnits? {seen : Text} {ls : List Lexeme} {a : Assignment}
    (h : inUnits? seen ls = some a) : a.value.length < (Lexeme.concat ls).length := by
  induction ls generalizing seen with
  | nil => simp [inUnits?] at h
  | cons l ls ih =>
    simp only [inUnits?] at h
    rw [Lexeme.concat_cons, List.length_cons, List.length_append]
    split at h
    · obtain rfl := Option.some.inj h
      simp
    · have := ih h; omega

end Assignment

namespace Text

/-- The assignment `t` writes, if any. -/
def assignment? (t : Text) : Option Assignment := Assignment.inUnits? [] t.lexemes

/-- The value of an assignment is shorter than the assignment. -/
theorem length_value_lt_of_assignment? {t : Text} {a : Assignment}
    (h : t.assignment? = some a) : a.value.length < t.length := by
  have := Assignment.length_value_lt_of_inUnits? h
  rwa [concat_lexemes] at this

end Text

end ClassOutline
