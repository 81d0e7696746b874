/-
  ClassOutline.Initializer.Basic
  ────────────────────────────────
  **WHAT AN EXPRESSION SAYS BEFORE ITS NAMES ARE LOOKED UP.**

  An initializer has the shape of a value, but a name in it is still a name:
  it may stand for a class further down the source.  This module also reads
  the two literals with rules of their own, strings and numbers.
-/
import ClassOutline.Diagnostic
import ClassOutline.Nesting.Atom
import ClassOutline.Value.Basic

namespace ClassOutline

/-- A classified expression whose names are not looked up yet. -/
inductive Initializer where
  /-- A value without names in it. -/
  | literal (v : Value)
  | list (items : List Initializer)
  | dict (entries : List (Initializer × Initializer))
  | tuple (items : List Initializer)
  /-- A dotted name. -/
  | name (path : List Text)
  /-- A dotted name called with arguments. -/
  | call (path : List Text) (args : List Initializer)
  deriving Repr

/-- An expression of no known form. -/
def Initializer.unrecognized (t : Text) : Initializer := .literal (.unrecognized t)

namespace Text

/-! ## §1. String literals. -/

/-- The text between the delimiters of a string literal, the letters in front removed. -/
def literalContents? (t : Text) : Option Text :=
  match literalParts? t with
  | none => none
  | some (_, body) =>
    [Quote.tripleSingle, .tripleDouble, .single, .double].findSome? fun q =>
      let n := q.delimiter.length
      if 2 * n ≤ body.length ∧ body.startsWith q.delimiter ∧ body.endsWith q.delimiter then
        some ((body.drop n).take (body.length - 2 * n))
      else none

/-- The contents of a string literal, or of several side by side put together.  Escapes stay
as written. -/
def stringValue? (t : Text) : Option Text :=
  if t.isStringLiteral then literalContents? t
  else
    let parts := t.atoms
    if 2 ≤ parts.length ∧ parts.all isStringLiteral then
      (parts.mapM literalContents?).map List.flatten
    else none

/-! ## §2. Numbers. -/

/-- The natural number that a run of decimal digits writes. -/
def decimalValue (digits : Text) : Nat :=
  digits.foldl (fun n c => 10 * n + (c.toNat - '0'.toNat)) 0

/-- The sign of a number, `true` for a minus, and its body. -/
def signAndBody : Text → Bool × Text
  | '-' :: rest => (true, trimStart rest)
  | '+' :: rest => (false, trimStart rest)
  | t => (false, t)

/-- The digits and points of a number's body: ASCII digits, points and inner underscores, with
at least one digit. -/
def numberDigits? (body : Text) : Option Text :=
  if body.any isDigit ∧ body.all (fun c => isDigit c || c == '.' || c == '_')
      ∧ body.head? ≠ some '_' ∧ body.getLast? ≠ some '_' then
    some (body.filter (· != '_'))
  else none

/-- The value of an integer literal; one that does not fit a signed word of 64 bits is
unrecognized and reported. -/
def integerValue (t : Text) (negative : Bool) (digits : Text) : Reported Value :=
  let n : Int := if negative then -(decimalValue digits : Int) else decimalValue digits
  if -0x8000000000000000 ≤ n ∧ n < 0x8000000000000000 then ⟨.int n, []⟩
  else ⟨.unrecognized t, [.integerOutOfRange t]⟩

/-- The value of a literal with one point. -/
def floatValue (negative : Bool) (whole fraction : Text) : Value :=
  .float (.ofDecimal negative (decimalValue (whole ++ fraction)) (-(fraction.length : Int)))

/-- The value of `t` as a number: an integer without a point, a float with one. -/
def numberValue? (t : Text) : Option (Reported Value) :=
  let (negative, body) := signAndBody t
  match numberDigits? body with
  | none => none
  | some digits =>
    match fields '.' digits with
    | [whole] => some (integerValue t negative whole)
    | [whole, fraction] => some ⟨floatValue negative whole fraction, []⟩
    | _ => none

end Text

end ClassOutline
