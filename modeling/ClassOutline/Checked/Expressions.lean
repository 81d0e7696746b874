/-
  ClassOutline.Checked.Expressions
  ────────────────────────────────
  **EXPRESSIONS, PARAMETERS AND HEADERS READ IN WORDS.**

  Each form of an expression asks for walks of its own: over the whole for a
  comma or a parenthesis, over what brackets enclose, over each piece and what it
  divides into.  `classifyFits` lists them level by level, as `classify` makes them.
  All but the first are over texts cut out of a walked one, and none of them is
  stopped if the first is not; so with parameters, whose walks are listed too.

  The groups of a header are looked for one behind the other.
-/
import ClassOutline.Checked.Walks
import ClassOutline.Initializer.Classify
import ClassOutline.Statement.Header
import ClassOutline.Statement.Parameter

namespace ClassOutline

namespace Text

/-! ## §1. Expressions. -/

/-- The items between the commas of `t` can be told apart, and each of them read by `each`. -/
def itemsFit (each : Text → Bool) (t : Text) : Bool :=
  t.fits && t.commaItems.all fun piece => piece.fits && piece.adjacentItems.all each

/-- The value of a call argument can be looked for, and read by `inner`. -/
def argumentFits (inner : Text → Bool) (part : Text) : Bool :=
  part.fits && inner part.argumentValue

/-- The entries in one piece between the commas of a dict can be told apart, and read by `inner`:
atoms are looked for in front of every colon, and between any two that divide. -/
def entriesFit (inner : Text → Bool) (piece : Text) : Bool :=
  let (first, others) := cutUnits ':' piece.lexemes
  piece.startsWith ['*', '*'] ||
    (piece.fits && (first :: others).dropLast.all fits
      && (DictEntry.colonParts piece).tail.dropLast.all fits
      && piece.dictEntries.entries.all fun e => inner e.key && inner e.value)

/-- The entries of a dict can be told apart, given what the braces enclose. -/
def dictFits (inner : Text → Bool) (enclosed : Text) : Bool :=
  enclosed.fits && (!enclosed.hasTopLevel ':' || enclosed.commaItems.all (entriesFit inner))

/-- It can be decided whether two delimiters enclose `t`, and what they enclose can be read by
`filled`; or `t` by `otherwise`, if they do not. -/
def enclosedFits (opener closer : Char) (filled : Text → Bool) (otherwise : Bool) (t : Text) :
    Bool :=
  t.enclosureFits opener closer && match enclosed? opener closer t with
    | some enclosed =>
      enclosed.fits && (isComprehension enclosed || enclosed.trim.isEmpty || filled enclosed)
    | none => otherwise

/-- `t` can be read as a dotted name, with the arguments of a call if a parenthesis follows. -/
def nameFits (inner : Text → Bool) (t : Text) : Bool :=
  t.fits && match t.breakTopLevel? (· == '(') with
    | none => true
    | some b =>
      enclosureFits '(' ')' (b.char :: b.after)
        && match enclosed? '(' ')' (b.char :: b.after) with
          | none => true
          | some arguments =>
            !isDottedName b.before.trim || itemsFit (argumentFits inner) arguments

/-- A trimmed text can be classified, what is inside it by `inner`. -/
def formFits (inner : Text → Bool) (t : Text) : Bool :=
  t.isEmpty || (t.fits &&
    if t.hasTopLevel ',' then itemsFit inner t
    else (constant? t).isSome || (numberValue? t).isSome || (stringValue? t).isSome
      || enclosedFits '[' ']' (itemsFit inner)
        (enclosedFits '{' '}' (dictFits inner)
          (enclosedFits '(' ')' (itemsFit inner) (nameFits inner t) t) t) t)

/-- An expression can be classified with so many levels left. -/
def classifyFitsWithin : Nat → Text → Bool
  | 0, _ => true
  | levels + 1, t => formFits (classifyFitsWithin levels) t.trim

/-- An expression can be classified. -/
def classifyFits (t : Text) : Bool := classifyFitsWithin (levelLimit + 1) t

/-! ## §2. Parameters. -/

/-- The parameter that a text writes can be read: its default and its annotation are looked for. -/
def parameterFits (t : Text) : Bool :=
  let rest := (starred t).2
  rest.fits && match rest.assignment? with
    | some a => a.isAugmented || a.target.fits
    | none => true

/-- The parameters that a text lists can be told apart and read; a marker is none. -/
def parametersFit (t : Text) : Bool :=
  t.itemsFit fun part => part = ['*'] || part = ['/'] || part.parameterFits

/-! ## §3. Headers. -/

/-- A group in front of a text can be skipped, if `opener` starts one. -/
def skipGroupFits (opener : Char) (t : Text) : Bool := t.head? != some opener || t.groupFits

/-- A result annotation in front of a text can be skipped, if there is one. -/
def skipResultFits (t : Text) : Bool := !t.startsWith ['-', '>'] || t.fits

/-- The header that follows a keyword can be read, as far as it has the form of one. -/
def headerFits (t : Text) : Bool :=
  let tail := trimStart (t.dropWhile isNameChar)
  !isName (t.takeWhile isNameChar) || (skipGroupFits '[' tail
    && (skipGroup? '[' tail).all fun afterTypes => skipGroupFits '(' afterTypes
      && (argumentGroup? afterTypes).all fun (_, afterArguments) => skipResultFits afterArguments)

/-- The header of a block can be looked for: its colon, and an assignment in front of that. -/
def blockFits (t : Text) : Bool :=
  (blockKeywords.find? fun (keyword, _) => (afterKeyword? t keyword).isSome).isNone
    || (t.fits && (t.breakTopLevel? (· == ':')).all fun b => b.before.fits)

end Text

namespace Checked

/-- Classify an expression. -/
def classify (t : Text) : Option (Reported Initializer) := guarded t.classifyFits t.classify

/-- The parameter that a text writes, if it has a name. -/
def parameter (t : Text) : Option (Option WrittenParameter) :=
  guarded t.parameterFits (Text.parameter? t)

/-- The parameters that a text lists. -/
def parameters (t : Text) : Option (Reported (List WrittenParameter)) :=
  guarded t.parametersFit t.parameters

/-- The header that follows a keyword, if there is one. -/
def header (t : Text) : Option (Option Header) := guarded t.headerFits t.header?

end Checked

end ClassOutline
