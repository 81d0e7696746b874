/-
  ClassOutline.Checked.Walks
  ────────────────────────────────
  **WALKS WHOSE COUNTS STAY IN THEIR WORDS.**

  The program counts open brackets in words of 32 bits and columns and lengths
  in words of 64, and its arithmetic is checked: a sum that leaves its word
  stops the run, and there is no answer.  (Nothing is said of a build whose sums
  wrap around.)  Everywhere else the numbers are the natural ones; the modules
  under `Checked` say which sums a run makes.  Each `Checked.f` is `f` where all of
  them fit (`guarded`), and `none` where the run stops.

  A walk adds the counts of a nesting up before each unit, to see whether
  anything is open; the search for a group adds them up behind each unit.  What is
  in a single string literal is read without counting anything.
-/
import ClassOutline.Nesting.Atom

namespace ClassOutline

/-- The answer of a run, or `none` where the run is stopped. -/
def guarded {α : Type} (fits : Bool) (answer : α) : Option α :=
  if fits then some answer else none

/-! ## §1. Counts. -/

namespace Nesting

/-- The words that count brackets have 32 bits. -/
def countLimit : Nat := UInt32.size

/-- Each count is in its word. -/
def countsFit (n : Nesting) : Bool :=
  n.paren < countLimit && n.bracket < countLimit && n.brace < countLimit

/-- The counts can be added up. -/
def depthFits (n : Nesting) : Bool := n.depth < countLimit

/-- `each` holds in front of every unit of a text that begins inside `n`, and `last` behind the
text. -/
def readFits (each last : Nesting → Bool) (n : Nesting) (t : Text) : Bool :=
  (n.lexemes t).all (fun l => each l.before) && last (n.afterText t)

/-- The text can be read unit by unit. -/
def stepsFit (n : Nesting) (t : Text) : Bool := n.readFits countsFit countsFit t

/-- So it can if the counts are added up in front of each unit as well; behind the last one they
are not. -/
def walkFits (n : Nesting) (t : Text) : Bool := n.readFits depthFits countsFit t

end Nesting

namespace Text

/-- A text of its own can be walked over. -/
def fits (t : Text) : Bool := Nesting.closed.walkFits t

/-- What is read of a text to find the end of its first group: all of it, if there is none. -/
def readForGroup (t : Text) : Text := (leadingGroup? t).elim t Prod.fst

/-- The end of the first group can be looked for.  Here the counts are added up behind each
unit. -/
def groupFits (t : Text) : Bool :=
  Nesting.closed.readFits Nesting.depthFits Nesting.depthFits t.readForGroup

/-- It can be decided whether two delimiters enclose the text: no group is looked for unless
they stand at its ends. -/
def enclosureFits (opener closer : Char) (t : Text) : Bool :=
  !(t.head? = some opener ∧ t.getLast? = some closer ∧ 2 ≤ t.byteLength) || t.groupFits

end Text

/-! ## §2. Walks that may be stopped. -/

namespace Checked

/-- The nesting after a text that is read unit by unit. -/
def afterText (t : Text) : Option Nesting :=
  guarded (Nesting.closed.stepsFit t) (Nesting.closed.afterText t)

/-- The units of a text. -/
def lexemes (t : Text) : Option (List Lexeme) := guarded t.fits t.lexemes

/-- The pieces between the separators at top level. -/
def splitTopLevel (sep : Char) (t : Text) : Option (List Text) :=
  guarded t.fits (t.splitTopLevel sep)

/-- The atoms of a text. -/
def atoms (t : Text) : Option (List Text) := guarded t.fits t.atoms

/-- The items of a text. -/
def adjacentItems (t : Text) : Option (List Text) := guarded t.fits t.adjacentItems

/-- The first group of a text, if it has one, and what follows it. -/
def leadingGroup (t : Text) : Option (Option (Text × Text)) :=
  guarded t.groupFits t.leadingGroup?

/-- How a text stands to two delimiters. -/
def enclosure (opener closer : Char) (t : Text) : Option Text.Enclosure :=
  guarded (t.enclosureFits opener closer) (t.enclosure opener closer)

end Checked

end ClassOutline
