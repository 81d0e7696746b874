/-
  ClassOutline.Nesting.Basic
  ────────────────────────────────
  **BRACKETS AND STRINGS THAT ARE OPEN AT A POINT OF A TEXT.**

  The three kinds of brackets are counted apart, and a closing bracket without
  an opening one changes nothing, so no count is ever negative.  Inside a
  string only its own delimiter and the backslash mean anything.

  A text is read in lexical units: one character, a backslash with the
  character it escapes inside a string, or a whole delimiter.  `advance` reads
  one unit.
-/
import ClassOutline.Text.Basic

namespace ClassOutline

/-! ## §1. String delimiters. -/

/-- The delimiter an open string was opened with. -/
inductive Quote where
  | single
  | double
  | tripleSingle
  | tripleDouble
  deriving DecidableEq, Repr

namespace Quote

/-- The text that opens and closes the string. -/
def delimiter : Quote → Text
  | single => ['\'']
  | double => ['"']
  | tripleSingle => ['\'', '\'', '\'']
  | tripleDouble => ['"', '"', '"']

/-- Strings with a triple delimiter may run over line ends. -/
def isTriple : Quote → Bool
  | tripleSingle | tripleDouble => true
  | single | double => false

/-- The delimiter that `c` begins when `rest` follows: a triple one if all three
characters are there. -/
def opening? (c : Char) (rest : Text) : Option Quote :=
  if c = '\'' then
    some (if rest.startsWith ['\'', '\''] then tripleSingle else single)
  else if c = '"' then
    some (if rest.startsWith ['"', '"'] then tripleDouble else double)
  else none

end Quote

/-! ## §2. The state of nesting. -/

/-- How many brackets of each kind are open, and which string.  The counts are exact; whether those
of a run stay in its words is asked apart (`Nesting.walkFits`). -/
structure Nesting where
  paren : Nat := 0
  bracket : Nat := 0
  brace : Nat := 0
  quote : Option Quote := none
  deriving DecidableEq, Repr

namespace Nesting

/-- Nothing is open. -/
def closed : Nesting := {}

/-- Number of open brackets of all kinds. -/
def depth (n : Nesting) : Nat := n.paren + n.bracket + n.brace

/-- A string is open. -/
def inString (n : Nesting) : Bool := n.quote.isSome

/-- Outside every bracket and string. -/
def isTopLevel (n : Nesting) : Bool := n.depth == 0 && n.quote.isNone

/-- A nesting outside everything is the closed one. -/
theorem eq_closed : ∀ {n : Nesting}, n.isTopLevel = true → n = closed
  | ⟨paren, bracket, brace, quote⟩, h => by
      obtain ⟨hdepth, hquote⟩ := Bool.and_eq_true_iff.1 h
      have hdepth : paren + bracket + brace = 0 := eq_of_beq hdepth
      obtain rfl : quote = none := Option.isNone_iff_eq_none.1 hquote
      obtain rfl : paren = 0 := by omega
      obtain rfl : bracket = 0 := by omega
      obtain rfl : brace = 0 := by omega
      rfl

/-- The effect of one character outside strings on the bracket counts. -/
def afterBracket (n : Nesting) (c : Char) : Nesting :=
  if c = '(' then { n with paren := n.paren + 1 }
  else if c = ')' then { n with paren := n.paren - 1 }
  else if c = '[' then { n with bracket := n.bracket + 1 }
  else if c = ']' then { n with bracket := n.bracket - 1 }
  else if c = '{' then { n with brace := n.brace + 1 }
  else if c = '}' then { n with brace := n.brace - 1 }
  else n

/-- Read the unit that `c` begins when `rest` follows: the nesting after it, and how many
characters of `rest` it takes as well (as many as there are, for a backslash at the end). -/
def advance (n : Nesting) (c : Char) (rest : Text) : Nesting × Nat :=
  match n.quote with
  | some q =>
    if c = '\\' then (n, 1)
    else if Text.startsWith (c :: rest) q.delimiter then
      ({ n with quote := none }, q.delimiter.length - 1)
    else (n, 0)
  | none =>
    match Quote.opening? c rest with
    | some q => ({ n with quote := some q }, q.delimiter.length - 1)
    | none => (n.afterBracket c, 0)

/-- The first unit of `t` and the nesting after it; an empty text has an empty unit. -/
def step (n : Nesting) : Text → Nesting × Text
  | [] => (n, [])
  | c :: rest => ((n.advance c rest).1, c :: rest.take (n.advance c rest).2)

/-- The nesting after all units of a text. -/
def afterText (n : Nesting) : Text → Nesting
  | [] => n
  | c :: rest => afterText (n.advance c rest).1 (rest.drop (n.advance c rest).2)
termination_by t => t.length
decreasing_by simp only [List.length_drop, List.length_cons]; omega

/-- What is open, in words: brackets with their counts, then the string. -/
def description (n : Nesting) : Text :=
  Text.join ", " (count n.paren '(' ++ count n.bracket '[' ++ count n.brace '{' ++ string n.quote)
where
  count (k : Nat) (bracket : Char) : List Text :=
    if k = 0 then [] else [Text.ofNat k ++ " '".toList ++ [bracket, '\'']]
  string : Option Quote → List Text
    | none => []
    | some q => ["string opened with ".toList ++ q.delimiter]

end Nesting

end ClassOutline
