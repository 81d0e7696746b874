/-
  ClassOutline.LogicalLine.Basic
  ────────────────────────────────
  **ONE STATEMENT WITH ALL LINES IT IS WRITTEN ON.**

  A logical line is what a statement is read from: the code of its physical
  lines, without comments, each trimmed, joined by line feeds.  This module
  has the measures taken of a single physical line: its code, its
  indentation, the comment or the encoding it declares.
-/
import ClassOutline.Nesting.Basic
import ClassOutline.Text.Name

namespace ClassOutline

/-- A column of a line, counted from the margin.  It is exact; a run that would have to hold one in
a word too small for it is stopped (`indentFits`, `Statement.bodyFits`). -/
abbrev Column := Nat

/-- One statement's text and where it stood. -/
structure LogicalLine where
  /-- The first physical line, counted from 1. -/
  line : Nat
  /-- The last physical line. -/
  endLine : Nat
  /-- The column where the first physical line begins. -/
  indent : Column
  /-- The code of the physical lines, each trimmed, with line feeds between them. -/
  text : Text
  /-- Nothing was open when the statement ended. -/
  balanced : Bool
  /-- The comment lines directly above, without their `#`. -/
  comments : List Text
  deriving DecidableEq, Repr

/-! ## §1. Indentation. -/

/-- The column reached from `column` through the blanks that start a line: a tab moves to
the next multiple of `tabWidth`, a form feed back to the margin. -/
def indentFrom (tabWidth column : Column) : Text → Column
  | [] => column
  | c :: rest =>
    if c = ' ' then indentFrom tabWidth (column + 1) rest
    else if c = '\t' then indentFrom tabWidth ((column / tabWidth + 1) * tabWidth) rest
    else if c = '\x0c' then indentFrom tabWidth 0 rest
    else column

/-- The width of a physical line's indentation; tab stops are at least one column apart. -/
def indentWidth (tabWidth : Column) (line : Text) : Column :=
  indentFrom (if tabWidth = 0 then 1 else tabWidth) 0 line

/-! ## §2. Code and comments. -/

/-- The code of a physical line that begins inside `n`, up to a `#` outside strings, and the
nesting after it. -/
def Nesting.code (n : Nesting) : Text → Text × Nesting
  | [] => ([], n)
  | c :: rest =>
    if n.quote.isNone ∧ c = '#' then ([], n)
    else
      let (code, after) :=
        Nesting.code (n.advance c rest).1 (rest.drop (n.advance c rest).2)
      (c :: (rest.take (n.advance c rest).2 ++ code), after)
termination_by t => t.length
decreasing_by simp only [List.length_drop, List.length_cons]; omega

/-- The comment on a physical line that has nothing else. -/
def commentOf? (line : Text) : Option Text :=
  match line.trimStart with
  | '#' :: comment => some comment
  | _ => none

/-! ## §3. The declaration of an encoding. -/

/-- A word character of Unicode: a letter, mark, decimal digit, connector or joiner. -/
def isWordChar (c : Char) : Bool :=
  Text.isLetter c || c == '_'
    || (if c.toNat < 128 then Text.isDigit c
        else CharTable.decimalDigit.contains c || CharTable.plainMark.contains c
          || CharTable.connector.contains c || c == '\u200c' || c == '\u200d')

/-- A character of an encoding's name: a dot, a hyphen, or a word character.  Those that
Unicode 17 added are not among them, though a letter among them can be part of a name. -/
def isEncodingChar (c : Char) : Bool :=
  c == '.' || c == '-' || (isWordChar c && !CharTable.addedLast.contains c)

/-- The encoding named right behind `coding:` or `coding=`. -/
def encodingAfterWord? (t : Text) : Option Text :=
  match t.after? "coding".toList with
  | some (sign :: rest) =>
    if sign = ':' ∨ sign = '=' then
      let name := (rest.dropWhile fun c => c == ' ' || c == '\t').takeWhile isEncodingChar
      if name.isEmpty then none else some name
    else none
  | _ => none

/-- The encoding named by the first `coding` in a comment that names one before the line
ends. -/
def encodingInComment? : Text → Option Text
  | [] => none
  | c :: rest =>
    match encodingAfterWord? (c :: rest) with
    | some name => some name
    | none => if c = '\n' then none else encodingInComment? rest

/-- The encoding that a line declares by a comment such as `# -*- coding: utf-8 -*-`. -/
def encodingDeclaration? (line : Text) : Option Text :=
  match line.dropWhile fun c => c == ' ' || c == '\t' || c == '\x0c' with
  | '#' :: comment => encodingInComment? comment
  | _ => none

end ClassOutline
