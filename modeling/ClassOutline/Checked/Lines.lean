/-
  ClassOutline.Checked.Lines
  ────────────────────────────────
  **COLUMNS AND LINES COUNTED IN WORDS.**

  A column is a word of 64 bits.  The tab stop that is reached may lie behind
  the last column there is, for nothing bounds the distance of tab stops.

  The scanner reads the code of a line unit by unit, and adds the open brackets
  up once, behind the line, unless a backslash continues it.
-/
import ClassOutline.Checked.Walks
import ClassOutline.LogicalLine.Scan

namespace ClassOutline

/-! ## §1. Columns. -/

/-- The words that hold columns have 64 bits. -/
def columnLimit : Nat := UInt64.size

/-- No column behind `column` leaves its word while the blanks that start a line are read. -/
def indentFitsFrom (tabWidth column : Column) : Text → Bool
  | [] => true
  | c :: rest =>
    if c = ' ' then column + 1 < columnLimit && indentFitsFrom tabWidth (column + 1) rest
    else if c = '\t' then
      let next := (column / tabWidth + 1) * tabWidth
      next < columnLimit && indentFitsFrom tabWidth next rest
    else if c = '\x0c' then indentFitsFrom tabWidth 0 rest
    else true

/-- The indentation of a line can be measured. -/
def indentFits (tabWidth : Column) (line : Text) : Bool :=
  indentFitsFrom (if tabWidth = 0 then 1 else tabWidth) 0 line

/-! ## §2. Physical lines. -/

namespace ScanState

/-- The code of a line can be read: its units, the indentation if a statement opens on the line,
and what is open behind it. -/
def stepCodeFits (cfg : Config) (raw : Text) (s : ScanState) : Bool :=
  let c := CodeLine.read s.nesting raw
  s.nesting.stepsFit (s.nesting.code raw).1
    && (s.pending.isSome || c.isVoid || indentFits cfg.tabWidth.toNat raw)
    && (c.backslash || c.nesting.depthFits)

/-- A line can be read; one that declares the encoding is not read for its code. -/
def stepFits (cfg : Config) (number : Nat) (raw : Text) (s : ScanState) : Bool :=
  (s.pending.isNone && number ≤ 2 && s.encoding.isNone && (encodingDeclaration? raw).isSome)
    || s.stepCodeFits cfg raw

/-- Lines can be read one after the other. -/
def runFits (cfg : Config) (number : Nat) (s : ScanState) : List Text → Bool
  | [] => true
  | raw :: rest =>
    s.stepFits cfg number raw && runFits cfg (number + 1) (s.step cfg number raw).1 rest

end ScanState

namespace Checked

/-- The width of a physical line's indentation. -/
def indentWidth (tabWidth : Column) (line : Text) : Option Column :=
  guarded (indentFits tabWidth line) (ClassOutline.indentWidth tabWidth line)

/-- The logical lines of a source. -/
def scan (cfg : Config) (source : Text) : Option ScanResult :=
  guarded (({} : ScanState).runFits cfg 1 source.lines) (LogicalLine.scan cfg source)

end Checked

end ClassOutline
