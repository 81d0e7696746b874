/-
  ClassOutline.LogicalLine.Scan
  ────────────────────────────────
  **FROM PHYSICAL LINES TO LOGICAL LINES.**

  The lines of a source are read one by one.  Between two of them the state is
  what is open (`Nesting`), the statement that is not complete yet
  (`OpenLine`), the run of comment lines above, and the declared encoding.  A
  statement is complete when nothing is open and no backslash continues it.

  Nothing is refused.  A string without a triple delimiter ends with its line
  unless a backslash stands there; a statement that runs over too many lines is
  cut off; the source may end anywhere.  Each of these is reported.

  `ScanState.step` reads one line and returns what it completes, so a scan is
  the concatenation of its steps.
-/
import ClassOutline.Config.Basic
import ClassOutline.Diagnostic
import ClassOutline.LogicalLine.Basic

namespace ClassOutline

/-! ## §1. State and output. -/

/-- A statement of which more lines are expected. -/
structure OpenLine where
  line : Nat
  indent : Column
  text : Text
  /-- How many lines were joined to the first. -/
  joins : Nat
  comments : List Text
  deriving DecidableEq, Repr

/-- The statement as it stands, its last physical line being `endLine`. -/
def OpenLine.close (o : OpenLine) (endLine : Nat) (balanced : Bool) : LogicalLine :=
  { line := o.line, endLine, indent := o.indent, text := o.text, balanced, comments := o.comments }

/-- What is known between two physical lines. -/
structure ScanState where
  nesting : Nesting := {}
  pending : Option OpenLine := none
  comments : List Text := []
  encoding : Option Text := none
  deriving DecidableEq, Repr

/-- Logical lines and diagnostics, each in order. -/
structure ScanOutput where
  lines : List LogicalLine := []
  diagnostics : List Diagnostic := []
  deriving DecidableEq, Repr

instance : Append ScanOutput where
  append a b := ⟨a.lines ++ b.lines, a.diagnostics ++ b.diagnostics⟩

/-- The logical lines of a source, the encoding it declares, and what was odd. -/
structure ScanResult where
  lines : List LogicalLine
  encoding : Option Text
  diagnostics : List Diagnostic
  deriving DecidableEq, Repr

/-! ## §2. One physical line. -/

/-- The code of one physical line and how it ends. -/
structure CodeLine where
  /-- The code, trimmed, without a continuing backslash. -/
  code : Text
  /-- What is open behind it. -/
  nesting : Nesting
  /-- A backslash continues the statement. -/
  backslash : Bool
  /-- The string that was open and had to be closed. -/
  unterminated : Option Quote
  deriving DecidableEq, Repr

namespace CodeLine

/-- The next physical line belongs to the same statement. -/
def isContinued (c : CodeLine) : Bool := c.backslash || !c.nesting.isTopLevel

/-- The line has no code and leaves nothing open. -/
def isVoid (c : CodeLine) : Bool := c.code.isEmpty && !c.isContinued

/-- Read a physical line that begins inside `n`. -/
def read (n : Nesting) (raw : Text) : CodeLine :=
  let (untrimmed, after) := n.code raw
  let code := untrimmed.trim
  let endsInBackslash := Text.lastIs (· == '\\') code
  let unterminated := after.quote.filter fun q => !q.isTriple && !endsInBackslash
  let nesting := if unterminated.isSome then { after with quote := none } else after
  if nesting.quote.isNone && endsInBackslash then
    ⟨Text.trimEnd code.dropLast, nesting, true, unterminated⟩
  else ⟨code, nesting, false, unterminated⟩

end CodeLine

namespace ScanState

/-- The statement that a line of code opens or continues. -/
def openWith (cfg : Config) (number : Nat) (raw : Text) (c : CodeLine) (s : ScanState) : OpenLine :=
  match s.pending with
  | some o => { o with text := o.text ++ '\n' :: c.code, joins := o.joins + 1 }
  | none =>
    { line := number, indent := indentWidth cfg.tabWidth.toNat raw, text := c.code, joins := 0,
      comments := s.comments }

/-- The comment run after a line without code: a blank line breaks it, a comment line adds to
it, and a `#!` on the first line counts as neither. -/
def commentsAfter (number : Nat) (raw : Text) (s : ScanState) : List Text :=
  match commentOf? raw with
  | none => []
  | some comment =>
    if number = 1 ∧ comment.head? = some '!' then s.comments else s.comments ++ [comment.trim]

/-- Read a physical line for its code. -/
def stepCode (cfg : Config) (number : Nat) (raw : Text) (s : ScanState) : ScanState × ScanOutput :=
  let c := CodeLine.read s.nesting raw
  let reported : List Diagnostic :=
    c.unterminated.toList.map fun q => ⟨number, .unterminatedString q⟩
  if s.pending.isNone && c.isVoid then
    ({ s with nesting := c.nesting, comments := commentsAfter number raw s }, ⟨[], reported⟩)
  else
    let o := openWith cfg number raw c s
    let rest := { s with
      nesting := c.nesting
      pending := none
      comments := if s.pending.isNone then [] else s.comments }
    if !c.isContinued then (rest, ⟨[o.close number true], reported⟩)
    else if cfg.maxLineJoins ≤ o.joins then
      ({ rest with nesting := .closed },
       ⟨[o.close number false],
        reported ++ [⟨number, .joinLimitReached cfg.maxLineJoins c.nesting⟩]⟩)
    else ({ rest with pending := some o }, ⟨[], reported⟩)

/-- Read the physical line `number`.  A declaration of the encoding counts on the first two
lines, where no statement is open, and only once. -/
def step (cfg : Config) (number : Nat) (raw : Text) (s : ScanState) : ScanState × ScanOutput :=
  if s.pending.isNone ∧ number ≤ 2 ∧ s.encoding.isNone then
    match encodingDeclaration? raw with
    | some name => ({ s with encoding := some name }, {})
    | none => stepCode cfg number raw s
  else stepCode cfg number raw s

/-- What is left when the source ends after line `last`. -/
def finish (last : Nat) (s : ScanState) : ScanOutput :=
  match s.pending with
  | none => {}
  | some o => ⟨[o.close last false], [⟨o.line, .openAtEnd s.nesting⟩]⟩

/-- Read the physical lines from line `number` on: the state after them and all output. -/
def run (cfg : Config) (number : Nat) (s : ScanState) : List Text → ScanState × ScanOutput
  | [] => (s, {})
  | raw :: rest =>
    let (next, output) := step cfg number raw s
    let (final, later) := run cfg (number + 1) next rest
    (final, output ++ later)

end ScanState

/-! ## §3. A whole source. -/

/-- The logical lines of a source. -/
def LogicalLine.scan (cfg : Config) (source : Text) : ScanResult :=
  let physical := source.lines
  let (final, output) := ScanState.run cfg 1 {} physical
  let all := output ++ final.finish physical.length
  ⟨all.lines, final.encoding, all.diagnostics⟩

end ClassOutline
