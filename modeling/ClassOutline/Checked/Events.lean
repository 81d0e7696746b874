/-
  ClassOutline.Checked.Events
  ────────────────────────────────
  **EVENTS OF LINES THAT STAND IN WORDS.**

  Three things can stop the reading of a line: the walks over its text, an
  inline body behind the last column there is, and the text of a method that
  ends, padded to more bytes than a text can have.

  What is walked over is decided form by form, as the statement is read
  (`Statement.formFits`), and only where it counts: a statement in a skipped body
  is passed over unread.
-/
import ClassOutline.Checked.Expressions
import ClassOutline.Checked.Lines
import ClassOutline.Event.OfLines

namespace ClassOutline

/-! ## §1. The ends of frames. -/

/-- A text has fewer bytes than half of the words that could count them. -/
def textLimit : Nat := UInt64.size / 2

/-- The bytes of rows, each with the blanks that are left of its column. -/
def paddedLength (margin : Column) : List (Column × Text) → Nat
  | [] => 0
  | (indent, text) :: rows => (indent - margin + text.byteLength) + paddedLength margin rows

/-- The length of a method's source in bytes: its rows, and the line breaks between them. -/
def sourceLength (body : List (Column × Text)) : Nat :=
  paddedLength ((body.map Prod.fst).min?.getD 0) body + (body.length - 1)

/-- The event that ends the frame can be made. -/
def Frame.endFits (f : Frame) : Bool :=
  match f.kind with
  | .methodBody _ _ _ body => sourceLength body < textLimit
  | .classBody _ | .skipped | .block => true

/-- The frames at or to the right of a column can be closed. -/
def closingFits (indent : Column) : List Frame → Bool
  | [] => true
  | f :: fs => !(indent ≤ f.indent) || (f.endFits && closingFits indent fs)

/-! ## §2. Statements. -/

namespace Statement

/-- An inline body behind a header can be performed by `inner`, one column to the right. -/
def bodyFits (inner : Column → Text → Context → Bool) (indent : Column) (body : Text)
    (header : Context) : Bool :=
  body.isEmpty || header.scope = .skipped
    || (indent + 1 < columnLimit && inner (indent + 1) body header)

/-- Statements one after the other can be performed by `inner`. -/
def partsFit (cfg : Config) (line : Nat) (inner : Column → Text → Context → Bool)
    (indent : Column) : List Text → Context → Bool
  | [], _ => true
  | t :: ts, c =>
    inner indent t c && partsFit cfg line inner indent ts ((parse t).perform cfg line indent c).1

/-- The assignments in a value can be looked for, as long as they make a chain, and divided into
name and annotation. -/
def chainFits (value : Text) : Bool :=
  value.fits && match _h : value.assignment? with
    | some a =>
      a.isAugmented || (a.target.trim.fits
        && (!Text.isDottedName a.target.trim.target.name || chainFits a.value.trim))
    | none => true
termination_by value.length
decreasing_by
  have := Text.length_value_lt_of_assignment? _h
  have := Text.length_trim_le a.value
  omega

/-- The statement of a text that is neither a header nor several statements can be read, if the
whole text can be walked over. -/
def plainFits (t : Text) : Bool :=
  t.stringValue?.isSome || t.assignment?.all fun a =>
    a.isAugmented || (chainFits a.value.trim
      && (a.target.trim :: (chain a.value.trim).1).all fun target => target.fits)

/-- The bases of a class can be told apart; they are not looked at in a function. -/
def basesFit (scope : Scope) (h : Header) : Bool :=
  match scope with
  | .module | .classBody _ => h.arguments.all fun arguments => arguments.fits
  | .methodBody .. | .skipped => true

/-- The parameters of a function can be read; they are looked at in a class only. -/
def argumentsFit (scope : Scope) (arguments : Text) : Bool :=
  match scope with
  | .classBody _ => arguments.parametersFit
  | .module | .methodBody .. | .skipped => true

/-- The statement of a trimmed text can be read and performed where it counts, what is inside it
by `inner`. -/
def formFits (cfg : Config) (line : Nat) (inner : Column → Text → Context → Bool) (indent : Column)
    (t : Text) (c : Context) : Bool :=
  if t.head? = some '@' then true
  else if let some rest := t.afterKeyword? "class".toList then
    rest.headerFits && rest.header?.all fun h => basesFit c.scope h
      && bodyFits inner indent h.body (c.enterBody.openClass line indent h.name []).1
  else if let some rest := t.afterKeyword? "def".toList then functionFits false rest
  else if let some rest := afterAsyncDef? t then functionFits true rest
  else
    t.blockFits && match t.blockBody? with
      | some body => bodyFits inner indent body (c.enterBody.dropPending.push .block indent)
      | none =>
        let parts := t.splitTopLevel ';'
        t.fits && if 1 < parts.length then partsFit cfg line inner indent parts c else plainFits t
where
  functionFits (isAsync : Bool) (rest : Text) : Bool :=
    rest.headerFits && match rest.header? with
      | some ⟨name, some arguments, body⟩ => argumentsFit c.scope arguments
        && bodyFits inner indent body
          (c.enterBody.openFunction cfg line indent ⟨name, arguments, isAsync, body⟩).1
      | _ => true

/-- The statement of a text of which at most so many layers are left can be performed. -/
def fitsWithin (cfg : Config) (line : Nat) : Nat → Column → Text → Context → Bool
  | 0, _, _, _ => true
  | layers + 1, indent, t, c =>
    t.trim.isEmpty || c.scope = .skipped
      || formFits cfg line (fitsWithin cfg line layers) indent t.trim c

/-- The statement of a text can be performed. -/
def fits (cfg : Config) (line : Nat) (indent : Column) (t : Text) (c : Context) : Bool :=
  fitsWithin cfg line (t.length + 1) indent t c

end Statement

/-! ## §3. Lines. -/

namespace Context

/-- A logical line can be read. -/
def lineFits (cfg : Config) (l : LogicalLine) (c : Context) : Bool :=
  closingFits l.indent c.frames
    && Statement.fits cfg l.line l.indent l.text
        ({ c with frames := (closeFrames l.indent c.frames).2, comments := l.comments }.record
          l.indent l.text)

/-- Logical lines can be read one after the other. -/
def linesFit (cfg : Config) (c : Context) : List LogicalLine → Bool
  | [] => true
  | l :: ls => c.lineFits cfg l && linesFit cfg (c.readLine cfg l).1 ls

end Context

/-- Logical lines can be read, and all frames closed behind them. -/
def Event.linesFit (cfg : Config) (lines : List LogicalLine) : Bool :=
  ({} : Context).linesFit cfg lines && closingFits 0 (Context.readLines cfg {} lines).1.frames

namespace Checked

/-- Read a logical line. -/
def readLine (cfg : Config) (l : LogicalLine) (c : Context) : Option (Context × EventOutput) :=
  guarded (c.lineFits cfg l) (c.readLine cfg l)

/-- Read logical lines: the context after them and all output. -/
def readLines (cfg : Config) (c : Context) (lines : List LogicalLine) :
    Option (Context × EventOutput) :=
  guarded (c.linesFit cfg lines) (Context.readLines cfg c lines)

/-- The events of a source, given its logical lines. -/
def events (cfg : Config) (lines : List LogicalLine) : Option EventOutput :=
  guarded (Event.linesFit cfg lines) (Event.ofLines cfg lines)

end Checked

end ClassOutline
