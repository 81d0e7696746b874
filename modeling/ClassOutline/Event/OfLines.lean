/-
  ClassOutline.Event.OfLines
  ────────────────────────────────
  **FROM LOGICAL LINES TO EVENTS.**

  `Statement.perform` says what a statement means in its context: the events it
  makes, what is odd about it, and the context after it.  It follows the tree of
  the statement, so an inline body is performed inside the frame its header
  opens, at the next column.

  `Context.readLine` does this for a whole line, after closing the frames that
  the line does not belong to.  `Event.ofLines` reads all lines and closes what
  is left.
-/
import ClassOutline.Event.Context
import ClassOutline.LogicalLine.Basic
import ClassOutline.Statement.Basic

namespace ClassOutline

/-! ## §1. Output. -/

/-- Events and diagnostics, each in order. -/
structure EventOutput where
  events : List Event := []
  diagnostics : List Diagnostic := []
  deriving DecidableEq, Repr

instance : Append EventOutput where
  append a b := ⟨a.events ++ b.events, a.diagnostics ++ b.diagnostics⟩

/-- The output of a statement that is passed over. -/
def EventOutput.ignored (reason : IgnoreReason) (line : Nat) : EventOutput :=
  ⟨[.ignored reason line], []⟩

/-! ## §2. Assignments. -/

/-- The attribute that `self.name` names, given the name of self. -/
def selfAttribute? (target : Text) (selfName : Option Text) : Option Text :=
  match target.cutAt? '.' with
  | none => none
  | some (root, attr) =>
    if some root.trim = selfName ∧ Text.isName attr.trim then some attr.trim else none

/-- What the assignment of a value to a target means in a scope. -/
def Scope.assign (scope : Scope) (line : Nat) (value : Text) (target : Target) : Event :=
  match scope with
  | .module =>
    if Text.isName target.name then .moduleAssignment target.name value line
    else .ignored .unsupportedTarget line
  | .classBody _ =>
    if Text.isName target.name then
      .classAssignment ⟨target.name, target.annotation, value, line⟩
    else .ignored .unsupportedTarget line
  | .methodBody true selfName =>
    match selfAttribute? target.name selfName with
    | some name => .selfAssignment ⟨name, target.annotation, value, line⟩
    | none =>
      .ignored (if Text.isName target.name then .localAssignment else .unsupportedTarget) line
  | .methodBody false _ => .ignored .outsideConstructor line
  | .skipped => .ignored .functionBody line

/-! ## §3. Headers. -/

/-- The name of self in a method: its first parameter, if that is a regular one with one of
the configured names and the method is not static. -/
def selfNameOf? (cfg : Config) (decorators : List Text) (parameters : List WrittenParameter) :
    Option Text :=
  match parameters.head? with
  | none => none
  | some p =>
    if decorators.contains "staticmethod".toList then none
    else if p.kind = .regular ∧ cfg.isSelfName p.name then some p.name
    else none

namespace Context

/-- Pass over a header and skip its body. -/
def skipBody (reason : IgnoreReason) (line : Nat) (indent : Column) (c : Context) : Context × EventOutput :=
  (c.push .skipped indent, .ignored reason line)

/-- Open a class, unless it stands in a method. -/
def openClass (line : Nat) (indent : Column) (name : Text) (bases : List Text) (c : Context) :
    Context × EventOutput :=
  let claimed := c.claimPending
  let start (qualified : Text) : Context × EventOutput :=
    (claimed.push (.classBody qualified) indent,
     ⟨[.classStart ⟨qualified, bases, c.comment?, line⟩], []⟩)
  match c.scope with
  | .module => start name
  | .classBody outer => start (outer ++ '.' :: name)
  | .methodBody .. | .skipped => skipBody .nestedInFunction line indent claimed

/-- Open a method, if the function stands in a class. -/
def openFunction (cfg : Config) (line : Nat) (indent : Column) (h : FunctionHeader) (c : Context) :
    Context × EventOutput :=
  let claimed := c.claimPending
  match c.scope with
  | .classBody _ =>
    let parameters := h.arguments.parameters
    let frame := FrameKind.methodBody h.name (h.name == cfg.constructorName)
      (selfNameOf? cfg c.decorators parameters.value) []
    let opened := claimed.push frame indent
    (if h.body.isEmpty then opened else opened.record (indent + 1) h.body,
     ⟨[.methodStart ⟨h.name, parameters.value, c.decorators, h.isAsync, c.comment?, line⟩],
      Diagnostic.atLine line parameters.causes⟩)
  | .module => skipBody .functionOutsideClass line indent claimed
  | .methodBody .. | .skipped => skipBody .nestedInFunction line indent claimed

/-- Note a decorator; it counts only in a class. -/
def noteDecorator (line : Nat) (name : Text) (c : Context) : Context × EventOutput :=
  let noted := { c with headerComments := c.headerComments ++ c.comments, comments := [] }
  match c.scope with
  | .classBody _ =>
    ({ noted with decorators := c.decorators ++ [name] }, ⟨[.decorator name line], []⟩)
  | _ => (noted, .ignored .decorator line)

end Context

/-! ## §4. Statements. -/

namespace Statement

/-- Perform a statement by `act`, but pass over it where nothing counts. -/
def unlessSkipped (line : Nat) (s : Statement) (act : Context → Context × EventOutput)
    (c : Context) : Context × EventOutput :=
  if s.isEmpty then (c, {})
  else if c.scope = .skipped then (c, .ignored .functionBody line)
  else act c

/-- Perform an inline body by `act` behind its header's output, unless the header's body is
skipped. -/
def thenBody (header : Context × EventOutput) (act : Context → Context × EventOutput) :
    Context × EventOutput :=
  if header.1.scope = .skipped then header
  else ((act header.1).1, header.2 ++ (act header.1).2)

/-- What a string alone means: a docstring, if it comes first in the body of a class or
method. -/
def docstringOr (line : Nat) (contents : Text) (c : Context) : EventOutput :=
  match c.isFirstInBody, c.scope with
  | true, .classBody _ | true, .methodBody .. => ⟨[.docstring contents.trim line], []⟩
  | _, _ => .ignored .expression line

mutual

/-- What a statement means in a context where it counts. -/
def act (cfg : Config) (line : Nat) (indent : Column) : Statement → Context → Context × EventOutput
  | .empty, c => (c, {})
  | .decorator name, c => c.enterBody.noteDecorator line name
  | .malformedHeader keyword text, c =>
    let (after, output) :=
      Context.skipBody .malformedHeader line indent c.enterBody.dropPending
    (after, ⟨[], [⟨line, .malformedHeader keyword text⟩]⟩ ++ output)
  | .classDef name bases body, c =>
    thenBody (c.enterBody.openClass line indent name bases) (act cfg line (indent + 1) body)
  | .functionDef header body, c =>
    thenBody (c.enterBody.openFunction cfg line indent header) (act cfg line (indent + 1) body)
  | .block body, c =>
    thenBody (c.enterBody.dropPending.push .block indent, .ignored .controlFlow line)
      (act cfg line (indent + 1) body)
  | .sequence parts, c => actAll cfg line indent parts c
  | .string contents, c => (c.enterBody.dropPending, docstringOr line contents c)
  | .assignment targets value, c =>
    (c.enterBody.dropPending, ⟨targets.map (c.scope.assign line value), []⟩)
  | .inert reason, c => (c.enterBody.dropPending, .ignored reason line)
  | .unrecognized text, c =>
    (c.enterBody.dropPending,
     ⟨[.ignored .unrecognized line], [⟨line, .unrecognizedStatement text⟩]⟩)

/-- What statements mean one after the other. -/
def actAll (cfg : Config) (line : Nat) (indent : Column) : List Statement → Context → Context × EventOutput
  | [], c => (c, {})
  | s :: rest, c =>
    let (next, output) := unlessSkipped line s (act cfg line indent s) c
    let (after, later) := actAll cfg line indent rest next
    (after, output ++ later)

end

/-- What a statement means in its context. -/
def perform (cfg : Config) (line : Nat) (indent : Column) (s : Statement) (c : Context) :
    Context × EventOutput :=
  unlessSkipped line s (act cfg line indent s) c

end Statement

/-! ## §5. Lines. -/

namespace Context

/-- Read a logical line: close the frames it does not belong to, add it to the body of the
method around it, and perform its statement. -/
def readLine (cfg : Config) (l : LogicalLine) (c : Context) : Context × EventOutput :=
  let (ends, frames) := closeFrames l.indent c.frames
  let inside := { c with frames, comments := l.comments }.record l.indent l.text
  let (after, output) := (Statement.parse l.text).perform cfg l.line l.indent inside
  (after, ⟨ends, []⟩ ++ output)

/-- Read logical lines: the context after them and all output. -/
def readLines (cfg : Config) (c : Context) : List LogicalLine → Context × EventOutput
  | [] => (c, {})
  | l :: ls =>
    let (next, output) := readLine cfg l c
    let (after, later) := readLines cfg next ls
    (after, output ++ later)

/-- The events that close all frames. -/
def finish (c : Context) : List Event := (closeFrames 0 c.frames).1

end Context

/-- The events of a source, given its logical lines. -/
def Event.ofLines (cfg : Config) (lines : List LogicalLine) : EventOutput :=
  let (final, output) := Context.readLines cfg {} lines
  output ++ ⟨final.finish, []⟩

end ClassOutline
