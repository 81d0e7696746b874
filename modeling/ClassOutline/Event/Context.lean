/-
  ClassOutline.Event.Context
  ────────────────────────────────
  **WHERE A STATEMENT STANDS.**

  Every header opens a frame at its column; a line belongs to the frames whose
  columns lie to the left of it, so before a line is read all others are
  closed (`closeFrames`).  The innermost frame that is no control-flow block is
  the scope of a statement.

  Beside the frames the context keeps what waits for the next header: the
  decorators and comments above it.
-/
import ClassOutline.Config.Basic
import ClassOutline.Event.Basic
import ClassOutline.LogicalLine.Basic

namespace ClassOutline

/-! ## §1. Frames. -/

/-- What a header opened. -/
inductive FrameKind where
  /-- The body of a class, by its qualified name. -/
  | classBody (name : Text)
  /-- The body of a method, with its lines so far and their columns. -/
  | methodBody (name : Text) (isConstructor : Bool) (selfName : Option Text)
      (body : List (Column × Text))
  /-- A body in which nothing counts. -/
  | skipped
  /-- A control-flow block; it belongs to the scope around it. -/
  | block
  deriving DecidableEq, Repr

/-- An open header. -/
structure Frame where
  kind : FrameKind
  /-- The column of the header. -/
  indent : Column
  /-- The body has had a statement. -/
  bodySeen : Bool
  deriving DecidableEq, Repr

/-- The scope of a statement. -/
inductive Scope where
  | module
  | classBody (name : Text)
  | methodBody (isConstructor : Bool) (selfName : Option Text)
  | skipped
  deriving DecidableEq, Repr

/-- The text of a method's body, its lines indented against the leftmost one.  A run in which it
would have more bytes than a text can have is stopped (`Frame.endFits`). -/
def methodSource (body : List (Column × Text)) : Text :=
  let margin := (body.map Prod.fst).min?.getD 0
  Text.join "\n" (body.map fun (indent, text) => List.replicate (indent - margin) ' ' ++ text)

namespace Frame

/-- The event that ends a frame, if its beginning was one. -/
def ends (f : Frame) : List Event :=
  match f.kind with
  | .classBody name => [.classEnd name]
  | .methodBody name _ _ body => [.methodEnd name (methodSource body)]
  | .skipped | .block => []

/-- The scope that a frame makes, unless it is a block. -/
def scope? (f : Frame) : Option Scope :=
  match f.kind with
  | .classBody name => some (.classBody name)
  | .methodBody _ isConstructor selfName _ => some (.methodBody isConstructor selfName)
  | .skipped => some .skipped
  | .block => none

/-- The frame's first statement may be a docstring. -/
def takesDocstring (f : Frame) : Bool :=
  match f.kind with
  | .classBody _ | .methodBody .. => !f.bodySeen
  | .skipped | .block => false

end Frame

/-! ## §2. The frames around a statement, the innermost first. -/

/-- Close the frames at or to the right of a column: the events that end them, and the frames
that stay open. -/
def closeFrames (indent : Column) : List Frame → List Event × List Frame
  | [] => ([], [])
  | f :: fs =>
    if indent ≤ f.indent then (f.ends ++ (closeFrames indent fs).1, (closeFrames indent fs).2)
    else ([], f :: fs)

/-- Add a line to the body of the innermost method. -/
def recordLine (indent : Column) (text : Text) : List Frame → List Frame
  | [] => []
  | f :: fs =>
    match f.kind with
    | .methodBody name isConstructor selfName body =>
      { f with kind := .methodBody name isConstructor selfName (body ++ [(indent, text)]) } :: fs
    | _ => f :: recordLine indent text fs

/-- The scope inside the frames. -/
def scopeOf (fs : List Frame) : Scope := (fs.findSome? Frame.scope?).getD .module

/-! ## §3. The context of a statement. -/

/-- What is known before a statement. -/
structure Context where
  /-- The open headers, the innermost first. -/
  frames : List Frame := []
  /-- The decorators that wait for a method. -/
  decorators : List Text := []
  /-- The comments above the line that is read. -/
  comments : List Text := []
  /-- The comments above the decorators that wait. -/
  headerComments : List Text := []
  deriving DecidableEq, Repr

namespace Context

/-- The scope of the next statement. -/
def scope (c : Context) : Scope := scopeOf c.frames

/-- The next statement is the first in the body of a class or method. -/
def isFirstInBody (c : Context) : Bool := c.frames.head?.any Frame.takesDocstring

/-- Note that the innermost body has a statement. -/
def enterBody (c : Context) : Context :=
  { c with frames := match c.frames with
      | [] => []
      | f :: fs => { f with bodySeen := true } :: fs }

/-- Forget decorators and comments that no header claimed. -/
def dropPending (c : Context) : Context := { c with decorators := [], headerComments := [] }

/-- The comment for a header on the line that is read. -/
def comment? (c : Context) : Option Text :=
  let lines := c.headerComments ++ c.comments
  if lines.isEmpty then none else some (Text.join "\n" lines)

/-- A header has claimed what was pending. -/
def claimPending (c : Context) : Context :=
  { c with decorators := [], comments := [], headerComments := [] }

/-- Open a frame. -/
def push (kind : FrameKind) (indent : Column) (c : Context) : Context :=
  { c with frames := ⟨kind, indent, false⟩ :: c.frames }

/-- Add a line to the body of the innermost method. -/
def record (indent : Column) (text : Text) (c : Context) : Context :=
  { c with frames := recordLine indent text c.frames }

end Context

end ClassOutline
