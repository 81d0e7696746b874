/-
  ClassOutline.Outline.OfSource
  ────────────────────────────────
  **FROM A SOURCE TO ITS OUTLINE.**

  A source is scanned into logical lines, the lines are read as events, the
  events put together into classes.  What was odd on the way is listed by line.
  None of this fails; all numbers are exact here, and whether those of a run stay
  in their words is asked apart (`Checked.outline`).

  An extraction can be cancelled: whether it is wanted is asked once before it
  begins and again before each logical line.  Sources share nothing, so a batch
  is each of its sources by itself.
-/
import ClassOutline.Event.OfLines
import ClassOutline.LogicalLine.Scan
import ClassOutline.Outline.OfEvents

namespace ClassOutline

/-! ## §1. One source. -/

/-- The outline of a source. -/
def UnitOutline.ofSource (cfg : Config) (unit source : Text) : UnitOutline :=
  let scanned := LogicalLine.scan cfg source
  let read := Event.ofLines cfg scanned.lines
  let (classes, diagnostics) := Class.ofEvents cfg read.events
  { unit, encoding := scanned.encoding, classes,
    diagnostics := Diagnostic.sorted (scanned.diagnostics ++ read.diagnostics ++ diagnostics) }

/-- An extraction that was cancelled, with the unit it was to read. -/
structure Cancelled where
  unit : Text
  deriving DecidableEq, Repr

/-- The wording of a cancellation. -/
def Cancelled.message (c : Cancelled) : Text :=
  "extraction of unit '".toList ++ c.unit ++ "' was cancelled".toList

/-- The outline of a source, unless the extraction is cancelled: `isCancelled n` answers the
question asked after `n` others, the first one before the source is scanned and one more
before each logical line. -/
def UnitOutline.ofSourceUnless (isCancelled : Nat → Bool) (cfg : Config) (unit source : Text) :
    Except Cancelled UnitOutline :=
  let questions := (LogicalLine.scan cfg source).lines.length + 1
  if (List.range questions).any isCancelled then .error ⟨unit⟩
  else .ok (ofSource cfg unit source)

/-! ## §2. Many sources. -/

/-- A source and the name of its unit. -/
structure SourceUnit where
  name : Text
  source : Text
  deriving DecidableEq, Repr

/-- The outlines of sources, in their order. -/
def UnitOutline.ofSources (cfg : Config) (units : List SourceUnit) : List UnitOutline :=
  units.map fun u => ofSource cfg u.name u.source

/-- The outlines of sources in their order, each unless its extraction is cancelled. -/
def UnitOutline.ofSourcesUnless (isCancelled : Nat → Bool) (cfg : Config)
    (units : List SourceUnit) : List (Except Cancelled UnitOutline) :=
  units.map fun u => ofSourceUnless isCancelled cfg u.name u.source

end ClassOutline
