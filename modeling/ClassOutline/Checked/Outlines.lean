/-
  ClassOutline.Checked.Outlines
  ────────────────────────────────
  **OUTLINES THAT ARE PUT TOGETHER IN WORDS.**

  Behind the events only expressions are walked over, each when its event is
  taken, and only if it belongs to something.  An extraction that is cancelled
  has read the lines before the question that cancelled it.
-/
import ClassOutline.Checked.Events
import ClassOutline.Outline.OfSource

namespace ClassOutline

/-! ## §1. Events. -/

/-- The values of a method's parameters can be classified. -/
def MethodStart.draftFits (cfg : Config) (m : MethodStart) : Bool :=
  (m.parameters.drop (if (m.shape cfg).dropsFirst then 1 else 0)).all fun p =>
    p.default.all fun t => t.classifyFits

namespace Assembly

/-- An event can be taken. -/
def takeFits (cfg : Config) (s : Assembly) : Event → Bool
  | .methodStart m => s.opened.isEmpty || m.draftFits cfg
  | .classAssignment a => s.innermost?.isNone || a.value.classifyFits
  | .selfAssignment a => s.innermost?.isNone || s.method.isNone || a.value.classifyFits
  | .moduleAssignment _ value _ => value.classifyFits
  | .classStart _ | .classEnd _ | .methodEnd .. | .docstring .. | .decorator .. | .ignored .. =>
    true

/-- Events can be taken in order. -/
def takeAllFits (cfg : Config) (s : Assembly) : List Event → Bool
  | [] => true
  | e :: es => s.takeFits cfg e && takeAllFits cfg (s.take cfg e).1 es

end Assembly

/-! ## §2. Sources. -/

namespace UnitOutline

/-- The outline of a source can be made. -/
def sourceFits (cfg : Config) (source : Text) : Bool :=
  let lines := (LogicalLine.scan cfg source).lines
  ({} : ScanState).runFits cfg 1 source.lines && Event.linesFit cfg lines
    && ({} : Assembly).takeAllFits cfg (Event.ofLines cfg lines).events

/-- So it can unless the extraction is cancelled, and up to there if it is. -/
def sourceFitsUnless (isCancelled : Nat → Bool) (cfg : Config) (source : Text) : Bool :=
  let lines := (LogicalLine.scan cfg source).lines
  isCancelled 0 || (({} : ScanState).runFits cfg 1 source.lines
    && match (List.range lines.length).find? fun k => isCancelled (k + 1) with
      | some k => ({} : Context).linesFit cfg (lines.take k)
      | none => sourceFits cfg source)

end UnitOutline

namespace Checked

/-- The classes that a stream of events describes. -/
def classes (cfg : Config) (events : List Event) : Option (List (Class Value) × List Diagnostic) :=
  guarded (({} : Assembly).takeAllFits cfg events) (Class.ofEvents cfg events)

/-- The outline of a source. -/
def outline (cfg : Config) (unit source : Text) : Option UnitOutline :=
  guarded (UnitOutline.sourceFits cfg source) (UnitOutline.ofSource cfg unit source)

/-- The outline of a source, unless the extraction is cancelled. -/
def outlineUnless (isCancelled : Nat → Bool) (cfg : Config) (unit source : Text) :
    Option (Except Cancelled UnitOutline) :=
  guarded (UnitOutline.sourceFitsUnless isCancelled cfg source)
    (UnitOutline.ofSourceUnless isCancelled cfg unit source)

/-- The outlines of sources, in their order. -/
def outlines (cfg : Config) (units : List SourceUnit) : Option (List UnitOutline) :=
  units.mapM fun u => outline cfg u.name u.source

/-- The outlines of sources in their order, each unless its extraction is cancelled. -/
def outlinesUnless (isCancelled : Nat → Bool) (cfg : Config) (units : List SourceUnit) :
    Option (List (Except Cancelled UnitOutline)) :=
  units.mapM fun u => outlineUnless isCancelled cfg u.name u.source

end Checked

end ClassOutline
