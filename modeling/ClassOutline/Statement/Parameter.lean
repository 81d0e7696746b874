/-
  ClassOutline.Statement.Parameter
  ────────────────────────────────
  **THE PARAMETERS OF A FUNCTION AS WRITTEN.**

  A parameter is a name with stars before it, an annotation and a default
  behind it.  Annotation and default stay text.  Parameters without a comma
  between them are told apart and reported; the bare markers `*` and `/` name
  nothing and are left out.
-/
import ClassOutline.Diagnostic
import ClassOutline.Nesting.Assignment
import ClassOutline.Nesting.Atom

namespace ClassOutline

/-! ## §1. Parameters. -/

/-- How a parameter takes its arguments. -/
inductive ParameterKind where
  | regular
  /-- All further positional arguments: `*args`. -/
  | varArgs
  /-- All further keyword arguments: `**kwargs`. -/
  | kwArgs
  deriving DecidableEq, Repr

namespace ParameterKind

/-- All kinds. -/
def all : List ParameterKind := [regular, varArgs, kwArgs]

/-- The identifier of a kind in data. -/
def tag : ParameterKind → String
  | regular => "regular"
  | varArgs => "var_args"
  | kwArgs => "kw_args"

/-- The word for a kind in output. -/
def label : ParameterKind → String
  | regular => "regular"
  | varArgs => "var_args"
  | kwArgs => "kwargs"

/-- The stars that mark a parameter of this kind. -/
def stars : ParameterKind → Text
  | regular => []
  | varArgs => ['*']
  | kwArgs => ['*', '*']

end ParameterKind

/-- A parameter as written in a header. -/
structure WrittenParameter where
  name : Text
  kind : ParameterKind
  annotation : Option Text
  /-- The expression behind the `=`. -/
  default : Option Text
  deriving DecidableEq, Repr

/-! ## §2. Targets with annotations. -/

/-- What an assignment or parameter names, and the annotation behind its colon. -/
structure Target where
  name : Text
  annotation : Option Text
  deriving DecidableEq, Repr

namespace Text

/-- Divide `t` at its first top-level colon. -/
def target (t : Text) : Target :=
  match t.breakTopLevel? (· == ':') with
  | some b => ⟨b.before.trim, some b.after.squash⟩
  | none => ⟨t.trim, none⟩

/-! ## §3. Reading parameters. -/

/-- The kind that the stars in front of `t` mark, and what follows them. -/
def starred : Text → ParameterKind × Text
  | '*' :: '*' :: rest => (.kwArgs, rest)
  | '*' :: rest => (.varArgs, rest)
  | t => (.regular, t)

/-- The parameter that `t` writes, if it has a name.  An empty default is none. -/
def parameter? (t : Text) : Option WrittenParameter :=
  let (kind, rest) := starred t
  let (written, default) : Text × Option Text :=
    match rest.assignment? with
    | some a =>
      if a.isAugmented then (rest, none)
      else (a.target, some a.value.trim)
    | none => (rest, none)
  let found := target written
  if isName found.name then
    some ⟨found.name, kind, found.annotation, default.filter fun d => !d.isEmpty⟩
  else none

/-- The parameter in `part`, if any; a marker names none, anything else that is no parameter
is reported. -/
def parameterItem (part : Text) : Reported (List WrittenParameter) :=
  if part = ['*'] ∨ part = ['/'] then ⟨[], []⟩
  else match parameter? part with
    | some p => ⟨[p], []⟩
    | none => ⟨[], [.unrecognizedParameter part]⟩

/-- The parameters that `t` lists, given what stands between the parentheses. -/
def parameters (t : Text) : Reported (List WrittenParameter) :=
  Reported.concat (t.commaItems.map fun piece =>
    let parts := piece.adjacentItems
    let ambiguous := if 1 < parts.length then [Cause.ambiguousParameters parts] else []
    (Reported.concat (parts.map parameterItem)).since ambiguous)

end Text

end ClassOutline
