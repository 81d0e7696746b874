/-
  ClassOutline.Diagnostic
  ────────────────────────────────
  **WHAT WAS ODD ABOUT A SOURCE, AND WHERE.**

  No source is refused.  What had to be skipped or guessed is reported as a
  cause with its line; the kind of a diagnostic and its wording are functions
  of the cause, so each wording stands in one place.
-/
import ClassOutline.Nesting.Basic

namespace ClassOutline

/-! ## §1. Kinds. -/

/-- The categories of diagnostics. -/
inductive DiagnosticKind where
  | unresolvedNesting
  | ambiguousParameterSplit
  | unrecognizedStatement
  | missingSeparator
  | unclassifiableLiteral
  | duplicateClass
  deriving DecidableEq, Repr

namespace DiagnosticKind

/-- All kinds. -/
def all : List DiagnosticKind :=
  [unresolvedNesting, ambiguousParameterSplit, unrecognizedStatement, missingSeparator,
   unclassifiableLiteral, duplicateClass]

/-- The word for a kind in messages. -/
def label : DiagnosticKind → String
  | unresolvedNesting => "unresolved-nesting"
  | ambiguousParameterSplit => "ambiguous-parameter-split"
  | unrecognizedStatement => "unrecognized-statement"
  | missingSeparator => "missing-separator"
  | unclassifiableLiteral => "unclassifiable-literal"
  | duplicateClass => "duplicate-class"

/-- The identifier of a kind in data. -/
def tag : DiagnosticKind → String
  | unresolvedNesting => "unresolved_nesting"
  | ambiguousParameterSplit => "ambiguous_parameter_split"
  | unrecognizedStatement => "unrecognized_statement"
  | missingSeparator => "missing_separator"
  | unclassifiableLiteral => "unclassifiable_literal"
  | duplicateClass => "duplicate_class"

end DiagnosticKind

/-! ## §2. Causes. -/

/-- What stands between the commas of a list, a tuple or a call. -/
inductive ItemKind where
  | tupleElements
  | listElements
  | callArguments
  deriving DecidableEq, Repr

/-- How a message names such items. -/
def ItemKind.description : ItemKind → String
  | tupleElements => "tuple elements"
  | listElements => "list elements"
  | callArguments => "call arguments"

/-- Why a diagnostic arises. -/
inductive Cause where
  /-- A string without a triple delimiter was open at the end of its line. -/
  | unterminatedString (quote : Quote)
  /-- A statement was cut off because it ran over too many lines. -/
  | joinLimitReached (limit : Nat) (still : Nesting)
  /-- A statement was still continued at the end of the source. -/
  | openAtEnd (still : Nesting)
  /-- Parameters with nothing but blanks between them. -/
  | ambiguousParameters (parts : List Text)
  /-- The header that `keyword` starts has not the form of one. -/
  | malformedHeader (keyword : Text) (statement : Text)
  /-- A text that is no statement. -/
  | unrecognizedStatement (statement : Text)
  /-- A text that is no parameter. -/
  | unrecognizedParameter (parameter : Text)
  /-- Items with nothing but blanks between them. -/
  | missingComma (kind : ItemKind) (parts : List Text)
  /-- Dict entries, named by their keys, without a comma between them. -/
  | missingEntryComma (keys : List Text)
  /-- A dict entry without a colon. -/
  | entryWithoutColon (entry : Text)
  /-- An expression inside too many others. -/
  | nestingTooDeep (limit : Nat)
  /-- An expression without any text. -/
  | emptyExpression
  /-- An expression of no known form. -/
  | unrecognizedExpression (text : Text)
  /-- A comprehension, which is no literal. -/
  | comprehension (text : Text)
  /-- An integer that does not fit 64 bits. -/
  | integerOutOfRange (text : Text)
  /-- A set, which has no value of its own. -/
  | setLiteral (text : Text)
  /-- A dict unpacked into another. -/
  | dictUnpacking (text : Text)
  /-- A class whose name was defined before, at line `earlier`. -/
  | duplicateClass (name : Text) (earlier : Nat)
  /-- A remark made by the user of the library. -/
  | remark (kind : DiagnosticKind) (message : Text)
  deriving DecidableEq, Repr

namespace Cause

/-- The category a cause belongs to. -/
def kind : Cause → DiagnosticKind
  | unterminatedString _ | joinLimitReached .. | openAtEnd _ => .unresolvedNesting
  | ambiguousParameters _ => .ambiguousParameterSplit
  | malformedHeader .. | unrecognizedStatement _ | unrecognizedParameter _ =>
    .unrecognizedStatement
  | missingComma .. | missingEntryComma _ | entryWithoutColon _ => .missingSeparator
  | nestingTooDeep _ | emptyExpression | unrecognizedExpression _ | comprehension _
  | integerOutOfRange _ | setLiteral _ | dictUnpacking _ => .unclassifiableLiteral
  | duplicateClass .. => .duplicateClass
  | remark kind _ => kind

/-- Texts in backticks with commas between them. -/
def quoted (parts : List Text) : Text :=
  "`".toList ++ Text.join "`, `" parts ++ "`".toList

/-- The wording of a cause. -/
def message : Cause → Text
  | unterminatedString quote => "unterminated string opened with ".toList ++ quote.delimiter
  | joinLimitReached limit still =>
    "line join limit of ".toList ++ Text.ofNat limit ++ " reached with ".toList
      ++ still.description ++ " still open".toList
  | openAtEnd still =>
    if still.description.isEmpty then "line continuation at end of input".toList
    else "end of input with ".toList ++ still.description ++ " still open".toList
  | ambiguousParameters parts => "parameters split at whitespace: ".toList ++ quoted parts
  | malformedHeader keyword statement =>
    "malformed ".toList ++ keyword ++ " header ".toList ++ quoted [statement.squash]
  | unrecognizedStatement statement =>
    "unrecognized statement ".toList ++ quoted [statement.squash]
  | unrecognizedParameter parameter =>
    "unrecognized parameter ".toList ++ quoted [parameter.squash]
  | missingComma kind parts =>
    "missing ',' between ".toList ++ kind.description.toList ++ [' '] ++ quoted parts
  | missingEntryComma keys =>
    "missing ',' between dict entries ".toList ++ Text.join ", " keys
  | entryWithoutColon entry => "dict entry ".toList ++ quoted [entry] ++ " has no ':'".toList
  | nestingTooDeep limit =>
    "nesting deeper than ".toList ++ Text.ofNat limit ++ " levels".toList
  | emptyExpression => "empty expression".toList
  | unrecognizedExpression text => "unrecognized expression ".toList ++ quoted [text]
  | comprehension text =>
    "comprehension ".toList ++ quoted [text] ++ " is not a literal".toList
  | integerOutOfRange text =>
    "integer literal ".toList ++ quoted [text] ++ " out of range".toList
  | setLiteral text =>
    "set literal ".toList ++ quoted [text] ++ " is not a supported value".toList
  | dictUnpacking text => "dict unpacking ".toList ++ quoted [text] ++ " skipped".toList
  | duplicateClass name earlier =>
    "class ".toList ++ quoted [name] ++ " redefined; definition at line ".toList
      ++ Text.ofNat earlier ++ " is replaced".toList
  | remark _ message => message

end Cause

/-! ## §3. Diagnostics. -/

/-- A cause and the line it concerns, counted from 1. -/
structure Diagnostic where
  line : Nat
  cause : Cause
  deriving DecidableEq, Repr

namespace Diagnostic

/-- The category of a diagnostic. -/
def kind (d : Diagnostic) : DiagnosticKind := d.cause.kind

/-- The wording of a diagnostic. -/
def message (d : Diagnostic) : Text := d.cause.message

/-- The diagnostic on one line of output. -/
def display (d : Diagnostic) : Text :=
  "line ".toList ++ Text.ofNat d.line ++ ": ".toList ++ d.kind.label.toList ++ ": ".toList
    ++ d.message

/-- The causes as diagnostics of one line. -/
def atLine (line : Nat) (causes : List Cause) : List Diagnostic := causes.map (⟨line, ·⟩)

/-- How many of the diagnostics are of a kind. -/
def count (kind : DiagnosticKind) (ds : List Diagnostic) : Nat :=
  ds.countP fun d => d.kind = kind

/-- The diagnostics by line; those of one line stay in their order. -/
def sorted (ds : List Diagnostic) : List Diagnostic := ds.mergeSort fun a b => a.line ≤ b.line

end Diagnostic

/-! ## §4. Results with their causes. -/

/-- A result and what was odd on the way to it, in order. -/
structure Reported (α : Type) where
  value : α
  causes : List Cause := []
  deriving Repr

namespace Reported

/-- The results in order, with all causes in order. -/
def all {α : Type} (rs : List (Reported α)) : Reported (List α) :=
  ⟨rs.map value, rs.flatMap causes⟩

/-- The concatenated results, with all causes in order. -/
def concat {α : Type} (rs : List (Reported (List α))) : Reported (List α) :=
  ⟨rs.flatMap value, rs.flatMap causes⟩

/-- The result, with causes that came before. -/
def since {α : Type} (earlier : List Cause) (r : Reported α) : Reported α :=
  { r with causes := earlier ++ r.causes }

/-- The result changed, the causes kept. -/
def map {α β : Type} (f : α → β) (r : Reported α) : Reported β := ⟨f r.value, r.causes⟩

end Reported

end ClassOutline
