/-
  ClassOutline.Event.Basic
  ────────────────────────────────
  **THE STRUCTURE OF A SOURCE AS A STREAM OF EVENTS.**

  Classes and methods begin and end; between beginning and end stand the
  assignments and docstrings that belong to them.  Values are still text.  A
  statement that says nothing about classes is an event too, with the reason
  why it is passed over, so no statement is lost.
-/
import ClassOutline.Statement.Parameter

namespace ClassOutline

/-! ## §1. Why a statement is passed over. -/

/-- Why a statement says nothing about classes. -/
inductive IgnoreReason where
  /-- A bare call, also of a method. -/
  | call
  /-- `pass`, `return`, `import` and their like. -/
  | simpleStatement
  /-- An expression evaluated for its effect. -/
  | expression
  /-- The header of a control-flow block. -/
  | controlFlow
  /-- A name with a type and no value. -/
  | annotationOnly
  /-- An assignment such as `x += 1`. -/
  | augmentedAssignment
  /-- An assignment to something other than a name or an attribute of self. -/
  | unsupportedTarget
  /-- A local variable of the constructor. -/
  | localAssignment
  /-- An assignment in a method other than the constructor. -/
  | outsideConstructor
  /-- A function that is no method. -/
  | functionOutsideClass
  /-- A function or class inside a method. -/
  | nestedInFunction
  /-- A statement of a body that is skipped. -/
  | functionBody
  /-- A decorator that decorates no method. -/
  | decorator
  /-- A class or function header without the form of one. -/
  | malformedHeader
  /-- A text that is no statement. -/
  | unrecognized
  deriving DecidableEq, Repr

namespace IgnoreReason

/-- All reasons. -/
def all : List IgnoreReason :=
  [call, simpleStatement, expression, controlFlow, annotationOnly, augmentedAssignment,
   unsupportedTarget, localAssignment, outsideConstructor, functionOutsideClass,
   nestedInFunction, functionBody, decorator, malformedHeader, unrecognized]

/-- The words for a reason in output. -/
def label : IgnoreReason → String
  | call => "call"
  | simpleStatement => "simple-statement"
  | expression => "expression"
  | controlFlow => "control-flow"
  | annotationOnly => "annotation-only"
  | augmentedAssignment => "augmented-assignment"
  | unsupportedTarget => "unsupported-target"
  | localAssignment => "local-assignment"
  | outsideConstructor => "outside-constructor"
  | functionOutsideClass => "function-outside-class"
  | nestedInFunction => "nested-in-function"
  | functionBody => "function-body"
  | decorator => "decorator"
  | malformedHeader => "malformed-header"
  | unrecognized => "unrecognized"

/-- The identifier of a reason in data. -/
def tag : IgnoreReason → String
  | call => "call"
  | simpleStatement => "simple_statement"
  | expression => "expression"
  | controlFlow => "control_flow"
  | annotationOnly => "annotation_only"
  | augmentedAssignment => "augmented_assignment"
  | unsupportedTarget => "unsupported_target"
  | localAssignment => "local_assignment"
  | outsideConstructor => "outside_constructor"
  | functionOutsideClass => "function_outside_class"
  | nestedInFunction => "nested_in_function"
  | functionBody => "function_body"
  | decorator => "decorator"
  | malformedHeader => "malformed_header"
  | unrecognized => "unrecognized"

end IgnoreReason

/-! ## §2. Events. -/

/-- The header of a class. -/
structure ClassStart where
  /-- The name, with those of the enclosing classes before it. -/
  name : Text
  bases : List Text
  /-- The comment above the header or its decorators. -/
  comment : Option Text
  line : Nat
  deriving DecidableEq, Repr

/-- The header of a method. -/
structure MethodStart where
  name : Text
  parameters : List WrittenParameter
  /-- The decorators above the header, in order. -/
  decorators : List Text
  isAsync : Bool
  /-- The comment above the header or its decorators. -/
  comment : Option Text
  line : Nat
  deriving DecidableEq, Repr

/-- The assignment of a value to an attribute. -/
structure AttributeAssignment where
  name : Text
  annotation : Option Text
  value : Text
  line : Nat
  deriving DecidableEq, Repr

/-- What a statement, or the end of a scope, says about the classes of a source. -/
inductive Event where
  | classStart (start : ClassStart)
  | classEnd (name : Text)
  | methodStart (start : MethodStart)
  /-- The end of a method, with the text of its body. -/
  | methodEnd (name source : Text)
  /-- An assignment in the body of a class. -/
  | classAssignment (written : AttributeAssignment)
  /-- An assignment through self in the constructor. -/
  | selfAssignment (written : AttributeAssignment)
  | moduleAssignment (name value : Text) (line : Nat)
  | decorator (name : Text) (line : Nat)
  | docstring (text : Text) (line : Nat)
  | ignored (reason : IgnoreReason) (line : Nat)
  deriving DecidableEq, Repr

end ClassOutline
