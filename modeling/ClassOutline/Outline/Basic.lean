/-
  ClassOutline.Outline.Basic
  ────────────────────────────────
  **THE OUTLINE OF A SOURCE: ITS CLASSES AND THEIR MEMBERS.**

  Members stand in source order, every occurrence of a name included; a look-up
  by name finds the last.  The types leave open what an attribute or a default
  holds (`α`): first an initializer, and a `Value` once names are looked up.
-/
import ClassOutline.Diagnostic
import ClassOutline.Statement.Parameter
import ClassOutline.Value.Basic

namespace ClassOutline

/-! ## §1. Visibility. -/

/-- Who a member is meant for. -/
inductive Visibility where
  /-- Everyone: no leading underscore. -/
  | publicMember
  /-- Subclasses: one leading underscore. -/
  | protectedMember
  /-- The class alone: two leading underscores. -/
  | privateMember
  deriving DecidableEq, Repr

namespace Visibility

/-- All visibilities. -/
def all : List Visibility := [publicMember, protectedMember, privateMember]

/-- The word for a visibility, in data and in output. -/
def label : Visibility → String
  | publicMember => "public"
  | protectedMember => "protected"
  | privateMember => "private"

/-- The visibility a name shows by its underscores.  A name with two on either side and
something between them is the language's own, and public. -/
def ofName (name : Text) : Visibility :=
  if name.startsWith ['_', '_'] then
    if 4 < name.length ∧ name.endsWith ['_', '_'] then publicMember else privateMember
  else if name.startsWith ['_'] then protectedMember
  else publicMember

end Visibility

/-! ## §2. Members and classes. -/

/-- An attribute and what it is given. -/
structure Attribute (α : Type) where
  name : Text
  value : α
  annotation : Option Text
  visibility : Visibility
  line : Nat
  deriving Repr

/-- A parameter and its default. -/
structure Parameter (α : Type) where
  name : Text
  kind : ParameterKind
  annotation : Option Text
  default : Option α
  deriving Repr

/-- A method.  The implicit first parameter is not among its parameters. -/
structure Method (α : Type) where
  name : Text
  parameters : List (Parameter α)
  visibility : Visibility
  decorators : List Text
  isStatic : Bool
  isClassMethod : Bool
  isConstructor : Bool
  /-- The docstring, or the comment above the header. -/
  doc : Option Text
  /-- The text of the body. -/
  source : Text
  line : Nat
  deriving Repr

/-- A class.  Its name has those of the enclosing classes before it. -/
structure Class (α : Type) where
  name : Text
  bases : List Text
  classAttributes : List (Attribute α)
  instanceAttributes : List (Attribute α)
  methods : List (Method α)
  /-- The docstring, or the comment above the header. -/
  doc : Option Text
  line : Nat
  deriving Repr

/-- The outline of one source, and what was odd about it, by line. -/
structure UnitOutline where
  unit : Text
  encoding : Option Text
  classes : List (Class Value)
  diagnostics : List Diagnostic
  deriving Repr

/-! ## §3. Changing what members hold. -/

variable {α β : Type}

/-- The attribute with what it holds changed. -/
def Attribute.map (f : α → β) (a : Attribute α) : Attribute β := { a with value := f a.value }

/-- The parameter with its default changed. -/
def Parameter.map (f : α → β) (p : Parameter α) : Parameter β :=
  { p with default := p.default.map f }

/-- The method with the defaults of its parameters changed. -/
def Method.map (f : α → β) (m : Method α) : Method β :=
  { m with parameters := m.parameters.map (Parameter.map f) }

/-- The class with what its members hold changed. -/
def Class.map (f : α → β) (c : Class α) : Class β :=
  { c with
    classAttributes := c.classAttributes.map (Attribute.map f)
    instanceAttributes := c.instanceAttributes.map (Attribute.map f)
    methods := c.methods.map (Method.map f) }

/-! ## §4. Look-ups. -/

/-- The last element that satisfies `p`. -/
def findLast? (p : α → Bool) (xs : List α) : Option α := xs.reverse.find? p

namespace Method

/-- The last parameter of a name. -/
def parameter? (m : Method α) (name : Text) : Option (Parameter α) :=
  findLast? (fun p => p.name = name) m.parameters

/-- The names of the parameters in order. -/
def parameterNames (m : Method α) : List Text := m.parameters.map Parameter.name

end Method

namespace Class

/-- The last class attribute of a name. -/
def classAttribute? (c : Class α) (name : Text) : Option (Attribute α) :=
  findLast? (fun a => a.name = name) c.classAttributes

/-- The last instance attribute of a name. -/
def instanceAttribute? (c : Class α) (name : Text) : Option (Attribute α) :=
  findLast? (fun a => a.name = name) c.instanceAttributes

/-- The last method of a name. -/
def method? (c : Class α) (name : Text) : Option (Method α) :=
  findLast? (fun m => m.name = name) c.methods

/-- The last constructor. -/
def constructor? (c : Class α) : Option (Method α) := findLast? Method.isConstructor c.methods

end Class

namespace UnitOutline

/-- The class of a qualified name. -/
def class? (u : UnitOutline) (name : Text) : Option (Class Value) :=
  u.classes.find? fun c => c.name = name

/-- The names of the classes in order. -/
def classNames (u : UnitOutline) : List Text := u.classes.map Class.name

end UnitOutline

end ClassOutline
