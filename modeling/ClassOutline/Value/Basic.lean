/-
  ClassOutline.Value.Basic
  ────────────────────────────────
  **THE VALUES THAT ATTRIBUTES AND DEFAULTS ARE GIVEN.**

  A value is a literal, a container of values, a reference to a class of the
  same source, or a dotted path that leads out of it.  What has no known form
  is kept as written.  Empty containers are values of their own: an empty
  list says nothing about the type of its elements.
-/
import ClassOutline.Number.Shortest

namespace ClassOutline

/-- A typed initial value. -/
inductive Value where
  | bool (b : Bool)
  | int (n : Int)
  | float (x : Binary64)
  /-- A string, its escapes as written. -/
  | string (s : Text)
  /-- The literal `None`. -/
  | nothing
  | emptyList
  | list (items : List Value)
  | emptyDict
  | dict (entries : List (Value × Value))
  | emptyTuple
  | tuple (items : List Value)
  /-- A class of the source, named or reached through a binding. -/
  | classReference (name : Text)
  /-- A call of a class of the source. -/
  | construction (name : Text) (args : List Value)
  /-- A dotted path whose root is not defined in the source. -/
  | external (path : List Text)
  /-- An expression of no known form. -/
  | unrecognized (text : Text)
  deriving Repr

namespace Value

/-- The type of an attribute that holds the value: a reference has the class or path it
names, and what tells nothing is an object. -/
def typeName : Value → Text
  | bool _ => "bool".toList
  | int _ => "int".toList
  | float _ => "float".toList
  | string _ => "string".toList
  | emptyList | list _ => "list".toList
  | emptyDict | dict _ => "dict".toList
  | emptyTuple | tuple _ => "tuple".toList
  | classReference name | construction name _ => name
  | external path => Text.join "." path
  | nothing | unrecognized _ => "object".toList

/-- A list, dict or tuple, empty or not. -/
def isContainer : Value → Bool
  | emptyList | list _ | emptyDict | dict _ | emptyTuple | tuple _ => true
  | _ => false

/-- The class a value refers to. -/
def referredClass? : Value → Option Text
  | classReference name | construction name _ => some name
  | _ => none

/-! ## §1. Unrecognized parts. -/

mutual

/-- The value or some value inside it is unrecognized. -/
def containsUnrecognized : Value → Bool
  | unrecognized _ => true
  | list items | tuple items | construction _ items => anyUnrecognized items
  | dict entries => anyEntryUnrecognized entries
  | _ => false

/-- Some of the values contains an unrecognized one. -/
def anyUnrecognized : List Value → Bool
  | [] => false
  | v :: vs => v.containsUnrecognized || anyUnrecognized vs

/-- Some key or value of the entries contains an unrecognized one. -/
def anyEntryUnrecognized : List (Value × Value) → Bool
  | [] => false
  | (k, v) :: rest =>
    k.containsUnrecognized || v.containsUnrecognized || anyEntryUnrecognized rest

end

/-! ## §2. The written form. -/

mutual

/-- The value as a Python initializer. -/
def display : Value → Text
  | bool true => "True".toList
  | bool false => "False".toList
  | int n => Text.ofInt n
  | float x => x.display
  | string s => '\'' :: s ++ ['\'']
  | nothing => "None".toList
  | emptyList => "[]".toList
  | list items => '[' :: Text.join ", " (displayAll items) ++ [']']
  | emptyDict => ['{', '}']
  | dict entries => '{' :: Text.join ", " (displayEntries entries) ++ ['}']
  | emptyTuple => "()".toList
  | tuple [item] => '(' :: display item ++ ",)".toList
  | tuple items => '(' :: Text.join ", " (displayAll items) ++ [')']
  | classReference name => name
  | construction name args => name ++ '(' :: Text.join ", " (displayAll args) ++ [')']
  | external path => Text.join "." path
  | unrecognized text => text

/-- The written forms of values. -/
def displayAll : List Value → List Text
  | [] => []
  | v :: vs => v.display :: displayAll vs

/-- The written forms of dict entries. -/
def displayEntries : List (Value × Value) → List Text
  | [] => []
  | (k, v) :: rest => (k.display ++ ": ".toList ++ v.display) :: displayEntries rest

end

end Value

end ClassOutline
