/-
  ClassOutline.Config.Basic
  ────────────────────────────────
  **THE SETTINGS OF AN EXTRACTION.**

  The defaults are Python's conventions.  Any settings can drive an
  extraction; `problem?` finds those that a configuration file may not ask for.
-/
import ClassOutline.Text.Basic

namespace ClassOutline

/-- The settings of an extraction. -/
structure Config where
  /-- The method whose assignments through self are instance attributes. -/
  constructorName : Text := "__init__".toList
  /-- The names that mark a first parameter as the implicit one. -/
  selfNames : List Text := ["self".toList, "cls".toList]
  /-- How many line ends one statement may run over. -/
  maxLineJoins : Nat := 64
  /-- The distance of tab stops, a machine word. -/
  tabWidth : UInt64 := 8
  /-- Tell the visibility of members by their leading underscores. -/
  inferVisibility : Bool := true
  deriving DecidableEq, Repr

namespace Config

/-- `name` marks a first parameter as the implicit one. -/
def isSelfName (c : Config) (name : Text) : Bool := c.selfNames.contains name

/-- Why a configuration is refused. -/
inductive Problem where
  /-- The text is no configuration. -/
  | unreadable
  | emptyConstructorName
  | zeroLineJoins
  | zeroTabWidth
  deriving DecidableEq, Repr

namespace Problem

/-- The setting a problem concerns, and what is required of it. -/
def requirement? : Problem → Option (String × String)
  | unreadable => none
  | emptyConstructorName => some ("constructor_name", "must not be empty")
  | zeroLineJoins => some ("max_line_joins", "must be at least 1")
  | zeroTabWidth => some ("tab_width", "must be at least 1")

/-- The wording of a problem with the value of a setting. -/
def message? (p : Problem) : Option String :=
  p.requirement?.map fun (field, rule) => "invalid config value for '" ++ field ++ "': " ++ rule

end Problem

/-- The first setting with a value that cannot drive an extraction. -/
def problem? (c : Config) : Option Problem :=
  if c.constructorName.trim.isEmpty then some .emptyConstructorName
  else if c.maxLineJoins = 0 then some .zeroLineJoins
  else if c.tabWidth = 0 then some .zeroTabWidth
  else none

end Config

end ClassOutline
