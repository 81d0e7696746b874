/-
  ClassOutline.Config.OfToml
  ────────────────────────────────
  **SETTINGS FROM A CONFIGURATION FILE.**

  A configuration is a TOML document.  A setting that is absent has its
  default; a setting of the wrong type is refused, and so is one that cannot
  drive an extraction.  Other keys and tables mean nothing.
-/
import ClassOutline.Config.Basic
import ClassOutline.Toml.Document

namespace ClassOutline.Config

open Toml (Document Entry)

/-- What a key of the root holds, read by `read`; `default` if it is absent, nothing if it holds
anything else. -/
def setting? {α : Type} (d : Document) (name : String) (default : α)
    (read : Toml.Value → Option α) : Option α :=
  match d.rootEntry? name with
  | none => some default
  | some (.value v) => read v
  | some _ => none

/-- The text of a string. -/
def readText : Toml.Value → Option Text
  | .string s => some s
  | _ => none

/-- The texts of an array of strings. -/
def readTexts : Toml.Value → Option (List Text)
  | .array items => items.mapM readText
  | _ => none

/-- An integer that is not negative. -/
def readNat : Toml.Value → Option Nat
  | .integer n => if 0 ≤ n then some n.toNat else none
  | _ => none

/-- A truth value. -/
def readBool : Toml.Value → Option Bool
  | .boolean b => some b
  | _ => none

/-- The settings in a document, if each has its type. -/
def ofDocument? (d : Document) : Option Config := do
  let default : Config := {}
  let constructorName ← setting? d "constructor_name" default.constructorName readText
  let selfNames ← setting? d "self_names" default.selfNames readTexts
  let maxLineJoins ← setting? d "max_line_joins" default.maxLineJoins readNat
  let tabWidth ← setting? d "tab_width" default.tabWidth.toNat readNat
  let inferVisibility ← setting? d "infer_visibility" default.inferVisibility readBool
  return { constructorName, selfNames, maxLineJoins, tabWidth := UInt64.ofNat tabWidth,
           inferVisibility }

/-- The settings that a text writes. -/
def ofToml (t : Text) : Except Problem Config :=
  match (Document.parse? t).bind ofDocument? with
  | none => .error .unreadable
  | some c =>
    match c.problem? with
    | some p => .error p
    | none => .ok c

end ClassOutline.Config
