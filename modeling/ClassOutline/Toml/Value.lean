/-
  ClassOutline.Toml.Value
  ────────────────────────────────
  **THE VALUES OF A TOML DOCUMENT.**
-/
import ClassOutline.Number.Binary64
import ClassOutline.Text.Basic

namespace ClassOutline.Toml

/-- A value behind a key. -/
inductive Value where
  | string (s : Text)
  /-- An integer of 64 bits. -/
  | integer (n : Int)
  | float (x : Binary64)
  | boolean (b : Bool)
  /-- A date, a time, or both, as written. -/
  | dateTime (written : Text)
  | array (items : List Value)
  /-- An inline table, its dotted keys with their values as written. -/
  | table (pairs : List (List Text × Value))
  deriving Repr

end ClassOutline.Toml
