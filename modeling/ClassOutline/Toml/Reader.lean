/-
  ClassOutline.Toml.Reader
  ────────────────────────────────
  **READING A TEXT FROM ITS FRONT.**

  A reader takes something off the front of a text or fails; `<|>` goes back to
  where the first reader began.  `many` repeats a reader as long as it takes
  something, so every reader ends.
-/
import ClassOutline.Text.Basic

namespace ClassOutline.Toml

/-- Take something off the front of a text, or fail. -/
abbrev Reader := StateT Text Option

namespace Reader

/-! ## §1. Characters. -/

/-- One character that satisfies `p`. -/
def satisfy (p : Char → Bool) : Reader Char
  | c :: rest => if p c then some (c, rest) else none
  | [] => none

/-- The character `c`. -/
def char (c : Char) : Reader Char := satisfy (· == c)

/-- The characters of `s`. -/
def string (s : String) : Reader Unit := fun t =>
  (t.after? s.toList).map fun rest => ((), rest)

/-- All characters up to the first that does not satisfy `p`. -/
def takeWhile (p : Char → Bool) : Reader Text := fun t => some (t.takeWhile p, t.dropWhile p)

/-- One or more characters that satisfy `p`, and all of them. -/
def takeWhile1 (p : Char → Bool) : Reader Text := do
  let first ← satisfy p
  return first :: (← takeWhile p)

/-- Exactly `n` characters that satisfy `p`. -/
def exactly (p : Char → Bool) : Nat → Reader Text
  | 0 => pure []
  | n + 1 => do
    let first ← satisfy p
    return first :: (← exactly p n)

/-- The end of the text. -/
def atEnd : Reader Unit := fun t => if t.isEmpty then some ((), []) else none

/-- The text ahead begins with `s`. -/
def lookingAt (s : String) : Reader Bool := fun t => some (t.startsWith s.toList, t)

/-! ## §2. Repetition. -/

/-- `item` as often as it takes something. -/
def many {α : Type} (item : Reader α) : Reader (List α) := fun t => some (go t)
where
  go (t : Text) : List α × Text :=
    match item t with
    | none => ([], t)
    | some (a, rest) =>
      if rest.length < t.length then
        let (as, after) := go rest
        (a :: as, after)
      else ([], t)
  termination_by t.length

/-- One or more `item`s with `separator` between them. -/
def sepBy1 {α β : Type} (item : Reader α) (separator : Reader β) : Reader (List α) := do
  let first ← item
  return first :: (← many (separator *> item))

/-- What `item` reads, where nothing follows it. -/
def run {α : Type} (item : Reader α) (t : Text) : Option α :=
  match item t with
  | some (a, []) => some a
  | _ => none

end Reader

end ClassOutline.Toml
