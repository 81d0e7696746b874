/-
  ClassOutline.Toml.Scalar
  ────────────────────────────────
  **STRINGS, NUMBERS AND DATES IN TOML.**

  Each reader follows the grammar of TOML 1.0.  A reader takes as much as its
  form allows; what may follow a value is the affair of whoever reads it, so
  `05` is a zero with something behind it that no document allows there.
-/
import ClassOutline.Initializer.Basic
import ClassOutline.Toml.Reader
import ClassOutline.Toml.Value

namespace ClassOutline.Toml

open Reader

/-! ## §1. Blanks and line ends. -/

/-- A space or a tab. -/
def isSpace (c : Char) : Bool := c == ' ' || c == '\t'

/-- No control character other than the tab. -/
def isPrintable (c : Char) : Bool := c == '\t' || (32 ≤ c.toNat && c.toNat != 127)

/-- Spaces and tabs. -/
def spaces : Reader Text := takeWhile isSpace

/-- A line feed, or a carriage return with one. -/
def newline : Reader Unit := string "\n" <|> string "\r\n"

/-- A comment up to the line end. -/
def comment : Reader Unit := do
  let _ ← char '#'
  let _ ← takeWhile isPrintable

/-- Spaces, tabs, comments and line ends. -/
def gaps : Reader Unit := do
  let _ ← many ((fun _ => ()) <$> takeWhile1 isSpace <|> comment *> newline <|> newline)

/-! ## §2. Strings. -/

/-- A character from its code point in hexadecimal digits, if it is one. -/
def scalar? (digits : Text) : Option Char :=
  let n := digits.foldl (fun n c => 16 * n + hexDigit c) 0
  if h : n.isValidChar then some (Char.ofNatAux n h) else none
where
  hexDigit (c : Char) : Nat :=
    if c.toNat ≤ '9'.toNat then c.toNat - '0'.toNat
    else if c.toNat ≤ 'F'.toNat then c.toNat - 'A'.toNat + 10
    else c.toNat - 'a'.toNat + 10

/-- A hexadecimal digit. -/
def isHexDigit (c : Char) : Bool :=
  Text.isDigit c || ('a' ≤ c && c ≤ 'f') || ('A' ≤ c && c ≤ 'F')

/-- The character that a backslash and what follows it stand for. -/
def escape : Reader Char := do
  let _ ← char '\\'
  match ← satisfy fun _ => true with
  | 'b' => return '\x08'
  | 'f' => return '\x0c'
  | 'n' => return '\n'
  | 'r' => return '\r'
  | 't' => return '\t'
  | '"' => return '"'
  | '\\' => return '\\'
  | 'u' => liftM (scalar? (← exactly isHexDigit 4))
  | 'U' => liftM (scalar? (← exactly isHexDigit 8))
  | _ => failure

/-- A backslash at a line end, with all blanks and line ends behind it. -/
def lineEndEscape : Reader Unit := do
  let _ ← char '\\'
  let _ ← spaces
  newline
  let _ ← many ((fun _ => ()) <$> takeWhile1 isSpace <|> newline)

/-- A string between double quotes. -/
def basicString : Reader Text := do
  let _ ← char '"'
  let contents ← many (satisfy (fun c => isPrintable c && c != '"' && c != '\\') <|> escape)
  let _ ← char '"'
  return contents

/-- A string between single quotes, without escapes. -/
def literalString : Reader Text := do
  let _ ← char '\''
  let contents ← takeWhile fun c => isPrintable c && c != '\''
  let _ ← char '\''
  return contents

/-- One or two quotes inside a string between triple ones: as many as stand together, or as
many as leave three to end the string. -/
def innerQuotes (quote : Char) : Reader Text := fun t =>
  let run := (t.takeWhile (· == quote)).length
  if run = 0 then none
  else if run ≤ 2 then some (t.take run, t.drop run)
  else if run ≤ 5 ∧ 3 < run then some (t.take (run - 3), t.drop (run - 3))
  else none

/-- A string between triple quotes, made of `parts` and quotes that do not end it.  A line
end right behind the opening quotes does not count. -/
def tripleString (quote : Char) (parts : Reader Text) : Reader Text := do
  let delimiter := exactly (· == quote) 3
  let _ ← delimiter
  let _ ← optional newline
  let contents ← many (parts <|> innerQuotes quote)
  let _ ← delimiter
  return contents.flatten

/-- A string of several lines between triple double quotes. -/
def tripleBasicString : Reader Text :=
  tripleString '"'
    (takeWhile1 (fun c => isPrintable c && c != '"' && c != '\\')
      <|> (fun _ => []) <$> lineEndEscape
      <|> (fun c => [c]) <$> escape
      <|> (fun _ => ['\n']) <$> newline)

/-- A string of several lines between triple single quotes. -/
def tripleLiteralString : Reader Text :=
  tripleString '\''
    (takeWhile1 (fun c => isPrintable c && c != '\'') <|> (fun _ => ['\n']) <$> newline)

/-- A string of any form. -/
def anyString : Reader Text :=
  tripleBasicString <|> basicString <|> tripleLiteralString <|> literalString

/-! ## §3. Keys. -/

/-- A character of a key without quotes. -/
def isKeyChar (c : Char) : Bool := Text.isAsciiLetter c || Text.isDigit c || c == '-' || c == '_'

/-- One part of a key. -/
def simpleKey : Reader Text := basicString <|> literalString <|> takeWhile1 isKeyChar

/-- How deep values and keys may be nested. -/
def depthLimit : Nat := 80

/-- A key of one or more parts with dots between them; blanks may stand around each. -/
def key : Reader (List Text) := do
  let parts ← sepBy1 (spaces *> simpleKey <* spaces) (char '.')
  if parts.length < depthLimit then return parts else failure

/-! ## §4. Numbers. -/

/-- One or more digits; single underscores may stand between two of them and are left out. -/
def digitRun (p : Char → Bool) : Reader Text := do
  let first ← satisfy p
  return first :: (← many (satisfy p <|> char '_' *> satisfy p))

/-- A sign, `true` for a minus. -/
def sign : Reader Bool := do
  match ← optional (char '-' <|> char '+') with
  | some '-' => return true
  | _ => return false

/-- Decimal digits of which the first is no zero, or a single zero. -/
def wholeDigits : Reader Text := do
  let first ← satisfy Text.isDigit
  if first = '0' then return ['0']
  else return first :: (← many (satisfy Text.isDigit <|> char '_' *> satisfy Text.isDigit))

/-- The value of digits in a base. -/
def valueIn (base : Nat) (digits : Text) : Nat :=
  digits.foldl (fun n c => base * n + scalar?.hexDigit c) 0

/-- An integer that fits 64 bits. -/
def fitting (n : Int) : Reader Value :=
  if -0x8000000000000000 ≤ n ∧ n < 0x8000000000000000 then pure (.integer n) else failure

/-- An integer in a base other than ten, behind its mark. -/
def basedInteger (mark : String) (base : Nat) (p : Char → Bool) : Reader Value := do
  string mark
  fitting (valueIn base (← digitRun p))

/-- A decimal integer. -/
def decimalInteger : Reader Value := do
  let negative ← sign
  let n : Int := valueIn 10 (← wholeDigits)
  fitting (if negative then -n else n)

/-- An integer. -/
def integer : Reader Value :=
  basedInteger "0x" 16 isHexDigit
    <|> basedInteger "0o" 8 (fun c => '0' ≤ c && c ≤ '7')
    <|> basedInteger "0b" 2 (fun c => c == '0' || c == '1')
    <|> decimalInteger

/-- The number `± digits · 10^scale`.  Far outside the range of numbers it is infinite or
zero, and the power is not computed. -/
def floatOf (negative : Bool) (digits : Text) (scale : Int) : Binary64 :=
  let n := valueIn 10 digits
  let magnitude := (digits.length : Int) + scale
  if n = 0 ∨ magnitude < -400 then .ofMagnitude negative 0
  else if 400 < scale then .ofMagnitude negative Binary64.infinityBits
  else .ofDecimal negative n scale

/-- The exponent of a float. -/
def exponent : Reader Int := do
  let _ ← char 'e' <|> char 'E'
  let negative ← sign
  let n : Int := valueIn 10 (← digitRun Text.isDigit)
  return if negative then -n else n

/-- A float with a fraction, an exponent or both.  One too large for any finite number is
refused; one too far below zero is negative infinity. -/
def finiteFloat : Reader Value := do
  let negative ← sign
  let whole ← wholeDigits
  let fraction ← optional (char '.' *> digitRun Text.isDigit)
  let power ← optional exponent
  if fraction.isNone ∧ power.isNone then failure
  let fractionDigits := fraction.getD []
  let x := floatOf negative (whole ++ fractionDigits)
    (power.getD 0 - (fractionDigits.length : Int))
  if x.isInfinite ∧ !negative then failure else return .float x

/-- Infinity or no number. -/
def specialFloat : Reader Value := do
  let negative ← sign
  (do string "inf"; return .float (.ofMagnitude negative Binary64.infinityBits))
    <|> (do string "nan"; return .float (.ofMagnitude negative (Binary64.infinityBits + Nat.pow 2 51)))

/-! ## §5. Dates and times. -/

/-- A number of `n` digits between two bounds. -/
def bounded (n low high : Nat) : Reader Nat := do
  let value := valueIn 10 (← exactly Text.isDigit n)
  if low ≤ value ∧ value ≤ high then return value else failure

/-- The number of days of a month. -/
def daysOf (year month : Nat) : Nat :=
  if month = 2 then
    if year % 4 = 0 ∧ (year % 100 ≠ 0 ∨ year % 400 = 0) then 29 else 28
  else if month ∈ [4, 6, 9, 11] then 30
  else 31

/-- A day of the calendar. -/
def date : Reader Unit := do
  let year ← bounded 4 0 9999
  let _ ← char '-'
  let month ← bounded 2 1 12
  let _ ← char '-'
  let _ ← bounded 2 1 (daysOf year month)

/-- A time of day with seconds; a leap second may be the sixtieth. -/
def time : Reader Unit := do
  let _ ← bounded 2 0 23
  let _ ← char ':'
  let _ ← bounded 2 0 59
  let _ ← char ':'
  let _ ← bounded 2 0 60
  let _ ← optional (char '.' *> takeWhile1 Text.isDigit)

/-- The distance from universal time. -/
def offset : Reader Unit :=
  (do let _ ← char 'Z' <|> char 'z')
    <|> (do
      let _ ← char '+' <|> char '-'
      let _ ← bounded 2 0 23
      let _ ← char ':'
      let _ ← bounded 2 0 59)

/-- A date, a time, or both with or without an offset. -/
def dateTime : Reader Value := fun t =>
  let written := (do
      date
      let _ ← optional (do
        let _ ← char 'T' <|> char 't' <|> char ' '
        time
        let _ ← optional offset)) <|> time
  (written t).map fun (_, rest) => (.dateTime (t.take (t.length - rest.length)), rest)

/-! ## §6. Values without parts. -/

/-- A string, a truth value, a date or a number. -/
def scalarValue : Reader Value :=
  Value.string <$> anyString
    <|> (do string "true"; return .boolean true)
    <|> (do string "false"; return .boolean false)
    <|> dateTime <|> finiteFloat <|> specialFloat <|> integer

end ClassOutline.Toml
