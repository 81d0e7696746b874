/-
  ClassOutline.Text.Basic
  ────────────────────────────────
  **TEXT AS A LIST OF CHARACTERS.**

  Every stage works on characters, never on positions: a function that cuts
  a text returns the parts.  Offsets and lengths are measured in UTF-8 bytes
  (`byteLength`) and only where an answer states one.  "Blank" is Unicode
  white space throughout.
-/
namespace ClassOutline

/-- A text is the list of its characters. -/
abbrev Text := List Char

namespace Text

/-! ## §1. Blanks. -/

/-- Unicode white space (the property White_Space). -/
def isBlank (c : Char) : Bool :=
  let n := c.toNat
  (9 ≤ n && n ≤ 13) || n == 32 || n == 0x85 || n == 0xa0 || n == 0x1680
    || (0x2000 ≤ n && n ≤ 0x200a) || n == 0x2028 || n == 0x2029 || n == 0x202f
    || n == 0x205f || n == 0x3000

/-- `t` without the blanks in front. -/
def trimStart (t : Text) : Text := t.dropWhile isBlank

/-- `t` without the blanks at its end. -/
def trimEnd (t : Text) : Text := (t.reverse.dropWhile isBlank).reverse

/-- `t` without the blanks at either end. -/
def trim (t : Text) : Text := trimEnd (trimStart t)

theorem length_trimStart_le (t : Text) : t.trimStart.length ≤ t.length :=
  List.IsSuffix.length_le (List.dropWhile_suffix _)

theorem length_trimEnd_le (t : Text) : t.trimEnd.length ≤ t.length := by
  have h := List.IsSuffix.length_le (List.dropWhile_suffix isBlank (l := t.reverse))
  simpa [trimEnd] using h

/-- What is taken from the end is blank. -/
theorem exists_eq_trimEnd_append (t : Text) :
    ∃ blanks, (∀ c ∈ blanks, isBlank c = true) ∧ t = t.trimEnd ++ blanks := by
  refine ⟨(t.reverse.takeWhile isBlank).reverse, fun c hc => ?_, ?_⟩
  · exact List.all_eq_true.1 List.all_takeWhile c (List.mem_reverse.1 hc)
  · unfold trimEnd
    rw [← List.reverse_append, List.takeWhile_append_dropWhile, List.reverse_reverse]

theorem length_trim_le (t : Text) : t.trim.length ≤ t.length :=
  Nat.le_trans (length_trimEnd_le _) (length_trimStart_le _)

/-- The maximal runs of characters that are not blank. -/
def words : Text → List Text
  | [] => []
  | c :: rest =>
    if isBlank c then words rest
    else match rest, words rest with
      | d :: _, w :: ws => if isBlank d then [c] :: w :: ws else (c :: w) :: ws
      | _, ws => [c] :: ws

/-- The words of `t` with one space between neighbours, so that no line break is left. -/
def squash (t : Text) : Text := [' '].intercalate (words t)

/-! ## §2. Cutting at a character. -/

/-- The texts between the occurrences of `sep`; one more than there are occurrences. -/
def fields (sep : Char) : Text → List Text
  | [] => [[]]
  | c :: rest =>
    match fields sep rest with
    | f :: fs => if c = sep then [] :: f :: fs else (c :: f) :: fs
    | [] => [[c]]

/-- `fields` at line feeds.  A carriage return before a line feed belongs to the line
break, and a text that ends in a line break has no empty line after it. -/
def lines (t : Text) : List Text := close (fields '\n' t)
where
  close : List Text → List Text
    | [] => []
    | [last] => if last.isEmpty then [] else [last]
    | l :: ls => dropReturn l :: close ls
  dropReturn (l : Text) : Text := if l.getLast? = some '\r' then l.dropLast else l

/-- What stands before the first `sep` and after it. -/
def cutAt? (sep : Char) : Text → Option (Text × Text)
  | [] => none
  | c :: rest =>
    if c = sep then some ([], rest)
    else (cutAt? sep rest).map fun (before, after) => (c :: before, after)

/-- What stands before the last `sep` and after it. -/
def cutAtLast? (sep : Char) (t : Text) : Option (Text × Text) :=
  (cutAt? sep t.reverse).map fun (after, before) => (before.reverse, after.reverse)

/-! ## §3. Measures and edges. -/

/-- Length in UTF-8. -/
def byteLength (t : Text) : Nat := t.foldr (fun c n => c.utf8Size + n) 0

/-- `t` starts with `front`. -/
def startsWith (t front : Text) : Bool := front.isPrefixOf t

/-- `t` ends with `back`. -/
def endsWith (t back : Text) : Bool := back.isSuffixOf t

/-- What follows `front` in `t`, if `t` starts with it. -/
def after? (t front : Text) : Option Text := front.isPrefixOf? t

/-- The last character of `t` satisfies `p`. -/
def lastIs (p : Char → Bool) (t : Text) : Bool := t.getLast?.any p

/-- `n` in decimal. -/
def ofNat (n : Nat) : Text := Nat.toDigits 10 n

/-- `n` in decimal, with a sign if it is negative. -/
def ofInt (n : Int) : Text := if n < 0 then '-' :: ofNat n.natAbs else ofNat n.natAbs

/-- The texts with `sep` between neighbours. -/
def join (sep : String) (ts : List Text) : Text := sep.toList.intercalate ts

end Text

end ClassOutline
