/-
  ClassOutline.Nesting.Atom
  ────────────────────────────────
  **ATOMS, AND ITEMS WRITTEN WITHOUT A SEPARATOR.**

  An atom is a maximal run of units that are not top-level blanks, so groups
  and strings belong to the atom they stand in.  `Text.atomized` keeps the
  blanks too: the gap before each atom and what trails the last one, so
  nothing of the text is lost.

  `Text.adjacentItems` puts atoms together again into items.  Two neighbours
  belong to one item if an operator or a connecting keyword joins them, or if
  both are string literals; `a + b` is one item, `1 2` is two with their comma
  missing.
-/
import ClassOutline.Nesting.Lexeme
import ClassOutline.Text.Name

namespace ClassOutline

/-! ## §1. Atoms. -/

/-- An atom and the blanks before it. -/
structure Atom where
  gap : Text
  text : Text
  deriving DecidableEq, Repr

/-- The atoms of a text and the blanks after the last one. -/
structure Atomized where
  atoms : List Atom
  trailing : Text
  deriving DecidableEq, Repr

namespace Atomized

/-- Put one more unit in front. -/
def cons (l : Lexeme) (a : Atomized) : Atomized :=
  match l.matchesTop Text.isBlank, a.atoms with
  | true, [] => { a with trailing := l.text ++ a.trailing }
  | true, first :: others => { a with atoms := { first with gap := l.text ++ first.gap } :: others }
  | false, ⟨[], text⟩ :: others => { a with atoms := ⟨[], l.text ++ text⟩ :: others }
  | false, atoms => { a with atoms := ⟨[], l.text⟩ :: atoms }

/-- The atoms of a list of units. -/
def ofUnits (ls : List Lexeme) : Atomized := ls.foldr cons ⟨[], []⟩

/-- The byte offsets of the atoms' ends, the text beginning at `start`. -/
def spans (start : Nat) : List Atom → List (Nat × Nat)
  | [] => []
  | a :: rest =>
    let first := start + a.gap.byteLength
    (first, first + a.text.byteLength) :: spans (first + a.text.byteLength) rest

end Atomized

namespace Text

/-- The atoms of `t` with the blanks between them. -/
def atomized (t : Text) : Atomized := Atomized.ofUnits t.lexemes

/-- The texts of the atoms of `t`. -/
def atoms (t : Text) : List Text := t.atomized.atoms.map Atom.text

/-- The byte offsets where the atoms of `t` begin and end. -/
def atomSpans (t : Text) : List (Nat × Nat) := Atomized.spans 0 t.atomized.atoms

/-! ## §2. String literals as atoms. -/

/-- A letter that may stand before a string literal. -/
def isLiteralLetter (c : Char) : Bool :=
  c ∈ ['r', 'b', 'u', 'f', 'R', 'B', 'U', 'F']

/-- A text that starts with a string literal, divided into the at most two letters before
the quote and the rest from the quote on. -/
def literalParts? (t : Text) : Option (Text × Text) :=
  let letters := t.takeWhile fun c => c != '\'' && c != '"'
  let body := t.dropWhile fun c => c != '\'' && c != '"'
  if !body.isEmpty && letters.length ≤ 2 && letters.all isLiteralLetter then
    some (letters, body)
  else none

/-- `t` is exactly one string literal. -/
def isStringLiteral (t : Text) : Bool :=
  match literalParts? t with
  | none => false
  | some (_, body) => (leadingGroup? body).any fun (_, after) => after.isEmpty

/-! ## §3. Joining atoms into items. -/

/-- Keywords that continue an expression. -/
def connectingKeywords : List Text :=
  ["if".toList, "else".toList, "and".toList, "or".toList, "not".toList, "in".toList,
   "is".toList, "lambda".toList, "for".toList, "await".toList, "async".toList]

/-- Characters that, at the end of an atom, join it to the next. -/
def joinsNext (c : Char) : Bool :=
  c ∈ ['=', ':', '+', '-', '*', '/', '%', '|', '&', '^', '<', '>', '.', '@', '~', '!', ',']

/-- Characters that, at the start of an atom, join it to the one before.  The star is none of
them, so `*args` after a missing comma starts an item. -/
def joinsPrevious (c : Char) : Bool :=
  c ∈ ['=', ':', '+', '-', '/', '%', '|', '&', '^', '<', '>', '.', '@', '!', ',', ')', ']', '}']

/-- Two neighbouring atoms belong to one item. -/
def continues (previous next : Text) : Bool :=
  connectingKeywords.contains previous || connectingKeywords.contains next
    || lastIs joinsNext previous || next.head?.any joinsPrevious
    || (isStringLiteral previous && isStringLiteral next)

/-- Items made of atoms.  Each is given with the gap before it; inside it the gaps between its
atoms are kept. -/
def joinAtoms : List Atom → List Atom
  | [] => []
  | a :: rest =>
    match rest.head?, joinAtoms rest with
    | some next, item :: items =>
      if continues a.text next.text then ⟨a.gap, a.text ++ item.gap ++ item.text⟩ :: items
      else a :: item :: items
    | _, items => a :: items

/-- The items of `t`.  More than one means that a separator is missing. -/
def adjacentItems (t : Text) : List Text := (joinAtoms t.atomized.atoms).map Atom.text

end Text

end ClassOutline
