/-
  ClassOutline.Nesting.Lexeme
  ────────────────────────────────
  **THE LEXICAL UNITS OF A TEXT, AND CUTS AT TOP LEVEL.**

  `Text.lexemes` reads a text from a closed nesting into its units, each with
  the nesting before it.  A unit is at top level when nothing is open before
  it: an opening bracket or quote is, what it encloses and its closer are not.
  Nothing is lost: the units concatenate to the text (`concat_lexemes`).

  All cuts work on the units: `breakTopLevel?` at the first top-level character
  of a kind, `splitTopLevel` at every top-level separator, `leadingGroup?`
  behind the first group, `enclosure` around a group that is the whole text.
-/
import ClassOutline.Nesting.Basic

namespace ClassOutline

/-! ## §1. Lexical units. -/

/-- One lexical unit and the nesting before it. -/
structure Lexeme where
  head : Char
  tail : Text
  before : Nesting
  deriving DecidableEq, Repr

namespace Lexeme

/-- The characters of the unit. -/
def text (l : Lexeme) : Text := l.head :: l.tail

/-- Nothing is open before the unit. -/
def isTopLevel (l : Lexeme) : Bool := l.before.isTopLevel

/-- The unit is at top level and its first character satisfies `p`. -/
def matchesTop (p : Char → Bool) (l : Lexeme) : Bool := l.isTopLevel && p l.head

/-- The characters of a list of units. -/
def concat (ls : List Lexeme) : Text := ls.flatMap text

/-- The units with the byte offset of each, the first one at `start`. -/
def located (start : Nat) : List Lexeme → List (Nat × Lexeme)
  | [] => []
  | l :: ls => (start, l) :: located (start + l.text.byteLength) ls

@[simp] theorem concat_nil : concat [] = [] := rfl

@[simp] theorem concat_cons (l : Lexeme) (ls : List Lexeme) :
    concat (l :: ls) = l.head :: (l.tail ++ concat ls) := rfl

end Lexeme

/-- The units of a text that begins inside `n`. -/
def Nesting.lexemes (n : Nesting) : Text → List Lexeme
  | [] => []
  | c :: rest =>
    ⟨c, rest.take (n.advance c rest).2, n⟩
      :: Nesting.lexemes (n.advance c rest).1 (rest.drop (n.advance c rest).2)
termination_by t => t.length
decreasing_by simp only [List.length_drop, List.length_cons]; omega

/-- The units of a text of its own. -/
def Text.lexemes (t : Text) : List Lexeme := Nesting.closed.lexemes t

/-- The units concatenate to the text. -/
theorem Nesting.concat_lexemes (n : Nesting) (t : Text) : Lexeme.concat (n.lexemes t) = t := by
  fun_induction Nesting.lexemes n t with
  | case1 => rfl
  | case2 n c rest ih => rw [Lexeme.concat_cons, ih, List.take_append_drop]

theorem Text.concat_lexemes (t : Text) : Lexeme.concat t.lexemes = t :=
  Nesting.concat_lexemes _ t

namespace Text

/-! ## §2. The first top-level character of a kind. -/

/-- What stands before a character, the character, and what stands after it. -/
structure Break where
  before : Text
  char : Char
  after : Text
  deriving DecidableEq, Repr

/-- The first of the units at top level whose character satisfies `p`. -/
def breakUnits? (p : Char → Bool) : List Lexeme → Option Break
  | [] => none
  | l :: ls =>
    if l.matchesTop p then some ⟨[], l.head, l.tail ++ Lexeme.concat ls⟩
    else (breakUnits? p ls).map fun b => { b with before := l.text ++ b.before }

/-- The first top-level character of `t` that satisfies `p`. -/
def breakTopLevel? (p : Char → Bool) (t : Text) : Option Break := breakUnits? p t.lexemes

/-- Some top-level character of `t` is `c`. -/
def hasTopLevel (c : Char) (t : Text) : Bool := t.lexemes.any fun l => l.matchesTop (· == c)

/-- The byte offsets of the top-level characters that satisfy `p`. -/
def topLevelOffsets (p : Char → Bool) (t : Text) : List Nat :=
  ((Lexeme.located 0 t.lexemes).filter fun (_, l) => l.matchesTop p).map Prod.fst

/-- A break divides the text. -/
theorem concat_of_breakUnits? {p : Char → Bool} {ls : List Lexeme} {b : Break}
    (h : breakUnits? p ls = some b) : Lexeme.concat ls = b.before ++ b.char :: b.after := by
  induction ls generalizing b with
  | nil => simp [breakUnits?] at h
  | cons l ls ih =>
    simp only [breakUnits?] at h
    split at h
    · obtain rfl := Option.some.inj h
      rfl
    · obtain ⟨b', hb, rfl⟩ := Option.map_eq_some_iff.1 h
      rw [Lexeme.concat_cons, ih hb, Lexeme.text]
      simp

/-- The character of a break is one that was looked for. -/
theorem char_of_breakUnits? {p : Char → Bool} {ls : List Lexeme} {b : Break}
    (h : breakUnits? p ls = some b) : p b.char = true := by
  induction ls generalizing b with
  | nil => simp [breakUnits?] at h
  | cons l ls ih =>
    simp only [breakUnits?] at h
    split at h
    · next found =>
      obtain rfl := Option.some.inj h
      exact (Bool.and_eq_true_iff.1 found).2
    · obtain ⟨b', hb, rfl⟩ := Option.map_eq_some_iff.1 h
      exact (ih hb : p b'.char = true)

theorem eq_of_breakTopLevel? {p : Char → Bool} {t : Text} {b : Break}
    (h : breakTopLevel? p t = some b) : t = b.before ++ b.char :: b.after := by
  rw [← concat_lexemes t]; exact concat_of_breakUnits? h

/-! ## §3. All top-level separators. -/

/-- The pieces between the top-level `sep`s, untrimmed: the first piece and the others. -/
def cutUnits (sep : Char) : List Lexeme → Text × List Text
  | [] => ([], [])
  | l :: ls =>
    if l.matchesTop (· == sep) then
      ([], (l.tail ++ (cutUnits sep ls).1) :: (cutUnits sep ls).2)
    else (l.text ++ (cutUnits sep ls).1, (cutUnits sep ls).2)

/-- The trimmed pieces of `t` between its top-level `sep`s.  Empty pieces are kept, so there
is one piece more than there are separators. -/
def splitTopLevel (sep : Char) (t : Text) : List Text :=
  ((cutUnits sep t.lexemes).1 :: (cutUnits sep t.lexemes).2).map trim

/-- The pieces of `t` between top-level commas that are not empty. -/
def commaItems (t : Text) : List Text :=
  (splitTopLevel ',' t).filter fun piece => !piece.isEmpty

/-- The separators and the pieces between them make up the length of the text. -/
theorem length_cutUnits (sep : Char) (ls : List Lexeme) :
    (cutUnits sep ls).1.length + (cutUnits sep ls).2.flatten.length + (cutUnits sep ls).2.length
      = (Lexeme.concat ls).length := by
  induction ls with
  | nil => rfl
  | cons l ls ih =>
    simp only [cutUnits, Lexeme.concat_cons, Lexeme.text]
    split <;> simp only [List.length_nil, List.length_cons, List.length_append,
      List.flatten_cons] <;> omega

/-- Beside a piece the text has at least a separator for each of the others. -/
theorem length_add_le_of_mem_splitTopLevel {sep : Char} {t piece : Text}
    (hmem : piece ∈ splitTopLevel sep t) :
    piece.length + (splitTopLevel sep t).length ≤ t.length + 1 := by
  have total := length_cutUnits sep t.lexemes
  rw [concat_lexemes] at total
  simp only [splitTopLevel, List.map_cons, List.length_cons, List.length_map, List.mem_cons,
    List.mem_map] at hmem ⊢
  rcases hmem with rfl | ⟨a, ha, rfl⟩
  · have := length_trim_le (cutUnits sep t.lexemes).1
    omega
  · have := length_trim_le a
    have := (List.sublist_flatten_of_mem ha).length_le
    omega

/-- Where there is a separator, every piece is shorter than the text. -/
theorem length_lt_of_mem_splitTopLevel {sep : Char} {t piece : Text}
    (hmem : piece ∈ splitTopLevel sep t) (hlen : 1 < (splitTopLevel sep t).length) :
    piece.length < t.length := by
  have := length_add_le_of_mem_splitTopLevel hmem
  omega

/-! ## §4. Groups. -/

/-- The shortest non-empty run of units of a text begun inside `n` after which nothing is
open, with what follows it. -/
def groupFrom? (n : Nesting) : Text → Option (Text × Text)
  | [] => none
  | c :: rest =>
    if (n.advance c rest).1.isTopLevel then
      some (c :: rest.take (n.advance c rest).2, rest.drop (n.advance c rest).2)
    else
      (groupFrom? (n.advance c rest).1 (rest.drop (n.advance c rest).2)).map
        fun (group, after) => (c :: rest.take (n.advance c rest).2 ++ group, after)
termination_by t => t.length
decreasing_by simp only [List.length_drop, List.length_cons]; omega

/-- The bracket group or string that starts `t`, with what follows it; nothing if it never
closes. -/
def leadingGroup? (t : Text) : Option (Text × Text) := groupFrom? .closed t

theorem eq_of_groupFrom? {n : Nesting} {t group after : Text}
    (h : groupFrom? n t = some (group, after)) : t = group ++ after := by
  fun_induction groupFrom? n t generalizing group with
  | case1 => simp at h
  | case2 n c rest _ =>
    simp only [Option.some.injEq, Prod.mk.injEq] at h
    obtain ⟨rfl, rfl⟩ := h
    simp
  | case3 n c rest _ ih =>
    obtain ⟨⟨g, a⟩, hg, heq⟩ := Option.map_eq_some_iff.1 h
    simp only [Prod.mk.injEq] at heq
    obtain ⟨rfl, rfl⟩ := heq
    simp only [List.cons_append, List.append_assoc, ← ih hg, List.take_append_drop]

/-- A group and what follows it are the text. -/
theorem eq_of_leadingGroup? {t group after : Text} (h : leadingGroup? t = some (group, after)) :
    t = group ++ after := eq_of_groupFrom? h

/-- How a text stands to a pair of delimiters. -/
inductive Enclosure where
  /-- The text is not one group between the delimiters. -/
  | outside
  /-- The text is the opening delimiter, `inner`, and the closing delimiter. -/
  | around (inner : Text)
  /-- The text is one character of several bytes, taken for both delimiters at once. -/
  | overlapping
  deriving DecidableEq, Repr

/-- Whether `t` is one group that `opener` starts and `closer` ends.  `(1)+(2)` is not, for
its first group closes before the end; nor is a text of a single byte. -/
def enclosure (opener closer : Char) (t : Text) : Enclosure :=
  if t.head? = some opener ∧ t.getLast? = some closer ∧ 2 ≤ t.byteLength then
    match leadingGroup? t, t with
    | some (_, []), [_] => .overlapping
    | some (_, []), _ :: inner => .around inner.dropLast
    | _, _ => .outside
  else .outside

/-- The text between the delimiters, if they enclose all of `t`. -/
def enclosed? (opener closer : Char) (t : Text) : Option Text :=
  match enclosure opener closer t with
  | .around inner => some inner
  | _ => none

end Text

end ClassOutline
