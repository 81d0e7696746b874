/-
  ClassOutline.Statement.Header
  ────────────────────────────────
  **HEADERS OF CLASSES, FUNCTIONS AND BLOCKS.**

  A class or function header is a name, then optionally type parameters in
  brackets, arguments in parentheses and a result annotation, then a colon; an
  inline body may follow.  A block header is a control-flow keyword with its
  condition and a colon.
-/
import ClassOutline.Nesting.Assignment
import ClassOutline.Text.Name

namespace ClassOutline

/-- A class or function header behind its keyword. -/
structure Header where
  name : Text
  /-- What stands between the parentheses, if there are any. -/
  arguments : Option Text
  /-- What follows the colon, trimmed. -/
  body : Text
  deriving DecidableEq, Repr

namespace Text

/-! ## §1. Class and function headers. -/

/-- `t` without the group it starts with, if it starts with `opener`; nothing if that group
does not close. -/
def skipGroup? (opener : Char) (t : Text) : Option Text :=
  if t.head? = some opener then (leadingGroup? t).map fun (_, after) => trimStart after
  else some t

/-- The inside of the parentheses that start `t`, if they do, and what follows. -/
def argumentGroup? (t : Text) : Option (Option Text × Text) :=
  if t.head? = some '(' then
    (leadingGroup? t).map fun (group, after) => (some (group.drop 1).dropLast, trimStart after)
  else some (none, t)

/-- `t` without a result annotation in front; nothing if no colon ends the annotation. -/
def skipResult? (t : Text) : Option Text :=
  if t.startsWith ['-', '>'] then
    (t.breakTopLevel? (· == ':')).map fun b => b.char :: b.after
  else some t

/-- The header that follows a keyword. -/
def header? (t : Text) : Option Header := do
  let name := t.takeWhile isNameChar
  if isName name then
    let afterTypes ← skipGroup? '[' (trimStart (t.dropWhile isNameChar))
    let (arguments, afterArguments) ← argumentGroup? afterTypes
    match ← skipResult? afterArguments with
    | ':' :: body => some ⟨name, arguments, trim body⟩
    | _ => none
  else none

theorem length_skipGroup?_le {opener : Char} {t rest : Text}
    (h : skipGroup? opener t = some rest) : rest.length ≤ t.length := by
  unfold skipGroup? at h
  split at h
  · obtain ⟨⟨group, after⟩, hg, rfl⟩ := Option.map_eq_some_iff.1 h
    have := length_trimStart_le after
    rw [eq_of_leadingGroup? hg, List.length_append]
    simp only
    omega
  · simp_all

theorem length_argumentGroup?_le {t rest : Text} {arguments : Option Text}
    (h : argumentGroup? t = some (arguments, rest)) : rest.length ≤ t.length := by
  unfold argumentGroup? at h
  split at h
  · obtain ⟨⟨group, after⟩, hg, heq⟩ := Option.map_eq_some_iff.1 h
    obtain ⟨-, rfl⟩ := Prod.mk.inj heq
    have := length_trimStart_le after
    rw [eq_of_leadingGroup? hg, List.length_append]
    omega
  · obtain ⟨-, rfl⟩ := Prod.mk.inj (Option.some.inj h)
    exact Nat.le_refl _

theorem length_skipResult?_le {t rest : Text} (h : skipResult? t = some rest) :
    rest.length ≤ t.length := by
  unfold skipResult? at h
  split at h
  · obtain ⟨b, hb, rfl⟩ := Option.map_eq_some_iff.1 h
    rw [eq_of_breakTopLevel? hb, List.length_append]
    omega
  · simp_all

/-- How a header is read: a name, type parameters, arguments, a result, and a colon in front of
the body. -/
theorem exists_of_header? {t : Text} {h : Header} (hh : header? t = some h) :
    isName h.name = true ∧ ∃ afterTypes afterArguments body,
      skipGroup? '[' (trimStart (t.dropWhile isNameChar)) = some afterTypes
        ∧ argumentGroup? afterTypes = some (h.arguments, afterArguments)
        ∧ skipResult? afterArguments = some (':' :: body) ∧ h.body = trim body := by
  unfold header? at hh
  dsimp only at hh
  split at hh
  case isFalse => contradiction
  next hname =>
  obtain ⟨afterTypes, hTypes, hh⟩ := Option.bind_eq_some_iff.1 hh
  obtain ⟨⟨arguments, afterArguments⟩, hArguments, hh⟩ := Option.bind_eq_some_iff.1 hh
  obtain ⟨afterResult, hResult, hh⟩ := Option.bind_eq_some_iff.1 hh
  dsimp only at hh hResult
  split at hh
  case h_2 => contradiction
  next body =>
  obtain rfl := Option.some.inj hh
  exact ⟨hname, afterTypes, afterArguments, body, hTypes, hArguments, hResult, rfl⟩

/-- The body of a header is shorter than the header. -/
theorem length_body_lt_of_header? {t : Text} {h : Header} (hh : header? t = some h) :
    h.body.length < t.length := by
  obtain ⟨-, afterTypes, afterArguments, body, hTypes, hArguments, hResult, hBody⟩ :=
    exists_of_header? hh
  have h1 := length_skipGroup?_le hTypes
  have h2 := length_argumentGroup?_le hArguments
  have h3 := length_skipResult?_le hResult
  have h4 := length_trimStart_le (t.dropWhile isNameChar)
  have h5 := List.IsSuffix.length_le (List.dropWhile_suffix isNameChar (l := t))
  have h6 := length_trim_le body
  rw [hBody]
  rw [List.length_cons] at h3
  omega

/-! ## §2. Block headers. -/

/-- The keywords that open a control-flow block, and whether each may stand alone before the
colon. -/
def blockKeywords : List (Text × Bool) :=
  [("if".toList, false), ("elif".toList, false), ("else".toList, true), ("for".toList, false),
   ("while".toList, false), ("with".toList, false), ("try".toList, true),
   ("except".toList, true), ("finally".toList, true), ("match".toList, false),
   ("case".toList, false), ("async".toList, false)]

/-- The inline body behind the header of a control-flow block that `t` starts with.  A keyword
that needs a condition and has none is a name, as in `case: int = 0`; so is one in front of an
assignment, as in `match = 1`. -/
def blockBody? (t : Text) : Option Text := do
  let (keyword, mayStandAlone) ←
    blockKeywords.find? fun (keyword, _) => (afterKeyword? t keyword).isSome
  let b ← t.breakTopLevel? (· == ':')
  if (trim (b.before.drop keyword.length)).isEmpty ∧ mayStandAlone = false then none
  else if b.before.assignment?.isSome then none
  else some b.after.trim

/-- The inline body of a block is shorter than the block. -/
theorem length_lt_of_blockBody? {t body : Text} (h : blockBody? t = some body) :
    body.length < t.length := by
  obtain ⟨⟨keyword, mayStandAlone⟩, -, h⟩ := Option.bind_eq_some_iff.1 h
  obtain ⟨b, hb, h⟩ := Option.bind_eq_some_iff.1 h
  split at h
  case isTrue => contradiction
  split at h
  case isTrue => contradiction
  obtain rfl := Option.some.inj h
  have := length_trim_le b.after
  rw [eq_of_breakTopLevel? hb, List.length_append, List.length_cons]
  omega

end Text

end ClassOutline
