/-
  ClassOutline.Proofs.Statement.Headers
  ────────────────────────────────
  **READING A HEADER TAKES BACK WHAT PRINTING IT WROTE.**

  A header is printed as its name, its type parameters, its arguments and its
  result, each of the last three if it is there (`WrittenHeader.text`).  Each part
  is read from what the ones before it left, by a walk of its own, and brackets
  end where they close whatever follows them.  So a reader that skips a part
  finds the next one at its first character, and the header gives its name, its
  arguments and the body behind the colon back (`header?_written`).
-/
import ClassOutline.Proofs.Nesting.Closed
import ClassOutline.Statement.Header

namespace ClassOutline

/-! ## §1. Printed headers. -/

/-- A class or function header as it is printed, without the colon behind it. -/
structure WrittenHeader where
  name : Text
  /-- The type parameters between brackets, if there are any. -/
  types : Option Text
  /-- The arguments between parentheses, if there are any. -/
  arguments : Option Text
  /-- The annotation behind the arrow, if there is one. -/
  result : Option Text
  deriving DecidableEq, Repr

namespace WrittenHeader

/-- A part with its brackets, if it is there. -/
def bracketed (opener closer : Char) : Option Text → Text
  | none => []
  | some inner => opener :: (inner ++ [closer])

/-- A result annotation with its arrow, if it is there. -/
def arrow : Option Text → Text
  | none => []
  | some result => " -> ".toList ++ result

/-- The header as it is printed. -/
def text (w : WrittenHeader) : Text :=
  w.name ++ (bracketed '[' ']' w.types ++ (bracketed '(' ')' w.arguments ++ arrow w.result))

/-- The parts close what they open, and no colon ends the annotation early. -/
structure IsReadable (w : WrittenHeader) : Prop where
  name : Text.isName w.name = true
  types : ∀ t ∈ w.types, t.IsClosed
  arguments : ∀ t ∈ w.arguments, t.IsClosed
  result : ∀ t ∈ w.result, t.IsClosed ∧ t.hasTopLevel ':' = false

instance (w : WrittenHeader) : Decidable w.IsReadable :=
  decidable_of_iff
    (Text.isName w.name = true ∧ (∀ t ∈ w.types, t.IsClosed) ∧ (∀ t ∈ w.arguments, t.IsClosed)
      ∧ ∀ t ∈ w.result, t.IsClosed ∧ t.hasTopLevel ':' = false)
    ⟨fun ⟨h1, h2, h3, h4⟩ => ⟨h1, h2, h3, h4⟩, fun h => ⟨h.1, h.2, h.3, h.4⟩⟩

end WrittenHeader

namespace Text

open WrittenHeader (bracketed arrow)

/-! ## §2. Part by part. -/

/-- What is in brackets stands right behind the opening one. -/
theorem trimStart_bracketed {opener closer : Char} (hpair : BracketPair opener closer)
    (inner rest : Text) :
    trimStart (bracketed opener closer (some inner) ++ rest)
      = opener :: (inner ++ closer :: rest) := by
  have visible : isBlank opener = false := by
    rcases hpair with ⟨rfl, -⟩ | ⟨rfl, -⟩ | ⟨rfl, -⟩ <;> decide
  show trimStart (opener :: (inner ++ [closer] ++ rest)) = _
  rw [List.append_assoc]
  exact trimStart_eq_self fun _ hc => Option.some.inj hc ▸ visible

/-- Brackets in front are passed over. -/
theorem skipGroup?_bracketed {opener closer : Char} (hpair : BracketPair opener closer)
    {part : Option Text} (hpart : ∀ t ∈ part, t.IsClosed) {rest : Text}
    (hrest : rest.trimStart.head? ≠ some opener) :
    skipGroup? opener (trimStart (bracketed opener closer part ++ rest)) = some rest.trimStart := by
  cases part with
  | none => exact if_neg hrest
  | some inner =>
      have group := leadingGroup?_of_brackets hpair (hpart inner rfl).keeps_inside rest
      unfold skipGroup?
      rw [trimStart_bracketed hpair, group]
      exact if_pos rfl

/-- Parentheses in front are taken for the arguments. -/
theorem argumentGroup?_bracketed {part : Option Text} (hpart : ∀ t ∈ part, t.IsClosed)
    {rest : Text} (hrest : rest.trimStart.head? ≠ some '(') :
    argumentGroup? (trimStart (bracketed '(' ')' part ++ rest)) = some (part, rest.trimStart) := by
  cases part with
  | none => exact if_neg hrest
  | some inner =>
      have pair : BracketPair '(' ')' := .inl ⟨rfl, rfl⟩
      have group := leadingGroup?_of_brackets pair (hpart inner rfl).keeps_inside rest
      unfold argumentGroup?
      rw [trimStart_bracketed pair, group]
      show some (some (List.dropLast (inner ++ [')'])), rest.trimStart) = _
      rw [List.dropLast_concat]

/-- A result annotation ends at the colon behind it, and without a colon it does not end. -/
theorem skipResult?_arrow {part : Option Text}
    (hpart : ∀ t ∈ part, t.IsClosed ∧ t.hasTopLevel ':' = false) (body : Text) :
    skipResult? (trimStart (arrow part ++ ':' :: body)) = some (':' :: body)
      ∧ skipResult? (trimStart (arrow part)) = if part.isSome then none else some [] := by
  cases part with
  | none => exact ⟨rfl, rfl⟩
  | some result =>
      obtain ⟨closed, noColon⟩ := hpart result rfl
      -- the arrow in front of the annotation is plain, so all of it avoids the colon
      have keeps : Keeps (· == ':') ('-' :: '>' :: ' ' :: result) :=
        .cons (isPlain_of_not_mem (by decide)) rfl <| .cons (isPlain_of_not_mem (by decide)) rfl <|
          .cons isPlain_space rfl (closed.keeps_of_hasTopLevel noColon)
      have found := keeps.breakTopLevel?_append (fun _ h => h) isPlain_colon.1
        (beq_self_eq_true ':') body
      have absent : breakTopLevel? (· == ':') ('-' :: '>' :: ' ' :: result) = none :=
        keeps.breakTopLevel?_eq_none fun _ h => h
      constructor
      · show (breakTopLevel? (· == ':') ('-' :: '>' :: ' ' :: result ++ ':' :: body)).map _ = _
        rw [found]
        rfl
      · show (breakTopLevel? (· == ':') ('-' :: '>' :: ' ' :: result)).map _ = _
        rw [absent]
        rfl

/-! ## §3. Whole headers. -/

section Whole

variable {types arguments result : Option Text} {ending : Text}
  (hending : ∀ c ∈ ending.head?, c = ':')
include hending

/-- Behind the arguments stands the arrow or the colon. -/
theorem head?_arrow :
    ∀ c ∈ (trimStart (arrow result ++ ending)).head?, c = '-' ∨ c = ':' := by
  intro c hc
  cases result with
  | some result => exact .inl (Option.some.inj hc).symm
  | none =>
      cases ending with
      | nil => exact nomatch hc
      | cons d ending =>
          obtain rfl : d = ':' := hending d rfl
          exact .inr (Option.some.inj hc).symm

/-- Behind the type parameters stand the arguments, if there are any. -/
theorem head?_arguments :
    ∀ c ∈ (trimStart (bracketed '(' ')' arguments ++ (arrow result ++ ending))).head?,
      c = '(' ∨ c = '-' ∨ c = ':' := by
  intro c hc
  cases arguments with
  | some arguments => exact .inl (Option.some.inj hc).symm
  | none => exact .inr (head?_arrow hending c hc)

/-- The name ends in front of any of the parts. -/
theorem head?_behind_name :
    ∀ c ∈ (bracketed '[' ']' types
        ++ (bracketed '(' ')' arguments ++ (arrow result ++ ending))).head?,
      isNameChar c = false := by
  intro c hc
  cases types with
  | some types => exact Option.some.inj hc ▸ (by decide : isNameChar '[' = false)
  | none =>
      cases arguments with
      | some arguments => exact Option.some.inj hc ▸ (by decide : isNameChar '(' = false)
      | none =>
          cases result with
          | some result => exact Option.some.inj hc ▸ (by decide : isNameChar ' ' = false)
          | none => exact hending c hc ▸ (by decide : isNameChar ':' = false)

/-- **A printed header is read part by part**, up to its result. -/
theorem header?_append {w : WrittenHeader} (h : w.IsReadable) :
    header? (w.text ++ ending) = (skipResult? (trimStart (arrow w.result ++ ending))).bind fun
      | ':' :: body => some ⟨w.name, w.arguments, trim body⟩
      | _ => none := by
  have text : w.text ++ ending = w.name ++ (bracketed '[' ']' w.types
      ++ (bracketed '(' ')' w.arguments ++ (arrow w.result ++ ending))) := by
    simp only [WrittenHeader.text, List.append_assoc]
  have noTypes : (trimStart (bracketed '(' ')' w.arguments
      ++ (arrow w.result ++ ending))).head? ≠ some '[' := fun hhead =>
    absurd (head?_arguments hending _ hhead) (by decide)
  have noArguments : (trimStart (arrow w.result ++ ending)).head? ≠ some '(' := fun hhead =>
    absurd (head?_arrow hending _ hhead) (by decide)
  obtain ⟨taken, dropped⟩ := span_isNameChar_append (fun _ hc => isNameChar_of_mem h.name hc)
    (head?_behind_name hending)
  unfold header?
  rw [text, taken, dropped, if_pos h.name,
    skipGroup?_bracketed (.inr (.inl ⟨rfl, rfl⟩)) h.types noTypes]
  dsimp only [Option.bind_eq_bind, Option.bind_some]
  rw [argumentGroup?_bracketed h.arguments noArguments]
  rfl

end Whole

/-- **READING A PRINTED HEADER GIVES ITS PARTS BACK.**  The name, the arguments exactly if there
are parentheses, and what stands behind the colon, whichever of the parts there are and whatever
colons, brackets and strings are in them.  Without the colon there is no header. -/
theorem header?_written {w : WrittenHeader} (h : w.IsReadable) (body : Text) :
    header? (w.text ++ ':' :: body) = some ⟨w.name, w.arguments, body.trim⟩
      ∧ header? w.text = none := by
  obtain ⟨withColon, without⟩ := skipResult?_arrow h.result body
  have colon : ∀ c ∈ List.head? (':' :: body), c = ':' := fun c hc => (Option.some.inj hc).symm
  have nothing : ∀ c ∈ List.head? ([] : Text), c = ':' := fun c hc => nomatch hc
  have bare := header?_append nothing h
  rw [List.append_nil, List.append_nil, without] at bare
  refine ⟨?_, ?_⟩
  · rw [header?_append colon h, withColon]
    rfl
  · rw [bare]
    cases w.result with
    | none => rfl
    | some result => rfl

end Text
end ClassOutline
