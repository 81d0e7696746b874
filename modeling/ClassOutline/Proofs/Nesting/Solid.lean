/-
  ClassOutline.Proofs.Nesting.Solid
  ────────────────────────────────
  **TEXTS THAT NO SEPARATOR DIVIDES.**

  A text is *solid* if nothing can be cut from it: it keeps the nesting, and it
  has no blank, comma, colon, equals sign or star at top level (`Text.Solid`).
  Plain characters are solid, and so are groups and calls.

  A sign behind a solid text belongs to its atom, and a comma behind it makes no
  second piece (`Solid.commaItems_append_comma`).
-/
import ClassOutline.Proofs.Nesting.Rows

namespace ClassOutline.Text

/-! ## §1. Solid texts. -/

/-- A character that parts expressions from one another, or that stands in front of one. -/
def isSeparator (c : Char) : Bool := isBlank c || [',', ':', '=', '*'].contains c

/-- A text that is not cut at any separator, nor trimmed. -/
structure Solid (t : Text) : Prop where
  keeps : t.Keeps isSeparator
  trimmed : t.trim = t
  nonempty : t ≠ []

theorem isSeparator_of_isBlank (c : Char) (h : isBlank c = true) : isSeparator c = true := by
  unfold isSeparator
  rw [h, Bool.true_or]

theorem not_isBlank_of_not_isSeparator {c : Char} (h : isSeparator c = false) : isBlank c = false :=
  Bool.eq_false_iff.2 fun hblank => by
    rw [isSeparator_of_isBlank c hblank] at h
    exact nomatch h

namespace Solid

variable {t : Text}

/-- No separator divides a solid text. -/
theorem avoids (h : Solid t) {sep : Char} (hsep : isSeparator sep = true) : t.Keeps (· == sep) :=
  h.keeps.mono fun _ hc => eq_of_beq hc ▸ hsep

/-- Inside brackets, where nothing is at top level, nothing has to be avoided. -/
theorem keeps_inside (h : Solid t) : Keeps (fun _ => false) t :=
  h.keeps.mono fun _ hc => nomatch hc

/-- What begins with a solid text begins with no separator. -/
theorem not_isSeparator_head (h : Solid t) (rest : Text) :
    ∃ c tail, t ++ rest = c :: tail ∧ isSeparator c = false := by
  cases t with
  | nil => exact absurd rfl h.nonempty
  | cons c t =>
      have first : ∃ tail, (⟨c, tail, .closed⟩ : Lexeme) ∈ Nesting.closed.lexemes (c :: t) := by
        rw [Nesting.lexemes_cons]
        exact ⟨_, List.mem_cons_self⟩
      obtain ⟨tail, hmem⟩ := first
      exact ⟨c, _, rfl, ((h.keeps .closed rfl).2 _ hmem rfl).2⟩

theorem not_isBlank_head (h : Solid t) (rest : Text) : ∀ c ∈ (t ++ rest).head?, isBlank c = false := by
  intro c hc
  obtain ⟨d, tail, htext, hd⟩ := h.not_isSeparator_head rest
  rw [htext] at hc
  obtain rfl := Option.some.inj hc
  exact not_isBlank_of_not_isSeparator hd

/-- What begins with a solid text is not blank. -/
theorem isEmpty_trim_append (h : Solid t) (rest : Text) : (t ++ rest).trim.isEmpty = false := by
  obtain ⟨c, tail, htext, hc⟩ := h.not_isSeparator_head rest
  rw [htext]
  exact Bool.eq_false_iff.2
    (not_isEmpty_trim List.mem_cons_self (not_isBlank_of_not_isSeparator hc))

theorem atomic (h : Solid t) : Atomic t := ⟨h.keeps.mono isSeparator_of_isBlank, h.nonempty⟩

theorem undivided (h : Solid t) : Undivided t := { h.atomic with comma := h.avoids rfl }

/-- A solid text is one atom. -/
theorem atoms_eq (h : Solid t) : t.atoms = [t] := h.atomic.atoms_eq

/-- No comma is missing in a solid text. -/
theorem adjacentItems_eq (h : Solid t) : t.adjacentItems = [t] :=
  h.keeps.adjacentItems_eq isSeparator_of_isBlank h.nonempty

theorem of_plain (hne : t ≠ []) (h : ∀ c ∈ t, Nesting.IsPlain c ∧ isSeparator c = false) :
    Solid t :=
  ⟨.of_plain h, trim_of_forall_not_blank fun c hc => not_isBlank_of_not_isSeparator (h c hc).2, hne⟩

/-- A group is solid between ends that are no separators. -/
theorem of_group (h : IsGroup t) {first last : Char} (hfirst : t.head? = some first)
    (hlast : t.getLast? = some last) (hfirst' : isSeparator first = false)
    (hlast' : isBlank last = false) : Solid t := by
  have front : ∀ c ∈ t.head?, isSeparator c = false := by
    intro c hc
    rw [hfirst] at hc
    exact Option.some.inj hc ▸ hfirst'
  have back : ∀ c ∈ t.getLast?, isBlank c = false := by
    intro c hc
    rw [hlast] at hc
    exact Option.some.inj hc ▸ hlast'
  refine ⟨h.keeps front, trim_eq_self (fun c hc => not_isBlank_of_not_isSeparator (front c hc)) back, ?_⟩
  rintro rfl
  exact nomatch hfirst

theorem of_brackets {opener closer : Char} (hpair : BracketPair opener closer) {inner : Text}
    (h : Keeps (fun _ => false) inner) : Solid (opener :: (inner ++ [closer])) := by
  have last : (opener :: (inner ++ [closer])).getLast? = some closer := by
    rw [← List.cons_append, List.getLast?_append]
    rfl
  have ends : isSeparator opener = false ∧ isBlank closer = false := by
    rcases hpair with ⟨rfl, rfl⟩ | ⟨rfl, rfl⟩ | ⟨rfl, rfl⟩ <;> decide
  exact of_group (isGroup_of_brackets hpair h) rfl last ends.1 ends.2

theorem of_isQuotable {s : Text} (hs : isQuotable s = true) : Solid ('\'' :: (s ++ ['\''])) := by
  have last : ('\'' :: (s ++ ['\''])).getLast? = some '\'' := by
    rw [← List.cons_append, List.getLast?_append]
    rfl
  exact of_group (isGroup_of_isQuotable hs) rfl last (by decide) (by decide)

/-- A call: what is called, and parentheses around the arguments. -/
theorem of_call {name inner : Text} (hname : Solid name) (h : Keeps (fun _ => false) inner) :
    Solid (name ++ '(' :: (inner ++ [')'])) := by
  have pair : BracketPair '(' ')' := .inl ⟨rfl, rfl⟩
  have last : (name ++ '(' :: (inner ++ [')'])).getLast? = some ')' := by
    rw [← List.cons_append, ← List.append_assoc, List.getLast?_append]
    rfl
  refine ⟨hname.keeps.append_cons pair.not_isMark.1 (of_brackets pair h).keeps, ?_,
    List.append_ne_nil_of_left_ne_nil hname.nonempty _⟩
  refine trim_eq_self (hname.not_isBlank_head _) fun c hc => ?_
  rw [last] at hc
  obtain rfl := Option.some.inj hc
  decide

end Solid

/-! ## §2. What follows a solid text. -/

/-- A key and a value with a colon between them. -/
theorem keeps_entry {avoid : Char → Bool} {k v : Text} (hk : Keeps avoid k) (hv : Keeps avoid v)
    (hcolon : avoid ':' = false) (hspace : avoid ' ' = false) :
    Keeps avoid (k ++ (':' :: ' ' :: v)) :=
  hk.append_cons isPlain_colon.1 (.cons isPlain_colon hcolon (.cons isPlain_space hspace hv))

/-- A comma behind the only piece makes no second one. -/
theorem Solid.commaItems_append_comma {t : Text} (h : Solid t) : (t ++ [',']).commaItems = [t] := by
  have filled : (!t.isEmpty) = true := by
    cases ht : t with
    | nil => exact absurd ht h.nonempty
    | cons c t => rfl
  have keeps : t.Keeps (· == ',') := h.avoids rfl
  unfold commaItems
  rw [keeps.splitTopLevel_append (beq_self_eq_true ',') isPlain_comma,
    splitTopLevel_nil, h.trimmed, List.filter_cons, if_pos filled]
  rfl

/-- A solid text and a sign behind it are one atom. -/
theorem Solid.atoms_sign {t : Text} (h : Solid t) {sign : Char} (hsign : Nesting.IsPlain sign)
    (hblank : isBlank sign = false) : atoms (t ++ [sign]) = [t ++ [sign]] :=
  (h.atomic.append_sign hsign hblank).atoms_eq

end ClassOutline.Text
