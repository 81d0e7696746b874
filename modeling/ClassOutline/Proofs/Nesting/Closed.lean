/-
  ClassOutline.Proofs.Nesting.Closed
  ────────────────────────────────
  **TEXTS THAT ONE WALK FINDS CLOSED.**

  A text is closed if a walk of its own over it ends at top level and meets no
  closing bracket without an opening one (`Text.IsClosed`).  Such a text is
  read alike wherever it stands outside strings: what is open around it is added
  to what is open inside it, and takes no part in the walk
  (`lexemes_inside`).  So one walk decides that the text keeps every nesting
  (`IsClosed.keeps`).

  A closed atom (`Text.IsClosedAtom`) is moreover its own only atom, so it is not
  empty and has no blank at top level (`IsClosedAtom.atomic`).
-/
import ClassOutline.Proofs.Nesting.Rows

namespace ClassOutline

/-! ## §1. A walk inside other brackets. -/

/-- The unit is a closing bracket, outside strings, that no opening one stands before. -/
def Lexeme.isStray (l : Lexeme) : Bool :=
  l.before.quote.isNone
    && ((l.head == ')' && l.before.paren == 0) || (l.head == ']' && l.before.bracket == 0)
      || (l.head == '}' && l.before.brace == 0))

namespace Nesting

/-- What is open at a point of a text that stands inside `n`, given what of it is open there. -/
def inside (n m : Nesting) : Nesting :=
  { paren := n.paren + m.paren, bracket := n.bracket + m.bracket, brace := n.brace + m.brace
    quote := m.quote }

theorem inside_closed {n : Nesting} (hn : n.quote = none) : n.inside closed = n := by
  obtain ⟨paren, bracket, brace, quote⟩ := n
  obtain rfl : quote = none := hn
  rfl

/-- Something is open inside other brackets if it is open by itself, or if they are. -/
theorem isTopLevel_inside {n : Nesting} (hn : n.quote = none) (m : Nesting) :
    (n.inside m).isTopLevel = (n.isTopLevel && m.isTopLevel) := by
  have depths : (n.inside m).depth = n.depth + m.depth := by
    simp only [inside, depth]
    omega
  have sum : (n.depth + m.depth == 0) = (n.depth == 0 && m.depth == 0) := by
    rw [Bool.eq_iff_iff]
    simp only [Bool.and_eq_true, beq_iff_eq]
    omega
  simp only [isTopLevel, depths, sum, hn, Option.isNone_none, Bool.and_true, Bool.and_assoc]
  rfl

variable (n : Nesting) {m : Nesting} {c : Char} {tail : Text}

/-- A bracket that is no stray changes its own counts, wherever it stands. -/
theorem afterBracket_inside (hm : m.quote = none) (h : Lexeme.isStray ⟨c, tail, m⟩ = false) :
    (n.inside m).afterBracket c = n.inside (m.afterBracket c) := by
  simp only [Lexeme.isStray, hm, Option.isNone_none, Bool.true_and, Bool.or_eq_false_iff,
    Bool.and_eq_false_iff, beq_eq_false_iff_ne] at h
  obtain ⟨⟨hparen, hbracket⟩, hbrace⟩ := h
  unfold afterBracket
  split
  · rfl
  · split
    · next hc =>
      -- the bracket closes one that is counted in `m`
      have opened : m.paren ≠ 0 := hparen.resolve_left fun hne => hne hc
      have counts : n.paren + m.paren - 1 = n.paren + (m.paren - 1) := by omega
      simp only [inside, counts]
    · split
      · rfl
      · split
        · next hc =>
          have opened : m.bracket ≠ 0 := hbracket.resolve_left fun hne => hne hc
          have counts : n.bracket + m.bracket - 1 = n.bracket + (m.bracket - 1) := by omega
          simp only [inside, counts]
        · split
          · rfl
          · split
            · next hc =>
              have opened : m.brace ≠ 0 := hbrace.resolve_left fun hne => hne hc
              have counts : n.brace + m.brace - 1 = n.brace + (m.brace - 1) := by omega
              simp only [inside, counts]
            · rfl

/-- **A UNIT IS READ ALIKE INSIDE OTHER BRACKETS**, unless it is a stray. -/
theorem advance_inside (rest : Text) (h : Lexeme.isStray ⟨c, tail, m⟩ = false) :
    (n.inside m).advance c rest = (n.inside (m.advance c rest).1, (m.advance c rest).2) := by
  unfold advance
  cases hquote : m.quote with
  | some q =>
      have same : (n.inside m).quote = some q := hquote
      simp only [same]
      split
      · rfl
      · split
        · rfl
        · rfl
  | none =>
      have same : (n.inside m).quote = none := hquote
      simp only [same]
      cases Quote.opening? c rest with
      | some q => rfl
      | none =>
          show ((n.inside m).afterBracket c, 0) = (n.inside (m.afterBracket c), 0)
          rw [afterBracket_inside n hquote h]

end Nesting

/-- The unit where its text stands inside `n`. -/
def Lexeme.inside (n : Nesting) (l : Lexeme) : Lexeme := { l with before := n.inside l.before }

namespace Nesting

/-- **A TEXT WITHOUT STRAYS IS READ ALIKE INSIDE OTHER BRACKETS.** -/
theorem lexemes_inside (n : Nesting) {m : Nesting} {t : Text}
    (h : ∀ l ∈ m.lexemes t, l.isStray = false) :
    (n.inside m).lexemes t = (m.lexemes t).map (Lexeme.inside n)
      ∧ (n.inside m).afterText t = n.inside (m.afterText t) := by
  -- along the units of `t`
  fun_induction Nesting.lexemes m t with
  | case1 m =>
      rw [lexemes_nil, afterText_nil, afterText_nil]
      exact ⟨rfl, rfl⟩
  | case2 m c rest ih =>
      have first := advance_inside n rest (h _ List.mem_cons_self)
      obtain ⟨units, after⟩ := ih fun l hl => h l (List.mem_cons_of_mem _ hl)
      rw [lexemes_cons, afterText_cons, afterText_cons, first, units, after]
      exact ⟨rfl, rfl⟩

end Nesting

/-! ## §2. Closed texts. -/

namespace Text

/-- A walk over the text ends at top level and meets no closing bracket that is not open. -/
structure IsClosed (t : Text) : Prop where
  ends : (Nesting.closed.afterText t).isTopLevel = true
  noStray : ∀ l ∈ t.lexemes, l.isStray = false

instance (t : Text) : Decidable t.IsClosed :=
  decidable_of_iff
    ((Nesting.closed.afterText t).isTopLevel = true ∧ ∀ l ∈ t.lexemes, l.isStray = false)
    ⟨fun h => ⟨h.1, h.2⟩, fun h => ⟨h.ends, h.noStray⟩⟩

namespace IsClosed

variable {t : Text}

/-- Where a closed text ends, nothing of it is open. -/
theorem afterText_eq (h : IsClosed t) : Nesting.closed.afterText t = .closed :=
  Nesting.eq_closed h.ends

/-- **A CLOSED TEXT KEEPS EVERY NESTING**, and at top level it has what it has by itself. -/
theorem keeps (h : IsClosed t) {avoid : Char → Bool}
    (havoid : ∀ l ∈ t.lexemes, l.matchesTop avoid = false) : Keeps avoid t := by
  intro n hn
  obtain ⟨units, after⟩ := Nesting.lexemes_inside n h.noStray
  rw [Nesting.inside_closed hn] at units after
  rw [h.afterText_eq, Nesting.inside_closed hn] at after
  refine ⟨after, fun l hl htop => ?_⟩
  rw [units] at hl
  obtain ⟨k, hk, rfl⟩ := List.mem_map.1 hl
  -- a unit at top level is so by itself, and nothing is open around the text
  have both : (n.isTopLevel && k.before.isTopLevel) = true := by
    rw [← Nesting.isTopLevel_inside hn]
    exact htop
  obtain ⟨outside, own⟩ := Bool.and_eq_true_iff.1 both
  have avoided := havoid k hk
  unfold Lexeme.matchesTop Lexeme.isTopLevel at avoided
  rw [own, Bool.true_and] at avoided
  exact ⟨outside, avoided⟩

/-- A closed text can be followed by anything, behind a character that no delimiter has. -/
theorem keeps_inside (h : IsClosed t) : Keeps (fun _ => false) t :=
  h.keeps fun _ _ => Bool.and_false _

theorem keeps_of_hasTopLevel (h : IsClosed t) {c : Char} (hc : t.hasTopLevel c = false) :
    Keeps (· == c) t :=
  h.keeps fun l hl => Bool.eq_false_iff.2 (List.any_eq_false.1 hc l hl)

end IsClosed

/-! ## §3. One atom. -/

/-- One atom without gaps is made of units that are no blanks. -/
theorem matchesTop_of_ofUnits {ls : List Lexeme} {text : Text}
    (h : Atomized.ofUnits ls = ⟨[⟨[], text⟩], []⟩) : ∀ l ∈ ls, l.matchesTop isBlank = false := by
  induction ls generalizing text with
  | nil => cases h
  | cons l ls ih =>
      change Atomized.cons l (Atomized.ofUnits ls) = _ at h
      unfold Atomized.cons at h
      -- a blank would leave a gap or a trailing text
      split at h
      · next hatoms =>
        simp [hatoms] at h
      · simp [Lexeme.text] at h
      · next text' others hmatch hatoms =>
        obtain ⟨hothers, htrailing⟩ := Atomized.mk.inj h
        obtain ⟨-, rfl⟩ := List.cons.inj hothers
        have later : Atomized.ofUnits ls = ⟨[⟨[], text'⟩], []⟩ := by
          rw [← hatoms, ← htrailing]
        exact List.forall_mem_cons.2 ⟨hmatch, ih later⟩
      · next hmatch _ =>
        obtain ⟨hatoms, htrailing⟩ := Atomized.mk.inj h
        obtain ⟨-, hnone⟩ := List.cons.inj hatoms
        -- no unit is left behind this one
        have nothing := concat_ofUnits ls
        rw [hnone, htrailing] at nothing
        cases ls with
        | nil => exact List.forall_mem_singleton.2 hmatch
        | cons k ls => exact absurd nothing (List.cons_ne_nil _ _).symm

/-- A text that is its only atom is not empty and has no blank at top level. -/
theorem isUnspaced_of_atoms_eq {t : Text} (h : t.atoms = [t]) : t.IsUnspaced := by
  refine ⟨?_, ?_⟩
  · rintro rfl
    rw [atoms_nil] at h
    cases h
  · -- the gap and what trails would make the text longer than it is
    obtain ⟨⟨gap, text⟩, hatoms, rfl⟩ := List.map_eq_singleton_iff.1 h
    have units : gap ++ text ++ (atomized text).trailing = text := by
      have all := concat_ofUnits (lexemes text)
      change (atomized text).atoms.flatMap _ ++ (atomized text).trailing = _ at all
      rwa [concat_lexemes, hatoms, List.flatMap_singleton] at all
    have lengths := congrArg List.length units
    simp only [List.length_append] at lengths
    obtain rfl : gap = [] := List.eq_nil_of_length_eq_zero (by omega)
    have htrailing : (atomized text).trailing = [] := List.eq_nil_of_length_eq_zero (by omega)
    have only : Atomized.ofUnits (lexemes text) = ⟨[⟨[], text⟩], []⟩ := by
      show Atomized.mk (atomized text).atoms (atomized text).trailing = _
      rw [hatoms, htrailing]
    exact matchesTop_of_ofUnits only

/-- One atom that closes what it opens. -/
structure IsClosedAtom (t : Text) : Prop where
  atom : t.atoms = [t]
  closed : t.IsClosed

instance (t : Text) : Decidable t.IsClosedAtom :=
  decidable_of_iff (t.atoms = [t] ∧ t.IsClosed) ⟨fun h => ⟨h.1, h.2⟩, fun h => ⟨h.atom, h.closed⟩⟩

namespace IsClosedAtom

variable {t : Text} (h : t.IsClosedAtom)
include h

theorem atomic : Atomic t :=
  ⟨h.closed.keeps (isUnspaced_of_atoms_eq h.atom).2, (isUnspaced_of_atoms_eq h.atom).1⟩

theorem undivided (hcomma : t.hasTopLevel ',' = false) : Undivided t :=
  { h.atomic with comma := h.closed.keeps_of_hasTopLevel hcomma }

end IsClosedAtom

end Text

end ClassOutline
