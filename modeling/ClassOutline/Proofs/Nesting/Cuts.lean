/-
  ClassOutline.Proofs.Nesting.Cuts
  ────────────────────────────────
  **CUTS LEAVE A TEXT WHOLE THAT KEEPS THE NESTING.**

  A separator that such a text avoids is not found in it, and one right behind
  it is the first that is found: the units of the text come first, and none of
  them matches.  This holds for every way a text is cut: broken once, divided into
  pieces, or taken apart into atoms.
-/
import ClassOutline.Nesting.Assignment
import ClassOutline.Proofs.Nesting.Keeps

namespace ClassOutline.Text

/-! ## §1. What is not found. -/

section Cuts

variable {avoid : Char → Bool} {t : Text}

/-- No unit at top level is one to be avoided. -/
theorem Keeps.matchesTop_eq_false (h : Keeps avoid t) {p : Char → Bool}
    (hp : ∀ c, p c = true → avoid c = true) {l : Lexeme} (hl : l ∈ t.lexemes) :
    l.matchesTop p = false := by
  refine Bool.eq_false_iff.2 fun hmatch => ?_
  obtain ⟨htop, hhead⟩ := Bool.and_eq_true_iff.1 hmatch
  have avoided := ((h .closed rfl).2 l hl htop).2
  rw [hp _ hhead] at avoided
  exact nomatch avoided

/-- The units of a text behind which another one begins. -/
theorem Keeps.lexemes_append_cons (h : Keeps avoid t) {w : Char} (hw : ¬ Quote.IsMark w)
    (rest : Text) : lexemes (t ++ w :: rest) = t.lexemes ++ lexemes (w :: rest) := by
  have kept := (h .closed rfl).1
  have cut := (Nesting.lexemes_append_cons hw (n := .closed) (a := t) (by rw [kept]; rfl) rest).1
  rwa [kept] at cut

/-- A plain character is a unit, and the text behind it is read as if it stood alone. -/
theorem lexemes_cons_of_isPlain {c : Char} (h : Nesting.IsPlain c) (rest : Text) :
    lexemes (c :: rest) = ⟨c, [], .closed⟩ :: rest.lexemes := by
  have units := Nesting.lexemes_cons_of_not_isMark (n := .closed) rfl h.1 rest
  rwa [h.2] at units

theorem Keeps.hasTopLevel_eq_false (h : Keeps avoid t) {c : Char} (hc : avoid c = true) :
    t.hasTopLevel c = false := by
  unfold hasTopLevel
  refine List.any_eq_false.2 fun l hl => ?_
  have hp : ∀ d, (d == c) = true → avoid d = true := by
    intro d hd
    rw [eq_of_beq hd]
    exact hc
  rw [h.matchesTop_eq_false hp hl]
  exact Bool.false_ne_true

/-- A character behind a text that keeps the nesting is found at top level. -/
theorem Keeps.hasTopLevel_append (h : Keeps avoid t) {c : Char} (hc : Nesting.IsPlain c)
    (rest : Text) : hasTopLevel c (t ++ c :: rest) = true := by
  have found : Lexeme.matchesTop (· == c) ⟨c, [], .closed⟩ = true := beq_self_eq_true c
  unfold hasTopLevel
  rw [h.lexemes_append_cons hc.1, List.any_append, lexemes_cons_of_isPlain hc, List.any_cons, found,
    Bool.true_or, Bool.or_true]

/-- What the text in front avoids is at top level where it is behind it. -/
theorem Keeps.hasTopLevel_passed (h : Keeps avoid t) {c : Char} (hc : avoid c = true) {w : Char}
    (hw : Nesting.IsPlain w) (hne : w ≠ c) (rest : Text) :
    hasTopLevel c (t ++ w :: rest) = hasTopLevel c rest := by
  have front := h.hasTopLevel_eq_false hc
  have other : Lexeme.matchesTop (· == c) ⟨w, [], .closed⟩ = false := beq_false_of_ne hne
  unfold hasTopLevel at front ⊢
  rw [h.lexemes_append_cons hw.1, List.any_append, front, Bool.false_or,
    lexemes_cons_of_isPlain hw, List.any_cons, other, Bool.false_or]

/-! ## §2. Where a text is broken and divided. -/

theorem breakUnits?_append {p : Char → Bool} {ls : List Lexeme}
    (h : ∀ l ∈ ls, l.matchesTop p = false) (ls' : List Lexeme) :
    breakUnits? p (ls ++ ls')
      = (breakUnits? p ls').map fun b => { b with before := Lexeme.concat ls ++ b.before } := by
  induction ls with
  | nil =>
      show breakUnits? p ls' = (breakUnits? p ls').map fun b => b
      rw [Option.map_id_fun']
      rfl
  | cons l ls ih =>
      rw [List.cons_append, breakUnits?, h l List.mem_cons_self,
        ih fun k hk => h k (List.mem_cons_of_mem l hk)]
      simp only [Bool.false_eq_true, if_false, Option.map_map]
      congr 1
      funext b
      simp only [Function.comp_apply, Lexeme.text, Lexeme.concat_cons, List.cons_append,
        List.append_assoc]

/-- Nothing to be avoided is found. -/
theorem Keeps.breakTopLevel?_eq_none (h : Keeps avoid t) {p : Char → Bool}
    (hp : ∀ c, p c = true → avoid c = true) : t.breakTopLevel? p = none := by
  have found := breakUnits?_append (fun l hl => h.matchesTop_eq_false hp hl) []
  rw [List.append_nil] at found
  exact found

/-- What is looked for is found right behind a text that avoids it. -/
theorem Keeps.breakTopLevel?_append (h : Keeps avoid t) {p : Char → Bool}
    (hp : ∀ c, p c = true → avoid c = true) {w : Char} (hw : ¬ Quote.IsMark w) (hpw : p w = true)
    (rest : Text) : breakTopLevel? p (t ++ w :: rest) = some ⟨t, w, rest⟩ := by
  have concat (n : Nesting) (u : Text) : Lexeme.concat (n.lexemes u) = u := n.concat_lexemes u
  unfold breakTopLevel?
  rw [h.lexemes_append_cons hw, breakUnits?_append fun l hl => h.matchesTop_eq_false hp hl]
  show (breakUnits? p (Nesting.closed.lexemes (w :: rest))).map _ = _
  rw [Nesting.lexemes_cons_of_not_isMark rfl hw, breakUnits?]
  have hmatch : Lexeme.matchesTop p ⟨w, [], .closed⟩ = true := hpw
  rw [if_pos hmatch, Option.map_some, concat, concat_lexemes, List.append_nil]
  rfl

/-- What the text in front avoids is looked for behind it. -/
theorem Keeps.breakTopLevel?_passed (h : Keeps avoid t) {p : Char → Bool}
    (hp : ∀ c, p c = true → avoid c = true) {w : Char} (hw : Nesting.IsPlain w) (hpw : p w = false)
    (rest : Text) :
    breakTopLevel? p (t ++ w :: rest)
      = (breakTopLevel? p rest).map fun b => { b with before := t ++ w :: b.before } := by
  have other : ¬ Lexeme.matchesTop p ⟨w, [], .closed⟩ = true := fun hmatch =>
    Bool.false_ne_true (hpw.symm.trans hmatch)
  unfold breakTopLevel?
  rw [h.lexemes_append_cons hw.1, breakUnits?_append fun l hl => h.matchesTop_eq_false hp hl,
    lexemes_cons_of_isPlain hw, breakUnits?, if_neg other, Option.map_map, concat_lexemes]
  rfl

theorem cutUnits_append {sep : Char} {ls : List Lexeme}
    (h : ∀ l ∈ ls, l.matchesTop (· == sep) = false) (ls' : List Lexeme) :
    cutUnits sep (ls ++ ls')
      = (Lexeme.concat ls ++ (cutUnits sep ls').1, (cutUnits sep ls').2) := by
  induction ls with
  | nil => rfl
  | cons l ls ih =>
      rw [List.cons_append, cutUnits, h l List.mem_cons_self,
        ih fun k hk => h k (List.mem_cons_of_mem l hk)]
      simp only [Bool.false_eq_true, if_false, Lexeme.text, Lexeme.concat_cons, List.cons_append,
        List.append_assoc]

/-- Units none of which is the separator are not divided. -/
theorem cutUnits_of_forall {sep : Char} {ls : List Lexeme}
    (h : ∀ l ∈ ls, l.matchesTop (· == sep) = false) : cutUnits sep ls = (Lexeme.concat ls, []) := by
  have cut := cutUnits_append h []
  rw [List.append_nil] at cut
  rw [cut]
  show (Lexeme.concat ls ++ [], []) = _
  rw [List.append_nil]

/-- A text that avoids a separator is not divided by it. -/
theorem Keeps.cutUnits_eq (h : Keeps avoid t) {sep : Char} (hsep : avoid sep = true) :
    cutUnits sep t.lexemes = (t, []) := by
  have hp : ∀ c, (c == sep) = true → avoid c = true := fun c hc => eq_of_beq hc ▸ hsep
  rw [cutUnits_of_forall fun l hl => h.matchesTop_eq_false hp hl, concat_lexemes]

/-- A separator behind a text that avoids it divides there. -/
theorem Keeps.cutUnits_append (h : Keeps avoid t) {sep : Char} (hsep : avoid sep = true)
    (hplain : Nesting.IsPlain sep) (rest : Text) :
    cutUnits sep (lexemes (t ++ sep :: rest))
      = (t, (cutUnits sep rest.lexemes).1 :: (cutUnits sep rest.lexemes).2) := by
  have hp : ∀ c, (c == sep) = true → avoid c = true := fun c hc => eq_of_beq hc ▸ hsep
  have hmatch : Lexeme.matchesTop (· == sep) ⟨sep, [], .closed⟩ = true := beq_self_eq_true sep
  rw [h.lexemes_append_cons hplain.1, lexemes_cons_of_isPlain hplain,
    Text.cutUnits_append fun l hl => h.matchesTop_eq_false hp hl, concat_lexemes, cutUnits,
    if_pos hmatch, List.append_nil]
  rfl

theorem Keeps.splitTopLevel_eq (h : Keeps avoid t) {sep : Char} (hsep : avoid sep = true) :
    splitTopLevel sep t = [t.trim] := by
  unfold splitTopLevel
  rw [h.cutUnits_eq hsep]
  rfl

theorem Keeps.splitTopLevel_append (h : Keeps avoid t) {sep : Char} (hsep : avoid sep = true)
    (hplain : Nesting.IsPlain sep) (rest : Text) :
    splitTopLevel sep (t ++ sep :: rest) = t.trim :: splitTopLevel sep rest := by
  unfold splitTopLevel
  rw [h.cutUnits_append hsep hplain]
  rfl

/-- Units none of which is a sign are passed over. -/
theorem inUnits?_append (seen : Text) {ls : List Lexeme}
    (h : ∀ l ∈ ls, l.matchesTop (· == '=') = false) (ls' : List Lexeme) :
    Assignment.inUnits? seen (ls ++ ls')
      = Assignment.inUnits? ((Lexeme.concat ls).reverse ++ seen) ls' := by
  induction ls generalizing seen with
  | nil => rfl
  | cons l ls ih =>
      rw [List.cons_append, Assignment.inUnits?, h l List.mem_cons_self, Bool.false_and]
      show Assignment.inUnits? (l.text.reverse ++ seen) (ls ++ ls') = _
      rw [ih _ fun k hk => h k (List.mem_cons_of_mem l hk), Lexeme.concat_cons,
        ← List.append_assoc, ← List.reverse_append]
      rfl

/-- No sign assigns where none is at top level. -/
theorem Keeps.assignment?_eq_none (h : Keeps avoid t) (havoid : avoid '=' = true) :
    t.assignment? = none := by
  have hp : ∀ c, (c == '=') = true → avoid c = true := fun c hc => eq_of_beq hc ▸ havoid
  have passed := inUnits?_append [] (fun l hl => h.matchesTop_eq_false hp hl) []
  rw [List.append_nil] at passed
  exact passed

/-! ## §3. Atoms. -/

/-- Atoms and gaps make up the text. -/
theorem concat_ofUnits (ls : List Lexeme) :
    (Atomized.ofUnits ls).atoms.flatMap (fun a => a.gap ++ a.text) ++ (Atomized.ofUnits ls).trailing
      = Lexeme.concat ls := by
  induction ls with
  | nil => rfl
  | cons l ls ih =>
      show (Atomized.cons l (Atomized.ofUnits ls)).atoms.flatMap _
        ++ (Atomized.cons l (Atomized.ofUnits ls)).trailing = l.text ++ Lexeme.concat ls
      rw [← ih]
      unfold Atomized.cons
      split
      · next hatoms => simp [hatoms]
      · next hatoms => simp [hatoms]
      · next hatoms => simp [hatoms]
      · simp

/-- A text without blanks at top level is one atom, whatever stands behind a gap. -/
theorem atomize_units {ls : List Lexeme} (hne : ls ≠ [])
    (h : ∀ l ∈ ls, l.matchesTop isBlank = false) (atoms : List Atom) (trailing : Text)
    (hgap : ∀ a ∈ atoms.head?, a.gap ≠ []) :
    ls.foldr Atomized.cons ⟨atoms, trailing⟩ = ⟨⟨[], Lexeme.concat ls⟩ :: atoms, trailing⟩ := by
  induction ls with
  | nil => exact absurd rfl hne
  | cons l ls ih =>
      have hl := h l List.mem_cons_self
      rw [List.foldr_cons]
      cases ls with
      | nil =>
          rw [List.foldr_nil, Atomized.cons, hl]
          -- the last unit begins an atom of its own, for a gap stands behind it
          cases atoms with
          | nil => simp only [Lexeme.text, Lexeme.concat_cons, Lexeme.concat_nil, List.append_nil]
          | cons a atoms =>
              obtain ⟨gap, text⟩ := a
              cases gap with
              | nil => exact absurd rfl (hgap _ rfl)
              | cons g gap =>
                  simp only [Lexeme.text, Lexeme.concat_cons, Lexeme.concat_nil, List.append_nil]
      | cons k ls =>
          rw [ih (List.cons_ne_nil k ls) (fun m hm => h m (List.mem_cons_of_mem l hm)),
            Atomized.cons, hl]
          rfl

theorem joinAtoms_ne_nil {as : List Atom} (h : as ≠ []) : joinAtoms as ≠ [] := by
  obtain ⟨a, rest, rfl⟩ := List.exists_cons_of_ne_nil h
  rw [joinAtoms]
  split
  · split
    · exact List.cons_ne_nil _ _
    · exact List.cons_ne_nil _ _
  · exact List.cons_ne_nil _ _

theorem lexemes_ne_nil (hne : t ≠ []) : t.lexemes ≠ [] := by
  intro hnil
  have h := concat_lexemes t
  rw [hnil] at h
  exact hne h.symm

theorem atomized_nil : atomized [] = ⟨[], []⟩ := by
  unfold atomized lexemes
  rw [Nesting.lexemes_nil]
  rfl

@[simp]
theorem atoms_nil : atoms [] = [] := by
  unfold atoms
  rw [atomized_nil]
  rfl

/-- Not empty, and without a blank at top level. -/
def IsUnspaced (t : Text) : Prop := t ≠ [] ∧ ∀ l ∈ t.lexemes, l.matchesTop isBlank = false

/-- Such a text is one atom. -/
theorem IsUnspaced.atomized_eq (h : t.IsUnspaced) : t.atomized = ⟨[⟨[], t⟩], []⟩ := by
  have one := atomize_units (lexemes_ne_nil h.1) h.2 [] [] (by simp)
  rwa [concat_lexemes] at one

theorem IsUnspaced.atoms_eq (h : t.IsUnspaced) : t.atoms = [t] := by
  unfold atoms
  rw [h.atomized_eq]
  rfl

variable (havoid : ∀ c, isBlank c = true → avoid c = true)
include havoid

/-- A text that is not empty and avoids blanks is unspaced. -/
theorem Keeps.isUnspaced (h : Keeps avoid t) (hne : t ≠ []) : t.IsUnspaced :=
  ⟨hne, fun _ hl => h.matchesTop_eq_false havoid hl⟩

theorem Keeps.adjacentItems_eq (h : Keeps avoid t) (hne : t ≠ []) : t.adjacentItems = [t] := by
  unfold adjacentItems
  rw [(h.isUnspaced havoid hne).atomized_eq]
  rfl

end Cuts

end ClassOutline.Text
