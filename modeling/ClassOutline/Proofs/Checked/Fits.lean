/-
  ClassOutline.Proofs.Checked.Fits
  ────────────────────────────────
  **WHAT IS CUT OUT OF A TEXT CAN BE READ IF THE TEXT CAN.**

  That a text can be read is a property of the nestings in front of its units
  and behind the last (`Nesting.readFits`).  So a text that is cut at a boundary
  can be read if both parts can, the second from what is open at the cut
  (`Boundary.readFits`); and inside fewer brackets no count is greater
  (`readFits_of_atMost`).  No count exceeds the number of characters that are
  read, so every text with fewer characters than a word counts can be read
  (`readFits_of_length`).
-/
import ClassOutline.Checked.Walks
import ClassOutline.Proofs.Nesting.Regrouping
import ClassOutline.Proofs.Nesting.Tiling

namespace ClassOutline

/-! ## §1. Runs that may be stopped. -/

section
variable {α : Type} {fits : Bool} {answer a : α}

theorem guarded_of_fits (h : fits = true) : guarded fits answer = some answer := if_pos h

theorem guarded_eq_some_iff : guarded fits answer = some a ↔ fits = true ∧ answer = a := by
  unfold guarded
  cases fits <;> simp

end

/-- Runs one after the other answer if each of them does. -/
theorem mapM_of_forall_eq_some {α β : Type} {run : α → Option β} {f : α → β} {xs : List α}
    (h : ∀ x ∈ xs, run x = some (f x)) : xs.mapM run = some (xs.map f) := by
  induction xs with
  | nil => rfl
  | cons x xs ih =>
      obtain ⟨first, later⟩ := List.forall_mem_cons.1 h
      rw [List.mapM_cons, first, ih later]
      rfl

/-- A test of all elements depends on what it says of each. -/
theorem all_eq_of_forall_mem {α : Type} {p q : α → Bool} {xs : List α}
    (h : ∀ x ∈ xs, p x = q x) : xs.all p = xs.all q := by
  rw [Bool.eq_iff_iff, List.all_eq_true, List.all_eq_true]
  exact forall₂_congr fun x hx => by rw [h x hx]

/-- A run over `t` answers `a`, unless it is stopped; and it is not stopped if the text has fewer
characters than a word counts. -/
def Checked.Answers {α : Type} (t : Text) (run : Option α) (a : α) : Prop :=
  (run = none ∨ run = some a) ∧ (t.length < Nesting.countLimit → run = some a)

theorem Checked.answers_guarded {α : Type} {t : Text} {fits : Bool}
    (h : t.length < Nesting.countLimit → fits = true) (a : α) : Answers t (guarded fits a) a := by
  refine ⟨?_, fun hshort => guarded_of_fits (h hshort)⟩
  cases fits with
  | false => exact .inl rfl
  | true => exact .inr rfl

namespace Nesting

variable {each last : Nesting → Bool} {n m : Nesting}

/-! ## §2. Unit by unit. -/

theorem readFits_nil (n : Nesting) : n.readFits each last [] = last n := by
  unfold readFits
  rw [lexemes_nil, afterText_nil]
  rfl

theorem readFits_cons (n : Nesting) (c : Char) (rest : Text) :
    n.readFits each last (c :: rest)
      = (each n && (n.advance c rest).1.readFits each last (rest.drop (n.advance c rest).2)) := by
  unfold readFits
  rw [lexemes_cons, afterText_cons, List.all_cons, Bool.and_assoc]

theorem readFits_cons_of_not_isMark (hn : n.quote = none) {c : Char} (hc : ¬ Quote.IsMark c)
    (rest : Text) :
    n.readFits each last (c :: rest) = (each n && (n.afterBracket c).readFits each last rest) := by
  rw [readFits_cons, advance_of_not_isMark hn hc]
  rfl

theorem readFits_blank_cons {w : Char} (hw : Text.isBlank w = true) (rest : Text) :
    n.readFits each last (w :: rest) = (each n && n.readFits each last rest) := by
  rw [readFits_cons, advance_of_isBlank hw]
  rfl

/-- A character opens one bracket at most. -/
theorem depth_advance_le (n : Nesting) (c : Char) (rest : Text) :
    (n.advance c rest).1.depth ≤ n.depth + 1 := by
  unfold advance
  split
  · split
    · exact Nat.le_succ _
    · split <;> exact Nat.le_succ _
  · split
    · exact Nat.le_succ _
    · unfold afterBracket depth
      split_ifs <;> dsimp only <;> omega

/-- **NO COUNT EXCEEDS THE NUMBER OF CHARACTERS THAT WERE READ**, but by what was open before. -/
theorem readFits_of_length (hsmall : ∀ m : Nesting, m.depth < countLimit → each m && last m)
    {t : Text} (h : n.depth + t.length < countLimit) : n.readFits each last t = true := by
  -- along the units of `t`
  fun_induction lexemes n t with
  | case1 n =>
      rw [readFits_nil]
      exact (Bool.and_eq_true_iff.1 (hsmall n h)).2
  | case2 n c rest ih =>
      have step := n.depth_advance_le c rest
      rw [List.length_cons] at h
      rw [readFits_cons, ih (by rw [List.length_drop]; omega), Bool.and_true]
      exact (Bool.and_eq_true_iff.1 (hsmall n (by omega))).1

theorem countsFit_of_depthFits (n : Nesting) (h : n.depthFits = true) : n.countsFit = true := by
  unfold depthFits depth at h
  have h := of_decide_eq_true h
  simp only [countsFit, Bool.and_eq_true, decide_eq_true_eq]
  omega

theorem depthFits_of_lt (h : n.depth < countLimit) : n.depthFits = true := decide_eq_true h

/-! ## §3. Cuts. -/

section
variable (weaker : ∀ m : Nesting, each m = true → last m = true)
include weaker

/-- Where a text can be read from, another one could have ended. -/
theorem last_of_readFits {t : Text} (h : n.readFits each last t = true) : last n = true := by
  cases t with
  | nil => rwa [readFits_nil] at h
  | cons c rest =>
      rw [readFits_cons] at h
      exact weaker n (Bool.and_eq_true_iff.1 h).1

/-- What can be read in two parts is asked of both. -/
theorem readFits_of_units {t front rest : Text}
    (units : n.lexemes t = n.lexemes front ++ m.lexemes rest) (between : n.afterText front = m)
    (after : n.afterText t = m.afterText rest) :
    n.readFits each last t = (n.readFits each last front && m.readFits each last rest) := by
  have ends : (last m && m.readFits each last rest) = m.readFits each last rest := by
    cases h : m.readFits each last rest with
    | false => exact Bool.and_false _
    | true => rw [last_of_readFits weaker h, Bool.and_true]
  calc n.readFits each last t
      = ((n.lexemes front).all (fun l => each l.before) && m.readFits each last rest) := by
        unfold readFits
        rw [units, after, List.all_append, Bool.and_assoc]
    _ = (n.readFits each last front && m.readFits each last rest) := by
        rw [← ends, ← Bool.and_assoc, ends, ← between]
        rfl

/-- **A TEXT THAT IS CUT AT A BOUNDARY CAN BE READ IF BOTH PARTS CAN.** -/
theorem Boundary.readFits {t front rest : Text} (h : Boundary n t front rest m) :
    n.readFits each last t = (n.readFits each last front && m.readFits each last rest) := by
  have after : n.afterText t = m.afterText rest := by
    induction h with
    | start => rfl
    | unit _ ih => rw [afterText_cons, ih]
  exact readFits_of_units weaker h.units.2 h.units.1 after

/-- So is one that is cut at a character that no delimiter has, outside strings. -/
theorem readFits_append_cons {w : Char} (hw : ¬ Quote.IsMark w) {a : Text}
    (h : (n.afterText a).quote = none) (rest : Text) :
    n.readFits each last (a ++ w :: rest)
      = (n.readFits each last a && (n.afterText a).readFits each last (w :: rest)) := by
  obtain ⟨units, after⟩ := lexemes_append_cons hw h rest
  exact readFits_of_units weaker units rfl after

end

/-- What an idle character follows can be read, be it half of an escape. -/
theorem readFits_of_append_cons {w : Char} (hw : ¬ Quote.IsMark w) {t rest : Text}
    (hafter : n.afterText (t ++ w :: rest) = n.afterText t)
    (h : n.readFits each last (t ++ w :: rest) = true) : n.readFits each last t = true := by
  obtain ⟨units, after⟩ := Bool.and_eq_true_iff.1 h
  rw [hafter] at after
  refine Bool.and_eq_true_iff.2 ⟨List.all_eq_true.2 fun l hl => ?_, after⟩
  -- each unit has one in the longer text that begins alike
  obtain ⟨l', hl', -, hbefore⟩ := Text.exists_mem_lexemes_append hw rest l hl
  rw [← hbefore]
  exact List.all_eq_true.1 units l' hl'

theorem readFits_of_append_blanks {t blanks : Text}
    (hblanks : ∀ c ∈ blanks, Text.isBlank c = true)
    (h : n.readFits each last (t ++ blanks) = true) : n.readFits each last t = true := by
  cases blanks with
  | nil => rwa [List.append_nil] at h
  | cons w blanks =>
      exact readFits_of_append_cons (not_isMark_of_isBlank (hblanks w List.mem_cons_self))
        (afterText_append_blanks hblanks n t) h

/-- Behind a text that can be read the reading goes on with a blank, be it half of an escape. -/
theorem readFits_append_blank (stronger : ∀ m : Nesting, last m = true → each m = true) {w : Char}
    (hw : Text.isBlank w = true) {t rest : Text} (ht : n.readFits each last t = true)
    (hrest : (n.afterText t).readFits each last rest = true) :
    n.readFits each last (t ++ w :: rest) = true := by
  -- along the units of `t`
  fun_induction afterText n t with
  | case1 n =>
      rw [readFits_nil] at ht
      rw [List.nil_append, readFits_blank_cons hw, stronger n ht, hrest]
      rfl
  | case2 n c a ih =>
      rw [readFits_cons] at ht
      obtain ⟨first, later⟩ := Bool.and_eq_true_iff.1 ht
      rw [List.cons_append, readFits_cons, advance_append_cons (not_isMark_of_isBlank hw), first,
        Bool.true_and]
      rcases advance_within n c a with hle | ⟨rfl, hescape⟩
      · -- the unit ends inside `t`
        rw [List.drop_append_of_le_length hle]
        exact ih later hrest
      · -- a backslash at the end of `t` takes the blank with it
        rw [hescape, List.drop_nil, afterText_nil] at hrest
        rw [hescape]
        exact hrest

theorem readFits_trimStart {t : Text} (h : n.readFits each last t = true) :
    n.readFits each last t.trimStart = true := by
  induction t with
  | nil => exact h
  | cons c t ih =>
      unfold Text.trimStart at ih ⊢
      by_cases hc : Text.isBlank c = true
      · rw [readFits_blank_cons hc] at h
        rw [List.dropWhile_cons_of_pos hc]
        exact ih (Bool.and_eq_true_iff.1 h).2
      · rwa [List.dropWhile_cons_of_neg hc]

theorem readFits_trim {t : Text} (h : n.readFits each last t = true) :
    n.readFits each last t.trim = true := by
  obtain ⟨blanks, hblanks, hsplit⟩ := t.trimStart.exists_eq_trimEnd_append
  refine readFits_of_append_blanks hblanks ?_
  show n.readFits each last (t.trimStart.trimEnd ++ blanks) = true
  rw [← hsplit]
  exact readFits_trimStart h

/-! ## §4. Fewer brackets. -/

/-- Of each kind at most as many brackets are open, and the same string. -/
structure AtMost (n m : Nesting) : Prop where
  paren : n.paren ≤ m.paren
  bracket : n.bracket ≤ m.bracket
  brace : n.brace ≤ m.brace
  quote : n.quote = m.quote

namespace AtMost

/-- Nothing is less than nothing open. -/
theorem closed (hm : m.quote = none) : AtMost .closed m :=
  ⟨Nat.zero_le _, Nat.zero_le _, Nat.zero_le _, hm.symm⟩

theorem afterBracket (h : AtMost n m) (c : Char) :
    AtMost (n.afterBracket c) (m.afterBracket c) := by
  obtain ⟨hparen, hbracket, hbrace, hquote⟩ := h
  unfold Nesting.afterBracket
  split_ifs <;> constructor <;> first | assumption | (dsimp only; omega)

/-- A unit is read alike inside fewer brackets. -/
theorem advance (h : AtMost n m) (c : Char) (rest : Text) :
    AtMost (n.advance c rest).1 (m.advance c rest).1
      ∧ (n.advance c rest).2 = (m.advance c rest).2 := by
  unfold Nesting.advance
  rw [h.quote]
  split
  · split
    · exact ⟨h, rfl⟩
    · split
      · exact ⟨⟨h.paren, h.bracket, h.brace, rfl⟩, rfl⟩
      · exact ⟨h, rfl⟩
  · split
    · exact ⟨⟨h.paren, h.bracket, h.brace, rfl⟩, rfl⟩
    · exact ⟨h.afterBracket c, rfl⟩

theorem depthFits (h : AtMost n m) (hm : m.depthFits = true) : n.depthFits = true := by
  obtain ⟨hparen, hbracket, hbrace, -⟩ := h
  unfold Nesting.depthFits depth at hm ⊢
  have hm := of_decide_eq_true hm
  exact decide_eq_true (by omega)

theorem countsFit (h : AtMost n m) (hm : m.countsFit = true) : n.countsFit = true := by
  obtain ⟨hparen, hbracket, hbrace, -⟩ := h
  simp only [Nesting.countsFit, Bool.and_eq_true, decide_eq_true_eq] at hm ⊢
  omega

end AtMost

/-- **INSIDE FEWER BRACKETS A TEXT CAN BE READ AS WELL.** -/
theorem readFits_of_atMost (heach : ∀ {n m : Nesting}, AtMost n m → each m = true → each n = true)
    (hlast : ∀ {n m : Nesting}, AtMost n m → last m = true → last n = true) (hle : AtMost n m)
    {t : Text} (h : m.readFits each last t = true) : n.readFits each last t = true := by
  -- along the units of `t`, which are the same
  fun_induction lexemes n t generalizing m with
  | case1 n =>
      rw [readFits_nil] at h ⊢
      exact hlast hle h
  | case2 n c rest ih =>
      rw [readFits_cons] at h ⊢
      obtain ⟨first, later⟩ := Bool.and_eq_true_iff.1 h
      obtain ⟨next, width⟩ := hle.advance c rest
      rw [width] at ih ⊢
      exact Bool.and_eq_true_iff.2 ⟨heach hle first, ih next later⟩

theorem walkFits_of_atMost (hle : AtMost n m) {t : Text} (h : m.walkFits t = true) :
    n.walkFits t = true :=
  readFits_of_atMost AtMost.depthFits AtMost.countsFit hle h

end Nesting

/-! ## §5. Texts of their own. -/

namespace Text

variable {sep : Char} {t : Text}

/-- **A TEXT CAN BE WALKED OVER IF IT HAS FEWER CHARACTERS THAN A WORD COUNTS.** -/
theorem fits_of_length (h : t.length < Nesting.countLimit) : t.fits = true := by
  refine Nesting.readFits_of_length (fun m hm => ?_) (n := .closed) ?_
  · have fits := Nesting.depthFits_of_lt hm
    rw [fits, Nesting.countsFit_of_depthFits m fits]
    rfl
  · show 0 + t.length < _
    rwa [Nat.zero_add]

theorem fits_nil : fits [] = true := Nesting.readFits_nil .closed

theorem fits_trim (h : t.fits = true) : t.trim.fits = true := Nesting.readFits_trim h

/-- Blanks in front of a text change nothing. -/
theorem fits_blanks_append {blanks : Text} (hblanks : ∀ c ∈ blanks, isBlank c = true) (t : Text) :
    fits (blanks ++ t) = t.fits := by
  induction blanks with
  | nil => rfl
  | cons w blanks ih =>
      have first : fits (w :: (blanks ++ t)) = fits (blanks ++ t) :=
        Nesting.readFits_blank_cons (hblanks w List.mem_cons_self) _
      rw [List.cons_append, first, ih fun c hc => hblanks c (List.mem_cons_of_mem w hc)]

theorem fits_of_append_blanks {blanks : Text} (hblanks : ∀ c ∈ blanks, isBlank c = true)
    (h : fits (t ++ blanks) = true) : t.fits = true :=
  Nesting.readFits_of_append_blanks hblanks h

/-- Where nothing is open a text is cut into two of their own. -/
theorem fits_of_boundary {front rest : Text} {n : Nesting}
    (h : Nesting.Boundary .closed t front rest n) (htop : n.isTopLevel = true) :
    t.fits = (front.fits && rest.fits) := by
  obtain rfl : n = .closed := Nesting.eq_closed htop
  exact h.readFits Nesting.countsFit_of_depthFits

/-- So it is at a separator. -/
theorem fits_append_divider (hsep : IsDivider sep) (hcloses : Nesting.closed.afterText t = .closed)
    (rest : Text) : fits (t ++ sep :: rest) = (t.fits && rest.fits) := by
  have cut := Nesting.readFits_append_cons Nesting.countsFit_of_depthFits hsep.1
    (n := .closed) (a := t) (by rw [hcloses]; rfl) rest
  rw [hcloses, Nesting.readFits_cons_of_not_isMark rfl hsep.1, hsep.2] at cut
  exact cut

/-- A row can be walked over if its pieces can. -/
theorem IsDivision.fits_intercalate {ts : List Text} (h : IsDivision sep ts)
    (hsep : IsDivider sep) : fits ([sep].intercalate ts) = ts.all fits := by
  induction h with
  | last _ => rw [List.intercalate_singleton, List.all_cons, List.all_nil, Bool.and_true]
  | cons _ closes later ih =>
      rw [intercalate_cons_of_ne_nil later.ne_nil, fits_append_divider hsep closes, ih,
        List.all_cons]

end Text

/-- So can spaced atoms. -/
theorem Spaced.fits_concat {as : List Atom} (h : Spaced as) :
    Text.fits (as.flatMap fun a => a.gap ++ a.text) = as.all fun a => a.text.fits := by
  induction as with
  | nil => exact Text.fits_nil
  | cons a as ih =>
      have later := ih (h.of_run (List.suffix_cons a as).isInfix)
      rw [List.flatMap_cons, List.append_assoc,
        Text.fits_blanks_append (h.gaps a List.mem_cons_self), List.all_cons]
      cases as with
      | nil => rw [List.flatMap_nil, List.append_nil, List.all_nil, Bool.and_true]
      | cons b as =>
          -- the first blank of the next gap divides
          obtain ⟨⟨hcloses, hgap⟩, -⟩ := List.isChain_cons_cons.1 h.apart
          have hblanks := h.gaps b (List.mem_cons_of_mem a List.mem_cons_self)
          obtain ⟨w, gap, hgap⟩ := List.exists_cons_of_ne_nil hgap
          rw [hgap] at hblanks
          have hw := hblanks w List.mem_cons_self
          have divides : IsDivider w :=
            ⟨Nesting.not_isMark_of_isBlank hw, (Text.isPlain_of_isBlank hw).2 _⟩
          have single : ∀ c ∈ [w], Text.isBlank c = true :=
            fun c hc => List.mem_singleton.1 hc ▸ hw
          have blank := Text.fits_blanks_append single
          rw [← later, List.flatMap_cons, hgap, List.cons_append, List.cons_append,
            Text.fits_append_divider divides hcloses]
          exact congrArg (a.text.fits && ·) (blank _).symm

end ClassOutline
