/-
  ClassOutline.Proofs.Initializer.StringLiterals
  ────────────────────────────────
  **STRING LITERALS ARE READ EXACTLY.**

  Whether a text is one string literal is found by walking through it, with
  escapes and with the delimiter that the walk opened.  What stands in it is found
  without a walk: the delimiters are tried in a fixed order at both ends.  The two
  agree because the first delimiter in that order that the text begins with is the
  one that the walk opens (`Quote.opening?_eq_find?`), and because a string that
  was opened ends in its own delimiter (`exists_contents_of_groupFrom?`).

  Literals with blanks between them are the atoms of their row, so their contents
  are put together in the order in which they are written.
-/
import ClassOutline.Proofs.Initializer.Literals
import ClassOutline.Proofs.Nesting.Items
import ClassOutline.Proofs.Nesting.Regrouping

namespace ClassOutline

/-! ## §1. The delimiter that opens. -/

namespace Quote

/-- **THE DELIMITER THAT OPENS IS THE FIRST ONE THE TEXT BEGINS WITH**, the triple ones first. -/
theorem opening?_eq_find? (c : Char) (rest : Text) :
    opening? c rest = [tripleSingle, tripleDouble, single, double].find? fun q =>
      Text.startsWith (c :: rest) q.delimiter := by
  by_cases hsingle : c = '\''
  · subst hsingle
    have triple : Text.startsWith ('\'' :: rest) tripleSingle.delimiter
        = rest.startsWith ['\'', '\''] := rfl
    unfold opening?
    rw [if_pos rfl, List.find?_cons, triple]
    cases rest.startsWith ['\'', '\''] with
    | true => rfl
    | false => rfl
  · by_cases hdouble : c = '"'
    · subst hdouble
      have triple : Text.startsWith ('"' :: rest) tripleDouble.delimiter
          = rest.startsWith ['"', '"'] := rfl
      unfold opening?
      rw [if_neg (by decide), if_pos rfl, List.find?_cons, List.find?_cons, triple]
      cases rest.startsWith ['"', '"'] with
      | true => rfl
      | false => rfl
    · have bare : ¬ IsMark c := fun hmark => hmark.elim hsingle hdouble
      unfold opening?
      rw [if_neg hsingle, if_neg hdouble]
      refine (List.find?_eq_none.2 fun q _ => ?_).symm
      rw [startsWith_delimiter bare]
      exact Bool.false_ne_true

theorem exists_opening? {c : Char} (h : IsMark c) (rest : Text) : ∃ q, opening? c rest = some q := by
  rcases h with rfl | rfl
  · exact ⟨_, rfl⟩
  · exact ⟨_, rfl⟩

/-- A delimiter in front is divided from the rest where its unit ends. -/
theorem eq_delimiter_append {c : Char} {rest : Text} {q : Quote}
    (h : Text.startsWith (c :: rest) q.delimiter = true) :
    c :: rest = q.delimiter ++ rest.drop (q.delimiter.length - 1) := by
  have divided := List.prefix_iff_eq_append.1 (List.isPrefixOf_iff_prefix.1 h)
  cases q with
  | single | double | tripleSingle | tripleDouble => exact divided.symm

end Quote

/-! ## §2. An open string ends in its delimiter. -/

/-- Nothing is open but a string. -/
def Quote.opened (q : Quote) : Nesting := { Nesting.closed with quote := some q }

/-- A unit inside a string leaves it open unless it is its delimiter. -/
theorem Quote.advance_opened (q : Quote) (c : Char) (rest : Text) :
    (q.opened.advance c rest).1 = q.opened
      ∨ Text.startsWith (c :: rest) q.delimiter = true
        ∧ q.opened.advance c rest = (.closed, q.delimiter.length - 1) := by
  unfold Nesting.advance
  dsimp only [opened]
  split
  · exact .inl rfl
  · split
    · next hcloses => exact .inr ⟨hcloses, rfl⟩
    · exact .inl rfl

/-- A delimiter in front opens its string. -/
theorem Nesting.advance_of_opening? {c : Char} {rest : Text} {q : Quote}
    (h : Quote.opening? c rest = some q) :
    Nesting.closed.advance c rest = (q.opened, q.delimiter.length - 1) := by
  unfold advance
  dsimp only [closed]
  rw [h]
  rfl

namespace Text

/-- What closes a string that is open is its delimiter. -/
theorem exists_contents_of_groupFrom? {q : Quote} {t group : Text}
    (h : groupFrom? q.opened t = some (group, [])) : ∃ contents, t = contents ++ q.delimiter := by
  -- along the units of the string
  generalize hn : q.opened = n at h
  fun_induction groupFrom? n t generalizing group with
  | case1 n => cases h
  | case2 n c rest htop =>
      subst hn
      have nothing : rest.drop (q.opened.advance c rest).2 = [] :=
        (Prod.mk.inj (Option.some.inj h)).2
      rcases q.advance_opened c rest with hopen | ⟨hstarts, hcloses⟩
      · rw [hopen] at htop
        exact absurd htop Bool.false_ne_true
      · rw [hcloses] at nothing
        refine ⟨[], (Quote.eq_delimiter_append hstarts).trans ?_⟩
        rw [nothing, List.append_nil, List.nil_append]
  | case3 n c rest htop ih =>
      subst hn
      obtain ⟨⟨g, after⟩, hg, heq⟩ := Option.map_eq_some_iff.1 h
      obtain ⟨-, rfl⟩ := Prod.mk.inj heq
      rcases q.advance_opened c rest with hopen | ⟨-, hcloses⟩
      · obtain ⟨contents, hrest⟩ := ih hopen.symm hg
        refine ⟨c :: (rest.take (q.opened.advance c rest).2 ++ contents), ?_⟩
        rw [List.cons_append, List.append_assoc, ← hrest, List.take_append_drop]
      · rw [hcloses] at htop
        exact absurd rfl htop

/-- **A GROUP THAT A DELIMITER OPENS STANDS BETWEEN TWO OF THEM.** -/
theorem exists_contents_of_leadingGroup? {c : Char} {rest group : Text} {q : Quote}
    (hopen : Quote.opening? c rest = some q)
    (h : leadingGroup? (c :: rest) = some (group, [])) :
    ∃ contents, c :: rest = q.delimiter ++ (contents ++ q.delimiter) := by
  unfold leadingGroup? at h
  rw [groupFrom?, Nesting.advance_of_opening? hopen, if_neg (by exact Bool.false_ne_true)] at h
  obtain ⟨⟨g, after⟩, hg, heq⟩ := Option.map_eq_some_iff.1 h
  obtain ⟨-, rfl⟩ := Prod.mk.inj heq
  obtain ⟨contents, hrest⟩ := exists_contents_of_groupFrom? hg
  refine ⟨contents, ?_⟩
  rw [← hrest]
  exact Quote.eq_delimiter_append (Quote.startsWith_of_opening? hopen)

/-! ## §3. What a literal is to the walk. -/

theorem not_isMark_of_isLiteralLetter {c : Char} (h : isLiteralLetter c = true) :
    ¬ Quote.IsMark c := by
  rintro (rfl | rfl)
  · exact absurd h (by decide)
  · exact absurd h (by decide)

/-- The letters in front of a literal are read one by one, and none of them is a blank. -/
theorem isPlain_of_isLiteralLetter {c : Char} (h : isLiteralLetter c = true) :
    Nesting.IsPlain c ∧ isBlank c = false := by
  have letters : (['r', 'b', 'u', 'f', 'R', 'B', 'U', 'F'].all isNameChar) = true := by decide
  have hname : isNameChar c = true := List.all_eq_true.1 letters c (of_decide_eq_true h)
  exact ⟨isPlain_of_isNameChar hname, not_isBlank_of_isNameChar hname⟩

/-- The parts of a literal are letters, and what begins with a quotation mark. -/
theorem literalParts?_eq_some_iff {t letters body : Text} :
    literalParts? t = some (letters, body)
      ↔ t = letters ++ body ∧ letters.length ≤ 2 ∧ (∀ c ∈ letters, isLiteralLetter c = true)
        ∧ ∃ c rest, body = c :: rest ∧ Quote.IsMark c := by
  unfold literalParts?
  generalize hunquoted : (fun c : Char => c != '\'' && c != '"') = unquoted
  constructor
  · intro h
    extract_lets front back at h
    split at h
    · next hparts =>
      obtain ⟨rfl, rfl⟩ := Prod.mk.inj (Option.some.inj h)
      simp only [Bool.and_eq_true, decide_eq_true_eq] at hparts
      obtain ⟨⟨hfilled, hlength⟩, hletters⟩ := hparts
      refine ⟨List.takeWhile_append_dropWhile.symm, hlength, List.all_eq_true.1 hletters, ?_⟩
      cases hback : back with
      | nil =>
          rw [hback] at hfilled
          exact nomatch hfilled
      | cons c rest =>
          refine ⟨c, rest, rfl, Classical.byContradiction fun hmark => ?_⟩
          have stops := List.head?_dropWhile_not unquoted t
          rw [show t.dropWhile unquoted = c :: rest from hback, ← hunquoted] at stops
          exact absurd (not_quote_of_not_isMark hmark) (Bool.eq_false_iff.1 stops)
    · cases h
  · rintro ⟨rfl, hlength, hletters, c, rest, rfl, hmark⟩
    have before : ∀ d ∈ letters, unquoted d = true := fun d hd =>
      hunquoted ▸ not_quote_of_not_isMark (not_isMark_of_isLiteralLetter (hletters d hd))
    have stops : ¬ unquoted c = true := by
      rw [← hunquoted]
      rcases hmark with rfl | rfl <;> decide
    rw [List.takeWhile_append_of_pos before, List.takeWhile_cons_of_neg stops, List.append_nil,
      List.dropWhile_append_of_pos before, List.dropWhile_cons_of_neg stops]
    refine if_pos ?_
    rw [List.all_eq_true.2 hletters, decide_eq_true hlength]
    rfl

/-- A literal is letters and a group. -/
theorem exists_of_isStringLiteral {t : Text} (h : t.isStringLiteral = true) :
    ∃ letters c rest group, t = letters ++ c :: rest ∧ letters.length ≤ 2
      ∧ (∀ d ∈ letters, isLiteralLetter d = true) ∧ Quote.IsMark c
      ∧ leadingGroup? (c :: rest) = some (group, []) := by
  unfold isStringLiteral at h
  split at h
  · exact nomatch h
  · next letters body hparts =>
    obtain ⟨rfl, hlength, hletters, c, rest, rfl, hmark⟩ := literalParts?_eq_some_iff.1 hparts
    obtain ⟨⟨group, after⟩, hgroup, hafter⟩ := (Option.any_eq_true _ _).1 h
    obtain rfl := List.isEmpty_iff.1 hafter
    exact ⟨letters, c, rest, group, rfl, hlength, hletters, hmark, hgroup⟩

/-- Letters in front of a text are units of their own. -/
theorem lexemes_append_of_letters {letters : Text} (h : ∀ c ∈ letters, isLiteralLetter c = true)
    (t : Text) :
    (∀ l ∈ lexemes (letters ++ t), l ∈ t.lexemes ∨ isBlank l.head = false)
      ∧ Nesting.closed.afterText (letters ++ t) = Nesting.closed.afterText t := by
  induction letters with
  | nil => exact ⟨fun l hl => .inl hl, rfl⟩
  | cons c letters ih =>
      obtain ⟨hplain, hblank⟩ := isPlain_of_isLiteralLetter (h c List.mem_cons_self)
      obtain ⟨units, after⟩ := ih fun d hd => h d (List.mem_cons_of_mem c hd)
      unfold lexemes at units ⊢
      rw [List.cons_append, Nesting.lexemes_cons_of_not_isMark rfl hplain.1,
        Nesting.afterText_cons_of_not_isMark rfl hplain.1, hplain.2]
      refine ⟨fun l hl => ?_, after⟩
      rcases List.mem_cons.1 hl with rfl | hl
      · exact .inr hblank
      · exact units l hl

/-- **A LITERAL IS ONE ATOM, AND NOTHING IS OPEN BEHIND IT.** -/
theorem isUnspaced_of_isStringLiteral {t : Text} (h : t.isStringLiteral = true) :
    t.IsUnspaced ∧ Nesting.closed.afterText t = .closed := by
  obtain ⟨letters, c, rest, group, rfl, -, hletters, hmark, hgroup⟩ := exists_of_isStringLiteral h
  obtain ⟨units, after⟩ := lexemes_append_of_letters hletters (c :: rest)
  refine ⟨⟨List.append_ne_nil_of_right_ne_nil _ (List.cons_ne_nil c rest), fun l hl => ?_⟩, ?_⟩
  · rcases units l hl with hl | hblank
    · -- of the group only the quotation mark is at top level
      have inside := not_isTopLevel_of_groupFrom? hgroup
      unfold lexemes at hl
      rw [Nesting.lexemes_cons] at hl inside
      rcases List.mem_cons.1 hl with rfl | hl
      · refine Bool.and_eq_false_imp.2 fun _ => Bool.eq_false_iff.2 fun hblank => ?_
        exact Nesting.not_isMark_of_isBlank hblank hmark
      · unfold Lexeme.matchesTop
        rw [inside l hl, Bool.false_and]
    · unfold Lexeme.matchesTop
      rw [hblank, Bool.and_false]
  · rw [after]
    exact Nesting.eq_closed (isTopLevel_afterText_of_groupFrom? hgroup)

end Text

/-! ## §4. Literals taken apart. -/

/-- A string literal taken apart: letters, and contents between two delimiters of a kind. -/
structure StringLiteral where
  letters : Text
  quote : Quote
  contents : Text
  deriving DecidableEq, Repr

namespace StringLiteral

/-- The literal without the letters in front. -/
def body (l : StringLiteral) : Text := l.quote.delimiter ++ (l.contents ++ l.quote.delimiter)

/-- The literal as it is written. -/
def text (l : StringLiteral) : Text := l.letters ++ l.body

/-- The text is one literal to the walk, which opens it with its delimiter. -/
structure IsRead (l : StringLiteral) : Prop where
  short : l.letters.length ≤ 2
  letters : ∀ c ∈ l.letters, Text.isLiteralLetter c = true
  opens : (Nesting.closed.step l.body).1.quote = some l.quote
  literal : l.text.isStringLiteral = true

theorem isRead_iff {l : StringLiteral} :
    l.IsRead ↔ l.letters.length ≤ 2 ∧ l.letters.all Text.isLiteralLetter = true
      ∧ (Nesting.closed.step l.body).1.quote = some l.quote ∧ l.text.isStringLiteral = true :=
  ⟨fun ⟨short, letters, opens, literal⟩ => ⟨short, List.all_eq_true.2 letters, opens, literal⟩,
    fun ⟨short, letters, opens, literal⟩ => ⟨short, List.all_eq_true.1 letters, opens, literal⟩⟩

instance (l : StringLiteral) : Decidable l.IsRead := decidable_of_iff _ isRead_iff.symm

theorem exists_body (l : StringLiteral) : ∃ c rest, l.body = c :: rest ∧ Quote.IsMark c := by
  obtain ⟨letters, quote, contents⟩ := l
  cases quote with
  | single | tripleSingle => exact ⟨_, _, rfl, .inl rfl⟩
  | double | tripleDouble => exact ⟨_, _, rfl, .inr rfl⟩

variable {l : StringLiteral}

theorem IsRead.literalParts? (h : l.IsRead) :
    Text.literalParts? l.text = some (l.letters, l.body) :=
  Text.literalParts?_eq_some_iff.2 ⟨rfl, h.short, h.letters, l.exists_body⟩

/-- The delimiter of a literal is the first one its body begins with. -/
theorem IsRead.find?_delimiter (h : l.IsRead) :
    [Quote.tripleSingle, .tripleDouble, .single, .double].find?
      (fun q => Text.startsWith l.body q.delimiter) = some l.quote := by
  obtain ⟨c, rest, hbody, hmark⟩ := l.exists_body
  obtain ⟨q, hq⟩ := Quote.exists_opening? hmark rest
  have opened : (Nesting.closed.step l.body).1.quote = some q := by
    rw [hbody]
    exact congrArg (fun step => step.1.quote) (Nesting.advance_of_opening? hq)
  rw [hbody, ← Quote.opening?_eq_find?, hq, ← opened, h.opens]

/-- **THE CONTENTS OF A LITERAL STAND BETWEEN ITS DELIMITERS.** -/
theorem IsRead.literalContents? (h : l.IsRead) : Text.literalContents? l.text = some l.contents := by
  -- delimiters tried before are not there, and that of the literal is at both ends
  obtain ⟨starts, before, after, order, absent⟩ :=
    List.find?_eq_some_iff_append.1 h.find?_delimiter
  have ends : Text.endsWith l.body l.quote.delimiter = true :=
    List.isSuffixOf_iff_suffix.2 ⟨l.quote.delimiter ++ l.contents, List.append_assoc _ _ _⟩
  have length : l.body.length = 2 * l.quote.delimiter.length + l.contents.length := by
    unfold body
    rw [List.length_append, List.length_append]
    omega
  have inner : (l.body.drop l.quote.delimiter.length).take
      (l.body.length - 2 * l.quote.delimiter.length) = l.contents := by
    rw [length, Nat.add_sub_cancel_left]
    unfold body
    rw [List.drop_left, List.take_left]
  unfold Text.literalContents?
  rw [h.literalParts?]
  dsimp only
  rw [order, List.findSome?_append, List.findSome?_cons, if_pos ⟨by omega, starts, ends⟩, inner,
    List.findSome?_eq_none_iff.2 fun q hq => ?_]
  · rfl
  · refine if_neg fun fits => ?_
    have missing := absent q hq
    rw [fits.2.1] at missing
    exact nomatch missing

/-- **A TEXT THAT IS ONE LITERAL CAN BE TAKEN APART.** -/
theorem exists_isRead {t : Text} (h : t.isStringLiteral = true) :
    ∃ l : StringLiteral, l.IsRead ∧ t = l.text := by
  obtain ⟨letters, c, rest, group, rfl, hshort, hletters, hmark, hgroup⟩ :=
    Text.exists_of_isStringLiteral h
  obtain ⟨q, hq⟩ := Quote.exists_opening? hmark rest
  obtain ⟨contents, hbody⟩ := Text.exists_contents_of_leadingGroup? hq hgroup
  have opens : (Nesting.closed.step (c :: rest)).1.quote = some q :=
    congrArg (fun step => step.1.quote) (Nesting.advance_of_opening? hq)
  rw [hbody] at opens h
  exact ⟨⟨letters, q, contents⟩, ⟨hshort, hletters, opens, h⟩, congrArg (letters ++ ·) hbody⟩

/-- One literal has its contents for a value. -/
theorem IsRead.stringValue? (h : l.IsRead) : Text.stringValue? l.text = some l.contents := by
  unfold Text.stringValue?
  rw [if_pos h.literal, h.literalContents?]

end StringLiteral

namespace Text

/-! ## §5. Literals side by side. -/

/-- **LITERALS WITH BLANKS BETWEEN THEM ARE ATOMS.** -/
theorem spaced_of_isRead {row : List (Text × StringLiteral)} (hread : ∀ p ∈ row, p.2.IsRead)
    (hblank : ∀ p ∈ row, ∀ c ∈ p.1, isBlank c = true) (hapart : ∀ p ∈ row.tail, p.1 ≠ []) :
    Spaced (row.map fun p => ⟨p.1, p.2.text⟩) := by
  induction row with
  | nil => exact Spaced.nil
  | cons p row ih =>
      obtain ⟨unspaced, closed⟩ :=
        isUnspaced_of_isStringLiteral (hread p List.mem_cons_self).literal
      refine .cons unspaced (hblank p List.mem_cons_self) (fun b hb => ⟨closed, ?_⟩)
        (ih (fun q hq => hread q (List.mem_cons_of_mem p hq))
          (fun q hq => hblank q (List.mem_cons_of_mem p hq))
          fun q hq => hapart q (List.mem_of_mem_tail hq))
      obtain ⟨q, hq, rfl⟩ := List.mem_map.1 (List.mem_of_mem_head? hb)
      exact hapart q hq

theorem mapM_literalContents? {ls : List StringLiteral} (h : ∀ l ∈ ls, l.IsRead) :
    (ls.map StringLiteral.text).mapM literalContents? = some (ls.map StringLiteral.contents) := by
  induction ls with
  | nil => rfl
  | cons l ls ih =>
      rw [List.map_cons, List.mapM_cons, (h l List.mem_cons_self).literalContents?,
        ih fun m hm => h m (List.mem_cons_of_mem l hm)]
      rfl

/-- **SEVERAL LITERALS ARE READ AS THEIR CONTENTS PUT TOGETHER.** -/
theorem stringValue?_row {row : List (Text × StringLiteral)} (hlong : 2 ≤ row.length)
    (hread : ∀ p ∈ row, p.2.IsRead) (hblank : ∀ p ∈ row, ∀ c ∈ p.1, isBlank c = true)
    (hapart : ∀ p ∈ row.tail, p.1 ≠ []) :
    stringValue? (row.flatMap fun p => p.1 ++ p.2.text)
      = some (row.flatMap fun p => p.2.contents) := by
  have atoms : atoms (row.flatMap fun p => p.1 ++ p.2.text)
      = (row.map Prod.snd).map StringLiteral.text := by
    have divided := (spaced_of_isRead hread hblank hapart).atomized_concat
    rw [List.flatMap_map] at divided
    unfold Text.atoms
    rw [divided, List.map_map, List.map_map]
    rfl
  have several : 2 ≤ ((row.map Prod.snd).map StringLiteral.text).length := by
    rwa [List.length_map, List.length_map]
  -- one literal would be one atom
  have notOne : ¬ isStringLiteral (row.flatMap fun p => p.1 ++ p.2.text) = true := by
    intro hone
    have one := (isUnspaced_of_isStringLiteral hone).1.atoms_eq
    rw [← atoms, one, List.length_singleton] at several
    exact absurd several (by decide)
  have reads : ∀ l ∈ row.map Prod.snd, l.IsRead := List.forall_mem_map.2 hread
  have literals : ((row.map Prod.snd).map StringLiteral.text).all isStringLiteral = true :=
    List.all_eq_true.2 (List.forall_mem_map.2 fun l hl => (reads l hl).literal)
  unfold stringValue?
  rw [if_neg notOne, atoms]
  dsimp only
  rw [if_pos ⟨several, literals⟩, mapM_literalContents? reads, List.map_map]
  rfl

/-- **STRING LITERALS ARE READ EXACTLY.**  Literals with blanks between them are read as their
contents put together, and one by itself as its contents.  Every text that is one literal can be
taken apart for that: into its letters, and contents between two of the delimiter that is opened
behind the letters. -/
theorem stringValue?_literals :
    (∀ (first : StringLiteral) (others : List (Text × StringLiteral)), first.IsRead →
        (∀ p ∈ others, p.1 ≠ [] ∧ (∀ c ∈ p.1, isBlank c = true) ∧ p.2.IsRead) →
        stringValue? (first.text ++ others.flatMap fun p => p.1 ++ p.2.text)
          = some (first.contents ++ others.flatMap fun p => p.2.contents))
      ∧ ∀ t : Text, t.isStringLiteral = true →
        ∃ l : StringLiteral, l.IsRead ∧ t = l.text ∧ stringValue? t = some l.contents := by
  refine ⟨fun first others hfirst hothers => ?_, fun t h => ?_⟩
  · cases others with
    | nil =>
        rw [List.flatMap_nil, List.flatMap_nil, List.append_nil, List.append_nil]
        exact hfirst.stringValue?
    | cons second others =>
        refine @stringValue?_row (([], first) :: second :: others) (Nat.le_add_left 2 _) ?_ ?_ ?_
        · exact List.forall_mem_cons.2 ⟨hfirst, fun p hp => (hothers p hp).2.2⟩
        · exact List.forall_mem_cons.2
            ⟨fun c hc => absurd hc List.not_mem_nil, fun p hp => (hothers p hp).2.1⟩
        · exact fun p hp => (hothers p hp).1
  · obtain ⟨l, hread, rfl⟩ := StringLiteral.exists_isRead h
    exact ⟨l, hread, rfl, hread.stringValue?⟩

/-- A quotation mark and an escaped one in a triple string, an empty string behind a line break, and
quotation marks of the other kind up to the end. -/
theorem stringValue?_literals_of_mixed :
    let triple : StringLiteral := ⟨"rB".toList, .tripleSingle, "it's \\'".toList⟩
    let empty : StringLiteral := ⟨[], .double, []⟩
    let other : StringLiteral := ⟨['F'], .double, "''a'''".toList⟩
    let row : Text := "rB'''it's \\'''' \n\"\"\tF\"''a'''\"".toList
    (triple.IsRead ∧ empty.IsRead ∧ other.IsRead)
      ∧ stringValue? row = some "it's \\'''a'''".toList
      ∧ other.text.isStringLiteral = true
      ∧ ∃ l : StringLiteral, l.IsRead ∧ other.text = l.text
        ∧ stringValue? other.text = some l.contents := by
  intro triple empty other row
  have readTriple : triple.IsRead := by decide +kernel
  have readEmpty : empty.IsRead := by decide +kernel
  have readOther : other.IsRead := by decide +kernel
  have others : ∀ p ∈ [(" \n".toList, empty), ("\t".toList, other)],
      p.1 ≠ [] ∧ (∀ c ∈ p.1, isBlank c = true) ∧ p.2.IsRead :=
    List.forall_mem_cons.2 ⟨⟨List.cons_ne_nil _ _, List.all_eq_true.1 rfl, readEmpty⟩,
      List.forall_mem_singleton.2 ⟨List.cons_ne_nil _ _, List.all_eq_true.1 rfl, readOther⟩⟩
  exact ⟨⟨readTriple, readEmpty, readOther⟩, stringValue?_literals.1 triple _ readTriple others,
    readOther.literal, stringValue?_literals.2 _ readOther.literal⟩

end Text

end ClassOutline
