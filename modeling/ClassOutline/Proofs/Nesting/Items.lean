/-
  ClassOutline.Proofs.Nesting.Items
  ────────────────────────────────
  **WHERE NO ITEM IS FOUND.**

  Pieces between commas are dropped if they are blank, so a text without items
  is made of commas and blanks (`items_eq_nil_iff`): what is left of a piece
  always has an atom.  A piece of a dict gives no entry if no colon divides it
  (`dictEntries_eq_nil_iff`), though it may have colons, those of a `lambda`.

  What a pair of brackets encloses is read by itself, for the brackets around it
  have no unit at top level behind the first one (`eq_of_enclosed?`).
-/
import Mathlib.Data.List.Basic
import ClassOutline.Nesting.DictEntry
import ClassOutline.Proofs.Nesting.Cuts
import ClassOutline.Proofs.Text.Plain

namespace ClassOutline

namespace Text

/-! ## §1. Between commas. -/

/-- Nothing but commas and blanks. -/
def IsSeparators (t : Text) : Prop := ∀ c ∈ t, c = ',' ∨ isBlank c = true

/-- Commas and blanks are plain characters. -/
theorem IsSeparators.isPlain {t : Text} (h : IsSeparators t) {c : Char} (hc : c ∈ t) :
    Nesting.IsPlain c := by
  rcases h c hc with rfl | hblank
  · exact isPlain_of_not_mem (by decide)
  · exact isPlain_of_isBlank hblank

/-- What is found at top level is in the text. -/
theorem mem_of_hasTopLevel {t : Text} {c : Char} (h : t.hasTopLevel c = true) : c ∈ t := by
  obtain ⟨l, hl, hmatch⟩ := List.any_eq_true.1 h
  have hhead : l.head = c := eq_of_beq (Bool.and_eq_true_iff.1 hmatch).2
  have units : l.head ∈ Lexeme.concat t.lexemes :=
    List.mem_flatMap.2 ⟨l, hl, List.mem_cons_self⟩
  rwa [concat_lexemes, hhead] at units

/-- A character of units is the separator or stands in one of the pieces. -/
theorem mem_cutUnits {sep c : Char} {ls : List Lexeme} (h : c ∈ Lexeme.concat ls) :
    c = sep ∨ ∃ piece ∈ (cutUnits sep ls).1 :: (cutUnits sep ls).2, c ∈ piece := by
  induction ls with
  | nil => exact absurd h List.not_mem_nil
  | cons l ls ih =>
      rw [Lexeme.concat_cons, List.mem_cons, List.mem_append] at h
      rw [cutUnits]
      split
      · next hmatch =>
        -- the unit begins with the separator, and its tail goes to the next piece
        have hhead : l.head = sep := eq_of_beq (Bool.and_eq_true_iff.1 hmatch).2
        rcases h with rfl | htail | hlater
        · exact .inl hhead
        · exact .inr ⟨_, List.mem_cons_of_mem _ List.mem_cons_self, List.mem_append_left _ htail⟩
        · refine (ih hlater).imp_right ?_
          rintro ⟨piece, hpiece, hc⟩
          rcases List.mem_cons.1 hpiece with rfl | hpiece
          · exact ⟨_, List.mem_cons_of_mem _ List.mem_cons_self, List.mem_append_right _ hc⟩
          · exact ⟨piece, List.mem_cons_of_mem _ (List.mem_cons_of_mem _ hpiece), hc⟩
      · -- the whole unit goes to the piece it stands in front of
        have front {d : Char} (hd : d ∈ l.text) : c = d → ∃ piece ∈
            (l.text ++ (cutUnits sep ls).1) :: (cutUnits sep ls).2, c ∈ piece := by
          rintro rfl
          exact ⟨_, List.mem_cons_self, List.mem_append_left _ hd⟩
        rcases h with hhead | htail | hlater
        · exact .inr (front List.mem_cons_self hhead)
        · exact .inr (front (List.mem_cons_of_mem _ htail) rfl)
        · refine (ih hlater).imp_right ?_
          rintro ⟨piece, hpiece, hc⟩
          rcases List.mem_cons.1 hpiece with rfl | hpiece
          · exact ⟨_, List.mem_cons_self, List.mem_append_right _ hc⟩
          · exact ⟨piece, List.mem_cons_of_mem _ hpiece, hc⟩

/-- Pieces of a text of separators and blanks are blank. -/
theorem isBlank_of_mem_cutUnits {sep : Char} (hsep : Nesting.IsPlain sep) {t : Text}
    (h : ∀ c ∈ t, c = sep ∨ isBlank c = true) :
    ∀ piece ∈ (cutUnits sep t.lexemes).1 :: (cutUnits sep t.lexemes).2, ∀ c ∈ piece,
      isBlank c = true := by
  induction t with
  | nil =>
      intro piece hpiece c hc
      unfold lexemes at hpiece
      rw [Nesting.lexemes_nil] at hpiece
      obtain rfl := List.mem_singleton.1 hpiece
      exact absurd hc List.not_mem_nil
  | cons d t ih =>
      have later := ih fun c hc => h c (List.mem_cons_of_mem d hc)
      have hd := h d List.mem_cons_self
      have plain : Nesting.IsPlain d := hd.elim (fun heq => heq ▸ hsep) isPlain_of_isBlank
      rw [lexemes_cons_of_isPlain plain, cutUnits]
      intro piece hpiece c hc
      -- a separator begins a piece, anything else is blank and goes to the first one
      split at hpiece
      · rcases List.mem_cons.1 hpiece with rfl | hpiece
        · exact absurd hc List.not_mem_nil
        · exact later piece hpiece c hc
      · next hmatch =>
        have hblank : isBlank d = true := by
          refine hd.resolve_left ?_
          rintro rfl
          exact hmatch (beq_self_eq_true d)
        rcases List.mem_cons.1 hpiece with rfl | hpiece
        · rcases List.mem_cons.1 hc with rfl | hc
          · exact hblank
          · exact later _ List.mem_cons_self c hc
        · exact later piece (List.mem_cons_of_mem _ hpiece) c hc

/-- **NO PIECE IS LEFT OF SEPARATORS AND BLANKS**, and something is left of any other text. -/
theorem splitTopLevel_eq_nil_iff {sep : Char} (hsep : Nesting.IsPlain sep) {t : Text} :
    (∀ piece ∈ t.splitTopLevel sep, piece = []) ↔ ∀ c ∈ t, c = sep ∨ isBlank c = true := by
  unfold splitTopLevel
  rw [List.forall_mem_map]
  constructor
  · intro h c hc
    rw [← concat_lexemes t] at hc
    refine (mem_cutUnits hc).imp_right ?_
    rintro ⟨piece, hpiece, hmem⟩
    exact isBlank_of_trim_eq_nil (h piece hpiece) c hmem
  · intro h piece hpiece
    exact trim_eq_nil_iff.2 (isBlank_of_mem_cutUnits hsep h piece hpiece)

/-- **A TEXT HAS NO PIECES IF IT IS MADE OF COMMAS AND BLANKS.** -/
theorem commaItems_eq_nil_iff {t : Text} : t.commaItems = [] ↔ IsSeparators t := by
  have pieces : t.commaItems = [] ↔ ∀ piece ∈ t.splitTopLevel ',', piece = [] := by
    unfold commaItems
    rw [List.filter_eq_nil_iff]
    refine forall₂_congr fun piece _ => ?_
    cases piece with
    | nil => exact iff_of_true (by decide) rfl
    | cons c rest => exact iff_of_false (by simp) (List.cons_ne_nil c rest)
  rw [pieces]
  exact splitTopLevel_eq_nil_iff (isPlain_of_not_mem (by decide))

/-- A piece is not blank. -/
theorem exists_not_isBlank_of_mem_commaItems {t piece : Text} (h : piece ∈ t.commaItems) :
    ∃ c ∈ piece, isBlank c = false := by
  obtain ⟨hmem, hne⟩ := List.mem_filter.1 h
  obtain ⟨cut, -, rfl⟩ := List.mem_map.1 hmem
  refine exists_not_isBlank_of_trim_ne_nil fun hnil => ?_
  rw [hnil] at hne
  exact nomatch hne

/-! ## §2. Atoms and items. -/

/-- A unit that begins with a blank is that blank. -/
theorem tail_of_mem_lexemes {n : Nesting} {t : Text} {l : Lexeme} (hl : l ∈ n.lexemes t)
    (hblank : isBlank l.head = true) : l.tail = [] := by
  fun_induction Nesting.lexemes n t with
  | case1 => exact absurd hl List.not_mem_nil
  | case2 n c rest ih =>
      rcases List.mem_cons.1 hl with rfl | hl
      · show rest.take (n.advance c rest).2 = []
        rw [Nesting.advance_of_isBlank hblank]
        rfl
      · exact ih hl

/-- Units without atoms are blank. -/
theorem matchesTop_of_atoms_eq_nil {ls : List Lexeme} (h : (Atomized.ofUnits ls).atoms = []) :
    ∀ l ∈ ls, l.matchesTop isBlank = true := by
  induction ls with
  | nil => exact fun l hl => absurd hl List.not_mem_nil
  | cons l ls ih =>
      change (Atomized.cons l (Atomized.ofUnits ls)).atoms = [] at h
      unfold Atomized.cons at h
      -- only a blank in front of no atom leaves none
      split at h
      · next hmatch hatoms =>
        intro k hk
        rcases List.mem_cons.1 hk with rfl | hk
        · exact hmatch
        · exact ih hatoms k hk
      · exact absurd h (List.cons_ne_nil _ _)
      · exact absurd h (List.cons_ne_nil _ _)
      · exact absurd h (List.cons_ne_nil _ _)

/-- Atoms are of the units. -/
theorem mem_concat_of_mem_atoms {ls : List Lexeme} {a : Atom} (ha : a ∈ (Atomized.ofUnits ls).atoms)
    {c : Char} (hc : c ∈ a.text) : c ∈ Lexeme.concat ls := by
  induction ls generalizing a with
  | nil => exact absurd ha List.not_mem_nil
  | cons l ls ih =>
      change a ∈ (Atomized.cons l (Atomized.ofUnits ls)).atoms at ha
      show c ∈ l.text ++ Lexeme.concat ls
      unfold Atomized.cons at ha
      -- the unit is a gap, or begins the first atom
      split at ha
      · next hatoms =>
        rw [hatoms] at ih ha
        exact absurd ha List.not_mem_nil
      · next first others _ hatoms =>
        rw [hatoms] at ih
        rcases List.mem_cons.1 ha with rfl | ha
        · exact List.mem_append_right _ (ih List.mem_cons_self hc)
        · exact List.mem_append_right _ (ih (List.mem_cons_of_mem _ ha) hc)
      · next text others _ hatoms =>
        rw [hatoms] at ih
        rcases List.mem_cons.1 ha with rfl | ha
        · rcases List.mem_append.1 hc with hc | hc
          · exact List.mem_append_left _ hc
          · exact List.mem_append_right _ (ih List.mem_cons_self hc)
        · exact List.mem_append_right _ (ih (List.mem_cons_of_mem _ ha) hc)
      · rcases List.mem_cons.1 ha with rfl | ha
        · exact List.mem_append_left _ hc
        · exact List.mem_append_right _ (ih ha hc)

theorem mem_of_mem_atoms {t a : Text} (ha : a ∈ t.atoms) {c : Char} (hc : c ∈ a) : c ∈ t := by
  obtain ⟨atom, hatom, rfl⟩ := List.mem_map.1 ha
  have units := mem_concat_of_mem_atoms hatom hc
  rwa [concat_lexemes] at units

/-- **A TEXT THAT IS NOT BLANK HAS AN ITEM.** -/
theorem adjacentItems_ne_nil {t : Text} (h : ∃ c ∈ t, isBlank c = false) :
    t.adjacentItems ≠ [] := by
  have atoms : t.atomized.atoms ≠ [] := by
    intro hnil
    obtain ⟨c, hc, hblank⟩ := h
    rw [← concat_lexemes t] at hc
    obtain ⟨l, hl, hmem⟩ := List.mem_flatMap.1 hc
    have blank : isBlank l.head = true :=
      (Bool.and_eq_true_iff.1 (matchesTop_of_atoms_eq_nil hnil l hl)).2
    have only : l.text = [l.head] := congrArg (l.head :: ·) (tail_of_mem_lexemes hl blank)
    rw [only] at hmem
    obtain rfl := List.mem_singleton.1 hmem
    rw [blank] at hblank
    exact nomatch hblank
  unfold adjacentItems
  exact fun hnil => joinAtoms_ne_nil atoms (List.map_eq_nil_iff.1 hnil)

/-- The items of a text, whether commas are missing between them or not. -/
def items (t : Text) : List Text := t.commaItems.flatMap adjacentItems

theorem items_eq_nil_iff {t : Text} : t.items = [] ↔ IsSeparators t := by
  rw [← commaItems_eq_nil_iff]
  constructor
  · intro h
    refine List.eq_nil_iff_forall_not_mem.2 fun piece hpiece => ?_
    exact adjacentItems_ne_nil (exists_not_isBlank_of_mem_commaItems hpiece)
      (List.flatMap_eq_nil_iff.1 h piece hpiece)
  · intro h
    unfold items
    rw [h]
    rfl

/-! ## §3. Entries. -/

/-- Some colon of a piece divides a key from a value. -/
def IsDivided (piece : Text) : Prop := 2 ≤ (DictEntry.colonParts piece).length

/-- Parts behind a key give an entry, if they give any. -/
theorem chain?_ne_nil {key : Text} {parts : List Text} (h : parts ≠ []) :
    DictEntry.chain? key parts ≠ some [] := by
  cases parts with
  | nil => exact absurd rfl h
  | cons part parts =>
      cases parts with
      | nil =>
          intro hsome
          exact List.cons_ne_nil _ _ (Option.some.inj hsome)
      | cons next parts =>
          intro hsome
          unfold DictEntry.chain? at hsome
          split at hsome
          · cases hsome
          · obtain ⟨entries, -, hcons⟩ := Option.map_eq_some_iff.1 hsome
            exact List.cons_ne_nil _ _ hcons

/-- **A PIECE HAS AN ENTRY EXACTLY IF A COLON DIVIDES IT.** -/
theorem dictEntries_eq_nil_iff {piece : Text} :
    piece.dictEntries.entries = [] ↔ ¬ IsDivided piece := by
  unfold dictEntries IsDivided
  split
  · next hparts => exact iff_of_true rfl (by rw [hparts]; decide)
  · next hparts => exact iff_of_true rfl (by rw [hparts]; simp)
  · next hparts => exact iff_of_false (List.cons_ne_nil _ _) (by rw [hparts]; simp)
  · next key parts hsome _ hparts =>
    -- with several colons there is a chain of entries, or the piece stays one entry
    have divided : 2 ≤ (DictEntry.colonParts piece).length := by
      rw [hparts]
      exact Nat.succ_le_succ (List.length_pos_iff.2 hsome)
    refine iff_of_false ?_ (not_not_intro divided)
    split
    · next found hchain =>
      rintro rfl
      exact chain?_ne_nil hsome hchain
    · exact List.cons_ne_nil _ _

/-- The entries that are read in a piece between the commas of a dict. -/
def entriesOf (piece : Text) : List DictEntry :=
  if piece.startsWith ['*', '*'] then [] else piece.dictEntries.entries

/-- The entries of a dict. -/
def entries (enclosed : Text) : List DictEntry := enclosed.commaItems.flatMap entriesOf

theorem entries_eq_nil_iff {enclosed : Text} :
    enclosed.entries = []
      ↔ ∀ piece ∈ enclosed.commaItems,
          piece.startsWith ['*', '*'] = true ∨ ¬ IsDivided piece := by
  unfold entries
  rw [List.flatMap_eq_nil_iff]
  refine forall₂_congr fun piece _ => ?_
  unfold entriesOf
  split
  · next hstar => exact iff_of_true rfl (.inl hstar)
  · next hstar =>
    rw [dictEntries_eq_nil_iff]
    exact ⟨.inr, fun h => h.resolve_left hstar⟩

/-! ## §4. Inside brackets. -/

/-- Behind the first unit of a group nothing is at top level. -/
theorem not_isTopLevel_of_groupFrom? {n : Nesting} {t group : Text}
    (h : groupFrom? n t = some (group, [])) : ∀ l ∈ (n.lexemes t).tail, l.isTopLevel = false := by
  fun_induction groupFrom? n t generalizing group with
  | case1 n => cases h
  | case2 n c rest htop =>
      have nothing : rest.drop (n.advance c rest).2 = [] := (Prod.mk.inj (Option.some.inj h)).2
      rw [Nesting.lexemes_cons, List.tail_cons, nothing, Nesting.lexemes_nil]
      exact fun l hl => absurd hl List.not_mem_nil
  | case3 n c rest htop ih =>
      obtain ⟨⟨g, after⟩, hg, heq⟩ := Option.map_eq_some_iff.1 h
      obtain ⟨-, rfl⟩ := Prod.mk.inj heq
      rw [Nesting.lexemes_cons, List.tail_cons]
      -- the group goes on behind its first unit, so something is open in front of the second
      have deep := ih hg
      cases hrest : rest.drop (n.advance c rest).2 with
      | nil =>
          rw [Nesting.lexemes_nil]
          exact fun l hl => absurd hl List.not_mem_nil
      | cons d later =>
          rw [hrest, Nesting.lexemes_cons, List.tail_cons] at deep
          rw [Nesting.lexemes_cons]
          intro l hl
          rcases List.mem_cons.1 hl with rfl | hl
          · exact Bool.eq_false_iff.2 htop
          · exact deep l hl

/-- A group that is all of a text ends at top level. -/
theorem isTopLevel_afterText_of_groupFrom? {n : Nesting} {t group : Text}
    (h : groupFrom? n t = some (group, [])) : (n.afterText t).isTopLevel = true := by
  fun_induction groupFrom? n t generalizing group with
  | case1 n => cases h
  | case2 n c rest htop =>
      have nothing : rest.drop (n.advance c rest).2 = [] := (Prod.mk.inj (Option.some.inj h)).2
      rw [Nesting.afterText_cons, nothing, Nesting.afterText_nil]
      exact htop
  | case3 n c rest htop ih =>
      obtain ⟨⟨g, after⟩, hg, heq⟩ := Option.map_eq_some_iff.1 h
      obtain ⟨-, rfl⟩ := Prod.mk.inj heq
      rw [Nesting.afterText_cons]
      exact ih hg

/-- **WHAT IS ENCLOSED STANDS BETWEEN THE DELIMITERS**, and only the first of these is at top
level. -/
theorem eq_of_enclosed? {opener closer : Char} {t inner : Text}
    (h : enclosed? opener closer t = some inner) :
    t = opener :: (inner ++ [closer]) ∧ ∀ l ∈ t.lexemes.tail, l.isTopLevel = false := by
  unfold enclosed? enclosure at h
  split at h
  · next hinner heq =>
    obtain rfl := Option.some.inj h
    split at heq
    · next hends =>
      obtain ⟨hfirst, hlast, -⟩ := hends
      split at heq
      · cases heq
      · next group c rest hrest hgroup =>
        obtain rfl := Enclosure.around.inj heq
        obtain rfl : c = opener := Option.some.inj hfirst
        -- the group is the whole text, and its last character is the closing delimiter
        have whole : rest.dropLast ++ [closer] = rest := by
          obtain ⟨d, later, rfl⟩ := List.exists_cons_of_ne_nil hrest
          rw [List.getLast?_cons_cons] at hlast
          exact List.dropLast_append_getLast? closer hlast
        rw [whole]
        exact ⟨rfl, not_isTopLevel_of_groupFrom? hgroup⟩
      · cases heq
    · cases heq
  · cases h

section
variable {opener closer : Char} {t inner : Text}

/-- A group has nothing at top level but its first character. -/
theorem matchesTop_of_enclosed? (h : enclosed? opener closer t = some inner) {p : Char → Bool}
    (hp : p opener = false) {l : Lexeme} (hl : l ∈ t.lexemes) : l.matchesTop p = false := by
  obtain ⟨htext, inside⟩ := eq_of_enclosed? h
  unfold lexemes at hl inside
  rw [htext, Nesting.lexemes_cons] at hl inside
  rcases List.mem_cons.1 hl with rfl | hl
  · unfold Lexeme.matchesTop
    dsimp only
    rw [hp, Bool.and_false]
  · unfold Lexeme.matchesTop
    rw [inside l hl, Bool.false_and]

theorem hasTopLevel_of_enclosed? (h : enclosed? opener closer t = some inner) {c : Char}
    (hc : opener ≠ c) : t.hasTopLevel c = false := by
  unfold hasTopLevel
  refine List.any_eq_false.2 fun l hl => ?_
  rw [matchesTop_of_enclosed? h (p := (· == c)) (beq_false_of_ne hc) hl]
  exact Bool.false_ne_true

/-- A group is one atom. -/
theorem atoms_of_enclosed? (h : enclosed? opener closer t = some inner)
    (hblank : isBlank opener = false) : t.atoms = [t] := by
  have hne : t ≠ [] := by
    rw [(eq_of_enclosed? h).1]
    exact List.cons_ne_nil _ _
  have unspaced : t.IsUnspaced := ⟨hne, fun l hl => matchesTop_of_enclosed? h hblank hl⟩
  exact unspaced.atoms_eq

end

end Text

end ClassOutline
