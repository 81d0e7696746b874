/-
  ClassOutline.Proofs.Nesting.Rows
  ────────────────────────────────
  **TEXTS IN A ROW, AND WHERE THEY COME APART AGAIN.**

  Texts are joined by commas or by spaces.  Commas divide where they were put, if
  the texts have none at top level (`commaItems_join`).  Spaces part atoms: texts
  without blanks at top level, each of them atomic, are the atoms of what they are
  joined to (`atomized_join`).  Whether they stay apart as items is decided pair
  by pair, so a row is taken apart if no pair continues (`adjacentItems_join`) and
  stays one item if all pairs do (`adjacentItems_join_of_continues`).

  Where some commas are missing a row is made of runs: commas between the runs,
  spaces inside them (`joinRuns`).  A choice between comma and bare space at every
  place is a division into runs that are not empty.
-/
import Mathlib.Data.List.Chain
import ClassOutline.Nesting.DictEntry
import ClassOutline.Proofs.Nesting.Cuts
import ClassOutline.Proofs.Text.Plain

namespace ClassOutline.Text

/-! ## §1. Texts that are joined. -/

theorem isPlain_comma : Nesting.IsPlain ',' := isPlain_of_not_mem (by decide)

theorem isPlain_colon : Nesting.IsPlain ':' := isPlain_of_not_mem (by decide)

theorem isPlain_space : Nesting.IsPlain ' ' := isPlain_of_not_mem (by decide)

theorem join_comma_cons_cons (t u : Text) (ts : List Text) :
    join ", " (t :: u :: ts) = t ++ ',' :: ' ' :: join ", " (u :: ts) :=
  join_cons_cons ", " t u ts

theorem join_space_cons_cons (t u : Text) (ts : List Text) :
    join " " (t :: u :: ts) = t ++ ' ' :: join " " (u :: ts) :=
  join_cons_cons " " t u ts

@[simp]
theorem join_singleton (sep : String) (t : Text) : join sep [t] = t := List.append_nil t

theorem join_cons_eq_append (sep : String) (t : Text) (ts : List Text) :
    ∃ rest, join sep (t :: ts) = t ++ rest := by
  cases ts with
  | nil => exact ⟨[], rfl⟩
  | cons u ts => exact ⟨_, join_cons_cons sep t u ts⟩

/-- Plain characters in front of a text that keeps the nesting. -/
theorem Keeps.plain_append {avoid : Char → Bool} {front rest : Text}
    (hfront : ∀ c ∈ front, Nesting.IsPlain c ∧ avoid c = false) (hrest : Keeps avoid rest) :
    Keeps avoid (front ++ rest) := by
  induction front with
  | nil => exact hrest
  | cons c front ih =>
      obtain ⟨plain, havoid⟩ := hfront c List.mem_cons_self
      exact .cons plain havoid (ih fun d hd => hfront d (List.mem_cons_of_mem c hd))

/-- Texts that keep the nesting do so with plain characters between them. -/
theorem keeps_join_of_plain {avoid : Char → Bool} {sep : String} {ts : List Text}
    (h : ∀ t ∈ ts, Keeps avoid t) {w : Char} {behind : Text} (hsep : sep.toList = w :: behind)
    (hplain : ∀ c ∈ w :: behind, Nesting.IsPlain c ∧ avoid c = false) :
    Keeps avoid (join sep ts) := by
  induction ts with
  | nil => exact .nil
  | cons t ts ih =>
      have ht := h t List.mem_cons_self
      have later := ih fun u hu => h u (List.mem_cons_of_mem t hu)
      cases ts with
      | nil =>
          rw [join_singleton]
          exact ht
      | cons u ts =>
          rw [join_cons_cons, hsep]
          exact ht.append_cons (hplain w List.mem_cons_self).1.1 (.plain_append hplain later)

theorem keeps_join_comma {avoid : Char → Bool} (hcomma : avoid ',' = false)
    (hspace : avoid ' ' = false) {ts : List Text} (h : ∀ t ∈ ts, Keeps avoid t) :
    Keeps avoid (join ", " ts) := by
  refine keeps_join_of_plain h rfl fun c hc => ?_
  rcases List.mem_cons.1 hc with rfl | hc
  · exact ⟨isPlain_comma, hcomma⟩
  · obtain rfl := List.mem_singleton.1 hc
    exact ⟨isPlain_space, hspace⟩

theorem keeps_join_space {avoid : Char → Bool} (hspace : avoid ' ' = false) {ts : List Text}
    (h : ∀ t ∈ ts, Keeps avoid t) : Keeps avoid (join " " ts) := by
  refine keeps_join_of_plain h rfl fun c hc => ?_
  obtain rfl := List.mem_singleton.1 hc
  exact ⟨isPlain_space, hspace⟩

/-! ## §2. Pieces between commas. -/

theorem splitTopLevel_space_cons {sep : Char} (hsep : sep ≠ ' ') (t : Text) :
    splitTopLevel sep (' ' :: t) = splitTopLevel sep t := by
  have noMatch : Lexeme.matchesTop (· == sep) ⟨' ', [], .closed⟩ = false :=
    beq_false_of_ne fun h => hsep h.symm
  unfold splitTopLevel
  rw [lexemes_cons_of_isPlain isPlain_space, cutUnits, noMatch]
  rfl

/-- **COMMAS DIVIDE WHERE THEY WERE PUT.** -/
theorem splitTopLevel_join {ts : List Text} (hne : ts ≠ [])
    (h : ∀ t ∈ ts, t.Keeps (· == ',') ∧ t.trim = t) : splitTopLevel ',' (join ", " ts) = ts := by
  induction ts with
  | nil => exact absurd rfl hne
  | cons t ts ih =>
      obtain ⟨keeps, trimmed⟩ := h t List.mem_cons_self
      cases ts with
      | nil => rw [join_singleton, keeps.splitTopLevel_eq rfl, trimmed]
      | cons u ts =>
          rw [join_comma_cons_cons, keeps.splitTopLevel_append rfl isPlain_comma, trimmed,
            splitTopLevel_space_cons (by decide),
            ih (List.cons_ne_nil u ts) fun v hv => h v (List.mem_cons_of_mem t hv)]

@[simp]
theorem splitTopLevel_nil (sep : Char) : splitTopLevel sep [] = [[]] := by
  have empty : Keeps (· == sep) [] := .nil
  exact empty.splitTopLevel_eq (beq_self_eq_true sep)

theorem commaItems_join {ts : List Text}
    (h : ∀ t ∈ ts, t.Keeps (· == ',') ∧ t.trim = t ∧ t ≠ []) : (join ", " ts).commaItems = ts := by
  unfold commaItems
  cases ts with
  | nil =>
      show (splitTopLevel ',' []).filter _ = []
      rw [splitTopLevel_nil]
      rfl
  | cons t ts =>
      rw [splitTopLevel_join (List.cons_ne_nil t ts) fun u hu => ⟨(h u hu).1, (h u hu).2.1⟩]
      refine List.filter_eq_self.2 fun u hu => ?_
      cases hu' : u with
      | nil => exact absurd hu' (h u hu).2.2
      | cons c u => rfl

/-! ## §3. Atoms between spaces. -/

/-- A text that no blank parts and that is not empty. -/
structure Atomic (t : Text) : Prop where
  keeps : Keeps isBlank t
  nonempty : t ≠ []

namespace Atomic

variable {t : Text}

theorem isUnspaced (h : Atomic t) : t.IsUnspaced := h.keeps.isUnspaced (fun _ hc => hc) h.nonempty

theorem atoms_eq (h : Atomic t) : t.atoms = [t] := h.isUnspaced.atoms_eq

theorem not_isBlank_head (h : Atomic t) : ∀ c ∈ t.head?, isBlank c = false := by
  intro c hc
  obtain ⟨rest, rfl⟩ := List.head?_eq_some_iff.1 hc
  have first : ∃ tail, (⟨c, tail, .closed⟩ : Lexeme) ∈ Nesting.closed.lexemes (c :: rest) := by
    rw [Nesting.lexemes_cons]
    exact ⟨_, List.mem_cons_self⟩
  obtain ⟨tail, hmem⟩ := first
  exact ((h.keeps .closed rfl).2 _ hmem rfl).2

/-- A blank at the end would be at top level, for nothing is open in front of it. -/
theorem not_isBlank_getLast (h : Atomic t) : ∀ c ∈ t.getLast?, isBlank c = false := by
  intro c hc
  obtain ⟨front, rfl⟩ := List.getLast?_eq_some_iff.1 hc
  refine Bool.eq_false_iff.2 fun hblank => ?_
  have mark := Nesting.not_isMark_of_isBlank hblank
  have before : Nesting.closed.afterText front = .closed := by
    have ends := (h.keeps .closed rfl).1
    rwa [Nesting.afterText_append_blank hblank, Nesting.afterText_nil] at ends
  have units := (Nesting.lexemes_append_cons mark (n := .closed) (a := front)
    (by rw [before]; rfl) []).1
  rw [before, Nesting.lexemes_cons_of_not_isMark rfl mark] at units
  have last : (⟨c, [], .closed⟩ : Lexeme) ∈ Nesting.closed.lexemes (front ++ [c]) := by
    rw [units]
    exact List.mem_append_right _ List.mem_cons_self
  have noBlank : isBlank c = false := ((h.keeps .closed rfl).2 _ last rfl).2
  rw [noBlank] at hblank
  exact nomatch hblank

theorem trimmed (h : Atomic t) : t.trim = t :=
  trim_eq_self h.not_isBlank_head h.not_isBlank_getLast

/-- A sign behind an atom belongs to it. -/
theorem append_sign (h : Atomic t) {sign : Char} (hsign : Nesting.IsPlain sign)
    (hblank : isBlank sign = false) : Atomic (t ++ [sign]) :=
  ⟨h.keeps.append_cons hsign.1 (.cons hsign hblank .nil),
    List.append_ne_nil_of_left_ne_nil h.nonempty _⟩

end Atomic

/-- A blank in front belongs to the gap before the first atom. -/
theorem atomized_blank_cons {w : Char} (hw : isBlank w = true) (t : Text) :
    atomized (w :: t) = Atomized.cons ⟨w, [], .closed⟩ t.atomized := by
  unfold atomized
  rw [lexemes_cons_of_isPlain (isPlain_of_isBlank hw)]
  rfl

theorem atomized_space_cons (t : Text) :
    atomized (' ' :: t) = Atomized.cons ⟨' ', [], .closed⟩ t.atomized := atomized_blank_cons rfl t

/-- An unspaced text that closes what it opens is the first atom in front of a blank. -/
theorem IsUnspaced.atomized_append_blank {t : Text} (h : t.IsUnspaced)
    (hcloses : Nesting.closed.afterText t = .closed) {w : Char} (hw : isBlank w = true)
    (rest : Text) :
    atomized (t ++ w :: rest)
      = ⟨⟨[], t⟩ :: (atomized (w :: rest)).atoms, (atomized (w :: rest)).trailing⟩ := by
  -- the blank is the gap in front of the next atom, or trails behind the last
  have gap : ∀ a ∈ (atomized (w :: rest)).atoms.head?, a.gap ≠ [] := by
    have blank : Lexeme.matchesTop isBlank ⟨w, [], .closed⟩ = true := hw
    rw [atomized_blank_cons hw]
    obtain ⟨later, trailing⟩ := rest.atomized
    rw [Atomized.cons, blank]
    cases later with
    | nil => simp
    | cons a later => simp [Lexeme.text]
  have units := (Nesting.lexemes_append_cons (Nesting.not_isMark_of_isBlank hw) (n := .closed)
    (a := t) (by rw [hcloses]; rfl) rest).1
  have all := atomize_units (lexemes_ne_nil h.1) h.2 _ (atomized (w :: rest)).trailing gap
  rw [concat_lexemes] at all
  calc atomized (t ++ w :: rest)
      = t.lexemes.foldr Atomized.cons (atomized (w :: rest)) := by
        unfold atomized Atomized.ofUnits lexemes
        rw [units, hcloses, List.foldr_append]
    _ = _ := all

/-- An atom in front of a space is the first one of the text. -/
theorem Atomic.atomized_append_space {t : Text} (h : Atomic t) (rest : Text) :
    atomized (t ++ ' ' :: rest)
      = ⟨⟨[], t⟩ :: (atomized (' ' :: rest)).atoms, (atomized (' ' :: rest)).trailing⟩ :=
  h.isUnspaced.atomized_append_blank (h.keeps .closed rfl).1 rfl rest

theorem atoms_space_cons (t : Text) : atoms (' ' :: t) = t.atoms := by
  unfold atoms
  rw [atomized_space_cons]
  obtain ⟨later, trailing⟩ := t.atomized
  have blank : Lexeme.matchesTop isBlank ⟨' ', [], .closed⟩ = true := rfl
  rw [Atomized.cons, blank]
  cases later with
  | nil => rfl
  | cons a later => rfl

theorem Atomic.atoms_append_space {t : Text} (h : Atomic t) (rest : Text) :
    atoms (t ++ ' ' :: rest) = t :: rest.atoms := by
  rw [← atoms_space_cons rest]
  unfold atoms
  rw [h.atomized_append_space]
  rfl

/-- Atomic texts behind a space each, as atoms. -/
theorem atomized_space_join {ts : List Text} (hne : ts ≠ []) (h : ∀ t ∈ ts, Atomic t) :
    atomized (' ' :: join " " ts) = ⟨ts.map fun t => ⟨[' '], t⟩, []⟩ := by
  have blank : Lexeme.matchesTop isBlank ⟨' ', [], .closed⟩ = true := rfl
  induction ts with
  | nil => exact absurd rfl hne
  | cons t ts ih =>
      have ht := h t List.mem_cons_self
      rw [atomized_space_cons]
      cases ts with
      | nil =>
          rw [join_singleton, ht.isUnspaced.atomized_eq, Atomized.cons,
            blank]
          rfl
      | cons u ts =>
          rw [join_space_cons_cons, ht.atomized_append_space,
            ih (List.cons_ne_nil u ts) fun v hv => h v (List.mem_cons_of_mem t hv), Atomized.cons,
            blank]
          rfl

/-- **SPACES PART ATOMS.** -/
theorem atomized_join {t : Text} {ts : List Text} (h : ∀ u ∈ t :: ts, Atomic u) :
    atomized (join " " (t :: ts)) = ⟨⟨[], t⟩ :: ts.map fun u => ⟨[' '], u⟩, []⟩ := by
  have ht := h t List.mem_cons_self
  cases ts with
  | nil =>
      rw [join_singleton, ht.isUnspaced.atomized_eq]
      rfl
  | cons u ts =>
      rw [join_space_cons_cons, ht.atomized_append_space,
        atomized_space_join (List.cons_ne_nil u ts) fun v hv => h v (List.mem_cons_of_mem t hv)]

theorem atoms_join {ts : List Text} (h : ∀ t ∈ ts, Atomic t) : (join " " ts).atoms = ts := by
  cases ts with
  | nil => exact atoms_nil
  | cons t ts =>
      unfold atoms
      rw [atomized_join h]
      simp [Function.comp_def]

/-- A row ends as its last text does. -/
theorem not_isBlank_getLast_join {ts : List Text} (h : ∀ t ∈ ts, Atomic t) :
    ∀ c ∈ (join " " ts).getLast?, isBlank c = false := by
  induction ts with
  | nil => exact fun c hc => nomatch hc
  | cons t ts ih =>
      have ht := h t List.mem_cons_self
      have later := ih fun u hu => h u (List.mem_cons_of_mem t hu)
      cases ts with
      | nil =>
          rw [join_singleton]
          exact ht.not_isBlank_getLast
      | cons u ts =>
          obtain ⟨rest, hrest⟩ := join_cons_eq_append " " u ts
          have filled : join " " (u :: ts) ≠ [] := by
            rw [hrest]
            exact List.append_ne_nil_of_left_ne_nil (h u (by simp)).nonempty rest
          rw [join_space_cons_cons, List.append_cons, List.getLast?_append_of_ne_nil _ filled]
          exact later

/-- A row of atoms is trimmed. -/
theorem trim_join {ts : List Text} (h : ∀ t ∈ ts, Atomic t) :
    (join " " ts).trim = join " " ts := by
  refine trim_eq_self ?_ (not_isBlank_getLast_join h)
  cases ts with
  | nil => exact fun c hc => nomatch hc
  | cons t ts =>
      have ht := h t List.mem_cons_self
      obtain ⟨rest, hrest⟩ := join_cons_eq_append " " t ts
      rw [hrest, List.head?_append_of_ne_nil _ ht.nonempty]
      exact ht.not_isBlank_head

/-! ## §4. Items between spaces. -/

/-- Atoms none of which continues the one before are items. -/
theorem joinAtoms_of_parted {as : List Atom}
    (h : (as.map Atom.text).IsChain fun t u => continues t u = false) : joinAtoms as = as := by
  induction as with
  | nil => rfl
  | cons a as ih =>
      cases as with
      | nil => rfl
      | cons b as =>
          obtain ⟨hab, hchain⟩ := List.isChain_cons_cons.1 h
          rw [joinAtoms, ih hchain, List.head?_cons]
          simp [hab]

/-- A run of atoms each of which continues the one before is one item, if what follows does not
continue the last of them. -/
theorem joinAtoms_append {a : Atom} {as others : List Atom}
    (hrun : (a :: as).IsChain fun b c => continues b.text c.text = true)
    (hends : ∀ b ∈ (a :: as).getLast?, ∀ c ∈ others.head?, continues b.text c.text = false) :
    joinAtoms (a :: as ++ others)
      = ⟨a.gap, a.text ++ as.flatMap fun b => b.gap ++ b.text⟩ :: joinAtoms others := by
  induction as generalizing a with
  | nil =>
      cases others with
      | nil => simp [joinAtoms]
      | cons c others =>
          have ends := hends a rfl c rfl
          obtain ⟨item, items, hitems⟩ :=
            List.exists_cons_of_ne_nil (joinAtoms_ne_nil (List.cons_ne_nil c others))
          show joinAtoms (a :: c :: others) = _
          rw [joinAtoms, hitems, List.head?_cons]
          simp [ends]
  | cons b as ih =>
      obtain ⟨hab, hrun⟩ := List.isChain_cons_cons.1 hrun
      rw [List.getLast?_cons_cons] at hends
      have later := ih hrun hends
      show joinAtoms (a :: (b :: as ++ others)) = _
      rw [joinAtoms, later, List.cons_append, List.head?_cons]
      simp [hab]

/-- Atoms each of which continues the one before are one item. -/
theorem joinAtoms_of_continues {a : Atom} {as : List Atom}
    (h : ((a :: as).map Atom.text).IsChain fun t u => continues t u = true) :
    joinAtoms (a :: as) = [⟨a.gap, a.text ++ as.flatMap fun b => b.gap ++ b.text⟩] := by
  have one : joinAtoms (a :: as ++ []) = _ := joinAtoms_append ((List.isChain_map _).1 h) nofun
  rwa [List.append_nil] at one

/-- The texts of a row are those of its atoms. -/
theorem map_text_row (t : Text) (ts : List Text) :
    (Atom.mk [] t :: ts.map fun u => Atom.mk [' '] u).map Atom.text = t :: ts := by
  simp [Function.comp_def]

/-- **A ROW IS TAKEN APART WHERE NOTHING JOINS ITS TEXTS.** -/
theorem adjacentItems_join {ts : List Text} (h : ∀ t ∈ ts, Atomic t)
    (hchain : ts.IsChain fun t u => continues t u = false) : (join " " ts).adjacentItems = ts := by
  cases ts with
  | nil =>
      show (joinAtoms (atomized []).atoms).map Atom.text = []
      rw [List.map_eq_nil_iff.1 atoms_nil]
      rfl
  | cons t ts =>
      have parted := joinAtoms_of_parted ((map_text_row t ts).symm ▸ hchain)
      unfold adjacentItems
      rw [atomized_join h, parted, map_text_row]

/-- **A ROW IS ONE ITEM WHERE EACH TEXT JOINS THE NEXT.** -/
theorem adjacentItems_join_of_continues {t : Text} {ts : List Text} (h : ∀ u ∈ t :: ts, Atomic u)
    (hchain : (t :: ts).IsChain fun t u => continues t u = true) :
    (join " " (t :: ts)).adjacentItems = [join " " (t :: ts)] := by
  have one := joinAtoms_of_continues ((map_text_row t ts).symm ▸ hchain)
  -- the item is made of all atoms and all gaps
  have whole := concat_ofUnits (lexemes (join " " (t :: ts)))
  change (atomized (join " " (t :: ts))).atoms.flatMap _
    ++ (atomized (join " " (t :: ts))).trailing = _ at whole
  rw [concat_lexemes, atomized_join h, List.append_nil, List.flatMap_cons] at whole
  unfold adjacentItems
  rw [atomized_join h, one]
  exact congrArg (fun u => [u]) whole

/-! ## §5. Runs: commas between them, spaces inside. -/

/-- Texts in runs, with a comma between one run and the next. -/
def joinRuns (runs : List (List Text)) : Text := join ", " (runs.map (join " "))

theorem flatten_singletons {α : Type} (xs : List α) : (xs.map fun x => [x]).flatten = xs := by
  rw [← List.flatMap_def, List.flatMap_singleton']

/-- Runs that are not empty have a first member. -/
theorem flatten_ne_nil {α : Type} {runs : List (List α)} (hne : runs ≠ [])
    (hruns : ∀ run ∈ runs, run ≠ []) : runs.flatten ≠ [] := by
  obtain ⟨run, others, rfl⟩ := List.exists_cons_of_ne_nil hne
  exact List.append_ne_nil_of_left_ne_nil (hruns run List.mem_cons_self) _

theorem joinRuns_singletons (ts : List Text) : joinRuns (ts.map fun t => [t]) = join ", " ts := by
  unfold joinRuns
  simp [Function.comp_def]

/-- A text that neither blanks nor commas divide. -/
structure Undivided (t : Text) : Prop extends Atomic t where
  comma : Keeps (· == ',') t

theorem Undivided.of_plain {t : Text} (hne : t ≠ [])
    (h : ∀ c ∈ t, Nesting.IsPlain c ∧ isBlank c = false ∧ (c == ',') = false) : Undivided t :=
  { keeps := .of_plain fun c hc => ⟨(h c hc).1, (h c hc).2.1⟩
    nonempty := hne
    comma := .of_plain fun c hc => ⟨(h c hc).1, (h c hc).2.2⟩ }

/-- A plain character that is neither blank nor comma is undivided. -/
theorem Undivided.of_char {c : Char} (hplain : Nesting.IsPlain c) (hblank : isBlank c = false)
    (hcomma : (c == ',') = false) : Undivided [c] := by
  refine .of_plain (List.cons_ne_nil c []) fun d hd => ?_
  obtain rfl := List.mem_singleton.1 hd
  exact ⟨hplain, hblank, hcomma⟩

/-- A sign behind an undivided text belongs to it. -/
theorem Undivided.append_sign {t : Text} (h : Undivided t) {sign : Char}
    (hsign : Nesting.IsPlain sign) (hblank : isBlank sign = false) (hcomma : (sign == ',') = false) :
    Undivided (t ++ [sign]) :=
  { h.toAtomic.append_sign hsign hblank with
    comma := h.comma.append_cons hsign.1 (.cons hsign hcomma .nil) }

/-- Runs can stand inside brackets if their texts can. -/
theorem keeps_joinRuns {runs : List (List Text)}
    (h : ∀ run ∈ runs, ∀ t ∈ run, Keeps (fun _ => false) t) :
    Keeps (fun _ => false) (joinRuns runs) :=
  keeps_join_comma rfl rfl
    (List.forall_mem_map.2 fun run hrun => keeps_join_space rfl (h run hrun))

section Runs

variable {runs : List (List Text)} (hruns : ∀ run ∈ runs, run ≠ [])
  (h : ∀ run ∈ runs, ∀ t ∈ run, Undivided t)
include h

/-- Undivided texts can. -/
theorem keeps_joinRuns_of_undivided : Keeps (fun _ => false) (joinRuns runs) :=
  keeps_joinRuns fun run hrun t ht => (h run hrun t ht).keeps.mono fun _ hc => nomatch hc

include hruns

/-- **THE PIECES BETWEEN COMMAS ARE THE RUNS.** -/
theorem commaItems_joinRuns : (joinRuns runs).commaItems = runs.map (join " ") := by
  refine commaItems_join fun t ht => ?_
  obtain ⟨run, hrun, rfl⟩ := List.mem_map.1 ht
  refine ⟨keeps_join_space rfl fun u hu => (h run hrun u hu).comma,
    trim_join fun u hu => (h run hrun u hu).toAtomic, ?_⟩
  obtain ⟨t, ts, rfl⟩ := List.exists_cons_of_ne_nil (hruns run hrun)
  obtain ⟨rest, hrest⟩ := join_cons_eq_append " " t ts
  rw [hrest]
  exact List.append_ne_nil_of_left_ne_nil (h _ hrun t List.mem_cons_self).nonempty rest

/-- Runs are not blank. -/
theorem isEmpty_trim_joinRuns (hne : runs ≠ []) : (joinRuns runs).trim.isEmpty = false := by
  obtain ⟨run, others, rfl⟩ := List.exists_cons_of_ne_nil hne
  obtain ⟨t, ts, rfl⟩ := List.exists_cons_of_ne_nil (hruns run List.mem_cons_self)
  have ht := h _ List.mem_cons_self t List.mem_cons_self
  obtain ⟨c, rest, rfl⟩ := List.exists_cons_of_ne_nil ht.nonempty
  obtain ⟨behind, hbehind⟩ := join_cons_eq_append " " (c :: rest) ts
  obtain ⟨later, hlater⟩ := join_cons_eq_append ", " (join " " ((c :: rest) :: ts))
    (others.map (join " "))
  have mem : c ∈ joinRuns (((c :: rest) :: ts) :: others) := by
    unfold joinRuns
    rw [List.map_cons, hlater, hbehind]
    simp
  exact Bool.eq_false_iff.2 (not_isEmpty_trim mem (ht.not_isBlank_head c rfl))

omit hruns h in
/-- A word is no text with a sign behind it that the word does not have. -/
theorem ne_append_sign {word : Text} {sign : Char} (h : sign ∉ word) (t : Text) :
    word ≠ t ++ [sign] := by
  rintro rfl
  exact h (List.mem_append_right t List.mem_cons_self)

omit hruns h in
/-- The comma behind a run keeps to its last text. -/
theorem not_mem_atoms_join_append {word : Text} (hcomma : ',' ∉ word) {run : List Text}
    (hne : run ≠ []) (hatomic : ∀ t ∈ run, Atomic t) (hrun : word ∉ run) {rest : Text}
    (hrest : word ∉ rest.atoms) : word ∉ atoms (join " " run ++ ',' :: ' ' :: rest) := by
  induction run with
  | nil => exact absurd rfl hne
  | cons t ts ih =>
      have ht := hatomic t List.mem_cons_self
      have hword := List.ne_of_not_mem_cons hrun
      have hlater := List.not_mem_of_not_mem_cons hrun
      cases ts with
      | nil =>
          rw [join_singleton, List.append_cons,
            (ht.append_sign isPlain_comma rfl).atoms_append_space]
          exact List.not_mem_cons_of_ne_of_not_mem (ne_append_sign hcomma t) hrest
      | cons u ts =>
          rw [join_space_cons_cons, List.append_assoc, List.cons_append, ht.atoms_append_space]
          refine List.not_mem_cons_of_ne_of_not_mem hword ?_
          exact ih (List.cons_ne_nil u ts) (fun v hv => hatomic v (List.mem_cons_of_mem t hv)) hlater

/-- **A WORD WITHOUT A COMMA IS AN ATOM OF RUNS ONLY IF IT IS ONE OF THEIR TEXTS.** -/
theorem not_mem_atoms_joinRuns {word : Text} (hcomma : ',' ∉ word)
    (hword : ∀ run ∈ runs, word ∉ run) : word ∉ (joinRuns runs).atoms := by
  induction runs with
  | nil =>
      show word ∉ atoms []
      rw [atoms_nil]
      exact List.not_mem_nil
  | cons run others ih =>
      have hrun := hword run List.mem_cons_self
      have atomic (t : Text) (ht : t ∈ run) := (h run List.mem_cons_self t ht).toAtomic
      have later := ih (fun r hr => hruns r (List.mem_cons_of_mem run hr))
        (fun r hr => h r (List.mem_cons_of_mem run hr))
        (fun r hr => hword r (List.mem_cons_of_mem run hr))
      unfold joinRuns at later ⊢
      cases others with
      | nil =>
          rw [List.map_singleton, join_singleton, atoms_join atomic]
          exact hrun
      | cons next others =>
          rw [List.map_cons, List.map_cons, join_comma_cons_cons]
          exact not_mem_atoms_join_append hcomma (hruns run List.mem_cons_self) atomic hrun later

end Runs

end ClassOutline.Text
