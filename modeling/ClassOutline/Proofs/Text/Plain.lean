/-
  ClassOutline.Proofs.Text.Plain
  ────────────────────────────────
  **CHARACTERS OF NAMES, AND NAMES THAT ARE JOINED.**

  A character of a name is no blank, no bracket, no quote and no separator
  (`isPlain_of_isNameChar`), whatever its place in Unicode, for the blanks are
  few enough to be looked up one by one.  So trimming leaves a name as it is, and a
  dot divides names where they were joined (`fields_join`).  The name in front of a
  text alone decides which keyword the text starts with (`isSome_afterKeyword?`).
-/
import ClassOutline.Proofs.Nesting.Keeps
import ClassOutline.Proofs.Text.Dotted
import ClassOutline.Proofs.Text.Lines
import ClassOutline.Proofs.Text.Trim

namespace ClassOutline.Text

/-! ## §1. Characters of a name. -/

/-- The code points of blanks. -/
def blankPoints : List Nat :=
  [9, 10, 11, 12, 13, 32, 0x85, 0xa0, 0x1680, 0x2000, 0x2001, 0x2002, 0x2003, 0x2004, 0x2005,
   0x2006, 0x2007, 0x2008, 0x2009, 0x200a, 0x2028, 0x2029, 0x202f, 0x205f, 0x3000]

theorem toNat_mem_blankPoints {c : Char} (h : isBlank c = true) : c.toNat ∈ blankPoints := by
  unfold isBlank at h
  simp only [Bool.or_eq_true, Bool.and_eq_true, decide_eq_true_eq, beq_iff_eq] at h
  simp only [blankPoints, List.mem_cons, List.not_mem_nil, or_false]
  omega

/-- No blank is a character of a name. -/
theorem not_isBlank_of_isNameChar {c : Char} (h : isNameChar c = true) : isBlank c = false := by
  have table : ∀ n ∈ blankPoints, isNameChar (Char.ofNat n) = false := by decide +kernel
  refine Bool.eq_false_iff.2 fun hblank => ?_
  have hc := table _ (toNat_mem_blankPoints hblank)
  rw [Char.ofNat_toNat, h] at hc
  exact nomatch hc

/-- A character that is none of the quotes and brackets is plain. -/
theorem isPlain_of_not_mem {c : Char} (h : c ∉ ['\'', '"', '(', ')', '[', ']', '{', '}']) :
    Nesting.IsPlain c := by
  simp only [List.mem_cons, List.not_mem_nil, or_false, not_or] at h
  obtain ⟨h1, h2, h3, h4, h5, h6, h7, h8⟩ := h
  refine ⟨fun hmark => hmark.elim h1 h2, fun n => ?_⟩
  unfold Nesting.afterBracket
  rw [if_neg h3, if_neg h4, if_neg h5, if_neg h6, if_neg h7, if_neg h8]

/-- A character of a name is none of a list without such characters. -/
theorem not_mem_of_isNameChar {c : Char} (h : isNameChar c = true) {cs : List Char}
    (hcs : cs.any isNameChar = false) : c ∉ cs :=
  fun hmem => List.any_eq_false.1 hcs c hmem h

theorem isPlain_of_isNameChar {c : Char} (h : isNameChar c = true) : Nesting.IsPlain c :=
  isPlain_of_not_mem (not_mem_of_isNameChar h (by decide))

theorem isPlain_of_isBlank {c : Char} (h : isBlank c = true) : Nesting.IsPlain c := by
  refine isPlain_of_not_mem fun hmem => ?_
  have noBlank : (['\'', '"', '(', ')', '[', ']', '{', '}'].any isBlank) = false := by decide
  exact List.any_eq_false.1 noBlank c hmem h

theorem trim_of_isName {t : Text} (h : isName t = true) : t.trim = t :=
  trim_of_forall_not_blank fun _ hc => not_isBlank_of_isNameChar (isNameChar_of_mem h hc)

/-- A name avoids what is no character of one. -/
theorem keeps_of_isName {t : Text} (h : isName t = true) {c : Char} (hc : isNameChar c = false) :
    Keeps (· == c) t := by
  refine .of_plain fun d hd => ⟨isPlain_of_isNameChar (isNameChar_of_mem h hd), ?_⟩
  refine beq_false_of_ne ?_
  rintro rfl
  rw [isNameChar_of_mem h hd] at hc
  exact nomatch hc

/-! ## §2. The name in front of a text. -/

/-- Such a name ends where no character of one follows. -/
theorem span_isNameChar_append {word rest : Text} (hword : ∀ c ∈ word, isNameChar c = true)
    (hrest : ∀ c ∈ rest.head?, isNameChar c = false) :
    (word ++ rest).takeWhile isNameChar = word ∧ (word ++ rest).dropWhile isNameChar = rest := by
  rw [List.takeWhile_append_of_pos hword, List.dropWhile_append_of_pos hword]
  cases rest with
  | nil => exact ⟨List.append_nil word, rfl⟩
  | cons c rest =>
      have hc : ¬ isNameChar c = true := by
        rw [hrest c rfl]
        exact Bool.false_ne_true
      rw [List.takeWhile_cons_of_neg hc, List.dropWhile_cons_of_neg hc, List.append_nil]
      exact ⟨rfl, rfl⟩

theorem takeWhile_of_isName {name : Text} (h : isName name = true) :
    name.takeWhile isNameChar = name :=
  List.takeWhile_eq_self_iff.2 fun _ hc => isNameChar_of_mem h hc

/-- A name in front ends at a space at the latest. -/
theorem takeWhile_append_space (t rest : Text) :
    (t ++ ' ' :: rest).takeWhile isNameChar = t.takeWhile isNameChar := by
  rw [List.takeWhile_append]
  split
  · next hall =>
    rw [List.takeWhile_cons_of_neg (by decide), List.append_nil]
    exact ((List.takeWhile_prefix isNameChar).eq_of_length hall).symm
  · rfl

/-- **A TEXT STARTS WITH THE KEYWORD THAT THE NAME IN FRONT OF IT IS**, and with no other. -/
theorem isSome_afterKeyword? {keyword : Text} (hkeyword : keyword.all isNameChar = true)
    (t : Text) : (afterKeyword? t keyword).isSome = (keyword == t.takeWhile isNameChar) := by
  induction keyword generalizing t with
  | nil =>
      cases t with
      | nil => rfl
      | cons c t =>
          show (if isNameChar c = true then none else some _ : Option Text).isSome = _
          rw [List.takeWhile_cons]
          split <;> rfl
  | cons k keyword ih =>
      rw [List.all_cons, Bool.and_eq_true] at hkeyword
      cases t with
      | nil => rfl
      | cons c t =>
          have inner := ih hkeyword.2 t
          unfold afterKeyword? after? at inner ⊢
          rw [List.isPrefixOf?]
          by_cases heq : (k == c) = true
          · rw [if_pos heq, List.takeWhile_cons_of_pos (eq_of_beq heq ▸ hkeyword.1),
              List.cons_beq_cons, heq, Bool.true_and]
            exact inner
          · have other : (k :: keyword == (c :: t).takeWhile isNameChar) = false := by
              rw [List.takeWhile_cons]
              split
              · rw [List.cons_beq_cons, Bool.eq_false_iff.2 heq, Bool.false_and]
              · rfl
            rw [if_neg heq, other]
            rfl

/-! ## §3. Texts joined and divided again. -/

theorem join_cons_cons (sep : String) (t u : Text) (ts : List Text) :
    join sep (t :: u :: ts) = t ++ (sep.toList ++ join sep (u :: ts)) := by
  unfold join
  rw [List.intercalate_cons_cons, List.append_assoc]

theorem fields_of_not_mem {sep : Char} {t : Text} (h : sep ∉ t) : fields sep t = [t] := by
  induction t with
  | nil => rfl
  | cons c t ih =>
      have hc : c ≠ sep := fun heq => h (heq ▸ List.mem_cons_self)
      obtain ⟨f, fs, hfs, hcons⟩ := fields_cons_of_ne hc t
      rw [ih fun hmem => h (List.mem_cons_of_mem c hmem)] at hfs
      obtain ⟨rfl, rfl⟩ := List.cons.inj hfs
      exact hcons

/-- Only a text without separators is a single field. -/
theorem fields_eq_singleton_iff {sep : Char} {t f : Text} :
    fields sep t = [f] ↔ sep ∉ t ∧ f = t := by
  constructor
  · intro h
    have bare : sep ∉ t := by
      intro hmem
      obtain ⟨a, b, rfl⟩ := List.append_of_mem hmem
      -- there is a field on each side of a separator
      have left := List.length_pos_iff.2 (fields_ne_nil sep a)
      have right := List.length_pos_iff.2 (fields_ne_nil sep b)
      have length := congrArg List.length h
      rw [fields_append_cons, List.length_append, List.length_singleton] at length
      omega
    rw [fields_of_not_mem bare] at h
    exact ⟨bare, (List.singleton_inj.1 h).symm⟩
  · rintro ⟨bare, rfl⟩
    exact fields_of_not_mem bare

/-- **JOINED TEXTS ARE DIVIDED WHERE THEY WERE JOINED.** -/
theorem fields_join {path : List Text} (hne : path ≠ []) (h : ∀ s ∈ path, '.' ∉ s) :
    fields '.' (join "." path) = path := by
  induction path with
  | nil => exact absurd rfl hne
  | cons s path ih =>
      have hs := h s List.mem_cons_self
      cases path with
      | nil =>
          have one : join "." [s] = s := List.append_nil s
          rw [one, fields_of_not_mem hs]
      | cons u path =>
          rw [join_cons_cons]
          show fields '.' (s ++ '.' :: join "." (u :: path)) = _
          rw [fields_append_cons, fields_of_not_mem hs,
            ih (List.cons_ne_nil u path) fun v hv => h v (List.mem_cons_of_mem s hv)]
          rfl

/-- The characters of a text are those of its fields, and the separators between them. -/
theorem mem_fields_of_mem {sep c : Char} {t : Text} (hc : c ∈ t) (hne : c ≠ sep) :
    ∃ f ∈ fields sep t, c ∈ f := by
  induction t with
  | nil => exact absurd hc List.not_mem_nil
  | cons d t ih =>
      by_cases hd : d = sep
      · subst hd
        rw [fields_cons_self]
        rcases List.mem_cons.1 hc with rfl | hc
        · exact absurd rfl hne
        · obtain ⟨f, hf, hcf⟩ := ih hc
          exact ⟨f, List.mem_cons_of_mem _ hf, hcf⟩
      · obtain ⟨f, fs, hfs, hcons⟩ := fields_cons_of_ne hd t
        rw [hcons]
        rcases List.mem_cons.1 hc with rfl | hc
        · exact ⟨_, List.mem_cons_self, List.mem_cons_self⟩
        · obtain ⟨g, hg, hcg⟩ := ih hc
          rw [hfs] at hg
          rcases List.mem_cons.1 hg with rfl | hg
          · exact ⟨_, List.mem_cons_self, List.mem_cons_of_mem d hcg⟩
          · exact ⟨g, List.mem_cons_of_mem _ hg, hcg⟩

end ClassOutline.Text
