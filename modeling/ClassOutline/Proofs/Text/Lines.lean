/-
  ClassOutline.Proofs.Text.Lines
  ────────────────────────────────
  **THE PHYSICAL LINES OF A TEXT.**

  Two laws carry everything that is said about physical lines: no line holds a
  line feed (`lineFeed_not_mem_of_mem_lines`), and a text that ends in one is
  cut from what follows it (`lines_append`).  Both come from the one equation
  of `fields` at a separator (`fields_append_cons`).
-/
import ClassOutline.Text.Basic

namespace ClassOutline.Text

/-! ## §1. Fields. -/

theorem fields_ne_nil (sep : Char) (t : Text) : fields sep t ≠ [] := by
  cases t with
  | nil => exact List.cons_ne_nil _ _
  | cons c rest =>
      rw [fields]
      split
      · split
        · exact List.cons_ne_nil _ _
        · exact List.cons_ne_nil _ _
      · exact List.cons_ne_nil _ _

/-- A character that is no separator is put in front of the first field. -/
theorem fields_cons_of_ne {sep c : Char} (hc : c ≠ sep) (rest : Text) :
    ∃ f fs, fields sep rest = f :: fs ∧ fields sep (c :: rest) = (c :: f) :: fs := by
  cases hrest : fields sep rest with
  | nil => exact absurd hrest (fields_ne_nil sep rest)
  | cons f fs =>
      refine ⟨f, fs, rfl, ?_⟩
      rw [fields, hrest]
      exact if_neg hc

theorem fields_cons_self (sep : Char) (rest : Text) :
    fields sep (sep :: rest) = [] :: fields sep rest := by
  cases hrest : fields sep rest with
  | nil => exact absurd hrest (fields_ne_nil sep rest)
  | cons f fs =>
      rw [fields, hrest]
      exact if_pos rfl

/-- **A SEPARATOR DIVIDES THE FIELDS.** -/
theorem fields_append_cons (sep : Char) (a b : Text) :
    fields sep (a ++ sep :: b) = fields sep a ++ fields sep b := by
  induction a with
  | nil => exact fields_cons_self sep b
  | cons c a ih =>
      rw [List.cons_append]
      by_cases hc : c = sep
      · subst hc
        rw [fields_cons_self, fields_cons_self, ih, List.cons_append]
      · obtain ⟨f, fs, hfs, hcons⟩ := fields_cons_of_ne hc a
        obtain ⟨g, gs, hgs, hcons'⟩ := fields_cons_of_ne hc (a ++ sep :: b)
        rw [ih, hfs, List.cons_append] at hgs
        obtain ⟨rfl, rfl⟩ := List.cons.inj hgs
        rw [hcons, hcons', List.cons_append]

theorem not_mem_of_mem_fields {sep : Char} {t f : Text} (hf : f ∈ fields sep t) : sep ∉ f := by
  induction t generalizing f with
  | nil =>
      rw [List.mem_singleton.1 hf]
      exact List.not_mem_nil
  | cons c rest ih =>
      by_cases hc : c = sep
      · subst hc
        rw [fields_cons_self] at hf
        rcases List.mem_cons.1 hf with rfl | hf
        · exact List.not_mem_nil
        · exact ih hf
      · obtain ⟨g, gs, hgs, hcons⟩ := fields_cons_of_ne hc rest
        rw [hcons] at hf
        rcases List.mem_cons.1 hf with rfl | hf
        · intro hmem
          rcases List.mem_cons.1 hmem with rfl | hmem
          · exact hc rfl
          · exact ih (hgs ▸ List.mem_cons_self) hmem
        · exact ih (hgs ▸ List.mem_cons_of_mem _ hf)

/-! ## §2. Lines. -/

/-- Only the last line is not closed by a line break. -/
theorem close_append {fs gs : List Text} (hgs : gs ≠ []) :
    lines.close (fs ++ gs) = fs.map lines.dropReturn ++ lines.close gs := by
  induction fs with
  | nil => rfl
  | cons f fs ih =>
      have hne : fs ++ gs ≠ [] := fun h => hgs (List.append_eq_nil_iff.1 h).2
      obtain ⟨g, rest, hrest⟩ := List.exists_cons_of_ne_nil hne
      rw [List.cons_append, hrest, lines.close]
      · rw [← hrest, ih]
        rfl
      · exact List.cons_ne_nil _ _

/-- **A TEXT THAT ENDS IN A LINE FEED IS CUT FROM WHAT FOLLOWS IT.** -/
theorem lines_append {a : Text} (ha : a.getLast? = some '\n') (b : Text) :
    (a ++ b).lines = a.lines ++ b.lines := by
  obtain ⟨before, rfl⟩ := List.getLast?_eq_some_iff.1 ha
  have hend : Text.lines (before ++ ['\n']) = (fields '\n' before).map lines.dropReturn := by
    show lines.close (fields '\n' (before ++ ['\n'])) = _
    rw [fields_append_cons, close_append (fields_ne_nil '\n' [])]
    exact List.append_nil _
  rw [hend, List.append_assoc]
  show lines.close (fields '\n' (before ++ '\n' :: b)) = _
  rw [fields_append_cons, close_append (fields_ne_nil '\n' b)]
  rfl

theorem mem_dropReturn {c : Char} {l : Text} (h : c ∈ lines.dropReturn l) : c ∈ l := by
  unfold lines.dropReturn at h
  split at h
  · exact List.dropLast_subset l h
  · exact h

/-- A line is a field, a carriage return at its end apart. -/
theorem exists_field_of_mem_close {l : Text} {fs : List Text} (hl : l ∈ lines.close fs) :
    ∃ f ∈ fs, ∀ c ∈ l, c ∈ f := by
  fun_induction lines.close fs with
  | case1 => exact absurd hl List.not_mem_nil
  | case2 last hempty => exact absurd hl List.not_mem_nil
  | case3 last hempty =>
      exact ⟨last, List.mem_cons_self, fun c hc => List.mem_singleton.1 hl ▸ hc⟩
  | case4 f fs _ ih =>
      rcases List.mem_cons.1 hl with rfl | hl
      · exact ⟨f, List.mem_cons_self, fun c hc => mem_dropReturn hc⟩
      · obtain ⟨g, hg, hsub⟩ := ih hl
        exact ⟨g, List.mem_cons_of_mem _ hg, hsub⟩

/-- **NO LINE HOLDS A LINE FEED.** -/
theorem lineFeed_not_mem_of_mem_lines {t l : Text} (hl : l ∈ t.lines) : '\n' ∉ l := by
  obtain ⟨f, hf, hsub⟩ := exists_field_of_mem_close hl
  exact fun h => not_mem_of_mem_fields hf (hsub '\n' h)

end ClassOutline.Text
