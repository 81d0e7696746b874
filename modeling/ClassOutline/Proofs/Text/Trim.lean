/-
  ClassOutline.Proofs.Text.Trim
  ────────────────────────────────
  **WHAT TRIMMING TAKES AND WHAT IT LEAVES.**

  Trimming takes nothing but blanks, and none of a text that begins and ends
  otherwise (`trim_eq_self`).  No blank at an end belongs to a word either.
-/
import ClassOutline.Text.Basic
import Mathlib.Data.List.DropRight
import Mathlib.Data.List.TakeWhile

namespace ClassOutline.Text

/-! ## §1. What is left is of the text. -/

theorem mem_of_mem_trim {c : Char} {t : Text} (h : c ∈ t.trim) : c ∈ t := by
  unfold trim trimEnd at h
  have h := (List.dropWhile_suffix isBlank).subset (List.mem_reverse.1 h)
  exact (List.dropWhile_suffix isBlank).subset (List.mem_reverse.1 h)

theorem mem_of_mem_trimEnd {c : Char} {t : Text} (h : c ∈ t.trimEnd) : c ∈ t := by
  unfold trimEnd at h
  exact List.mem_reverse.1 ((List.dropWhile_suffix isBlank).subset (List.mem_reverse.1 h))

/-! ## §2. What is taken is blank. -/

/-- What is no blank is left. -/
theorem mem_trim {c : Char} {t : Text} (h : c ∈ t) (hblank : isBlank c = false) : c ∈ t.trim := by
  have front (u : Text) (hc : c ∈ u) : c ∈ u.dropWhile isBlank := by
    rw [← List.takeWhile_append_dropWhile (p := isBlank) (l := u)] at hc
    refine (List.mem_append.1 hc).resolve_left fun htaken => ?_
    rw [List.mem_takeWhile_imp htaken] at hblank
    exact nomatch hblank
  exact List.mem_reverse.2 (front _ (List.mem_reverse.2 (front t h)))

theorem isBlank_of_trim_eq_nil {t : Text} (h : t.trim = []) : ∀ c ∈ t, isBlank c = true := by
  have hstart : ∀ c ∈ t.trimStart, isBlank c = true := by
    intro c hc
    exact List.dropWhile_eq_nil_iff.1 (List.reverse_eq_nil_iff.1 h) c (List.mem_reverse.2 hc)
  -- what the blanks in front leave would begin with another character
  cases hrest : t.trimStart with
  | nil => exact List.dropWhile_eq_nil_iff.1 hrest
  | cons d rest =>
      have hd := List.head?_dropWhile_not isBlank t
      rw [← trimStart, hrest] at hd
      have hd : isBlank d = false := hd
      rw [hstart d (hrest ▸ List.mem_cons_self)] at hd
      exact absurd hd (by decide)

/-- Of blanks trimming leaves nothing. -/
theorem trim_eq_nil_iff {t : Text} : t.trim = [] ↔ ∀ c ∈ t, isBlank c = true := by
  refine ⟨isBlank_of_trim_eq_nil, fun h => ?_⟩
  unfold trim trimStart
  rw [List.dropWhile_eq_nil_iff.2 h]
  rfl

/-- What trimming leaves is not blank. -/
theorem exists_not_isBlank_of_trim_ne_nil {t : Text} (h : t.trim ≠ []) :
    ∃ c ∈ t.trim, isBlank c = false := by
  have hne : t.trimStart.reverse.dropWhile isBlank ≠ [] := fun hnil =>
    h (congrArg List.reverse hnil)
  obtain ⟨c, rest, hrest⟩ := List.exists_cons_of_ne_nil hne
  refine ⟨c, List.mem_reverse.2 (hrest ▸ List.mem_cons_self), ?_⟩
  have first := List.head?_dropWhile_not isBlank t.trimStart.reverse
  rwa [hrest] at first

theorem not_isEmpty_trim {t : Text} {c : Char} (hc : c ∈ t) (hblank : isBlank c = false) :
    ¬ t.trim.isEmpty = true := by
  intro hempty
  rw [isBlank_of_trim_eq_nil (List.isEmpty_iff.1 hempty) c hc] at hblank
  exact nomatch hblank

theorem trimStart_append_of_isBlank {blanks : Text} (h : ∀ c ∈ blanks, isBlank c = true)
    (t : Text) : trimStart (blanks ++ t) = t.trimStart :=
  List.dropWhile_append_of_pos h

/-! ## §3. Texts that are left as they are. -/

theorem trimStart_eq_self {t : Text} (h : ∀ c ∈ t.head?, isBlank c = false) : t.trimStart = t := by
  cases t with
  | nil => rfl
  | cons c t =>
      have hc : ¬ isBlank c = true := by
        rw [h c rfl]
        exact Bool.false_ne_true
      exact List.dropWhile_cons_of_neg hc

/-- A text without blanks at either end is trimmed. -/
theorem trim_eq_self {t : Text} (hfirst : ∀ c ∈ t.head?, isBlank c = false)
    (hlast : ∀ c ∈ t.getLast?, isBlank c = false) : t.trim = t := by
  have back : trimStart t.reverse = t.reverse := by
    refine trimStart_eq_self fun c hc => hlast c ?_
    rwa [List.head?_reverse] at hc
  unfold trim trimEnd
  rw [trimStart_eq_self hfirst]
  show (trimStart t.reverse).reverse = t
  rw [back, List.reverse_reverse]

/-- A trimmed text begins with no blank. -/
theorem not_isBlank_head {t : Text} (h : t.trim = t) : ∀ c ∈ t.head?, isBlank c = false := by
  intro c hc
  obtain ⟨rest, rfl⟩ := List.head?_eq_some_iff.1 hc
  refine Bool.eq_false_iff.2 fun hblank => ?_
  -- without the blank the text is shorter
  have without : trim (c :: rest) = trim rest := by
    unfold trim trimStart
    rw [List.dropWhile_cons_of_pos hblank]
  have shorter := length_trim_le rest
  rw [← without, h, List.length_cons] at shorter
  omega

/-- Trimming does not take a last character that is no blank. -/
theorem getLast?_trim_concat {c : Char} (hc : isBlank c = false) (before : Text) :
    (before ++ [c]).trim.getLast? = some c := by
  have hc : ¬ isBlank c = true := by
    rw [hc]
    exact Bool.false_ne_true
  have hstart : ∃ front, (before ++ [c]).trimStart = front ++ [c] := by
    unfold trimStart
    rw [List.dropWhile_append]
    split
    · exact ⟨[], List.dropWhile_cons_of_neg hc⟩
    · exact ⟨_, rfl⟩
  obtain ⟨front, hfront⟩ := hstart
  unfold trim trimEnd
  rw [hfront, List.reverse_concat, List.dropWhile_cons_of_neg hc, List.reverse_cons,
    List.getLast?_concat]

theorem trim_of_forall_not_blank {t : Text} (h : ∀ c ∈ t, isBlank c = false) : t.trim = t :=
  trim_eq_self (fun c hc => h c (List.mem_of_mem_head? hc))
    (fun c hc => h c (List.mem_of_getLast? hc))

theorem trim_space_cons (t : Text) : trim (' ' :: t) = trim t := rfl

theorem trim_append_of_isBlank {c : Char} (hc : isBlank c = true) (t : Text) :
    trim (t ++ [c]) = trim t := by
  have atEnd (u : Text) : trimEnd (u ++ [c]) = trimEnd u := by simp [trimEnd, hc]
  unfold trim
  cases hempty : t.trimStart with
  | nil =>
      -- all of the text is blank, so nothing is left of either
      have blank : ∀ d ∈ t, isBlank d = true := List.dropWhile_eq_nil_iff.1 hempty
      rw [trimStart_append_of_isBlank blank]
      simp [trimStart, hc]
  | cons d rest =>
      have front : trimStart (t ++ [c]) = t.trimStart ++ [c] := by
        unfold trimStart at hempty ⊢
        rw [List.dropWhile_append, hempty]
        rfl
      rw [front, atEnd, hempty]

/-- Blanks in front of a character that is none are taken away in front of it. -/
theorem trimStart_append_cons {c : Char} (hc : isBlank c = false) (before after : Text) :
    trimStart (before ++ c :: after) = trimStart before ++ c :: after := by
  have hc : ¬ isBlank c = true := by
    rw [hc]
    exact Bool.false_ne_true
  unfold trimStart
  rw [List.dropWhile_append]
  split
  · next hempty =>
    rw [List.isEmpty_iff.1 hempty, List.dropWhile_cons_of_neg hc]
    rfl
  · rfl

/-- Blanks behind a character that is none are taken away behind it. -/
theorem trimEnd_append_cons {c : Char} (hc : isBlank c = false) (before after : Text) :
    trimEnd (before ++ c :: after) = before ++ c :: trimEnd after := by
  have hc : ¬ isBlank c = true := by
    rw [hc]
    exact Bool.false_ne_true
  unfold trimEnd
  rw [List.reverse_append, List.reverse_cons, List.append_assoc, List.dropWhile_append]
  split
  · next hempty =>
    rw [List.isEmpty_iff.1 hempty, List.singleton_append, List.dropWhile_cons_of_neg hc,
      List.reverse_cons, List.reverse_reverse]
    rfl
  · rw [List.reverse_append, List.reverse_append, List.reverse_reverse, List.append_assoc]
    rfl

/-- What is taken from the front is blank. -/
theorem exists_eq_append_trimStart (t : Text) :
    ∃ blanks, (∀ c ∈ blanks, isBlank c = true) ∧ t = blanks ++ t.trimStart :=
  ⟨t.takeWhile isBlank, List.all_eq_true.1 List.all_takeWhile,
    List.takeWhile_append_dropWhile.symm⟩

theorem trim_append_of_blanks {blanks : Text} (h : ∀ c ∈ blanks, isBlank c = true) (t : Text) :
    trim (t ++ blanks) = trim t := by
  -- blank by blank, the last one first
  induction blanks using List.reverseRecOn with
  | nil => rw [List.append_nil]
  | append_singleton blanks c ih =>
      rw [← List.append_assoc, trim_append_of_isBlank (h c List.mem_concat_self)]
      exact ih fun d hd => h d (List.mem_append_left _ hd)

theorem trim_trimEnd (t : Text) : trim (trimEnd t) = trim t := by
  obtain ⟨blanks, hblank, hsplit⟩ := t.exists_eq_trimEnd_append
  calc trim (trimEnd t) = trim (trimEnd t ++ blanks) := (trim_append_of_blanks hblank _).symm
    _ = trim t := by rw [← hsplit]

theorem trim_trimStart (t : Text) : trim (trimStart t) = trim t := by
  have front : trimStart t.trimStart = t.trimStart := List.dropWhile_idempotent _ _
  rw [trim, front, trim]

theorem trim_trim (t : Text) : trim (trim t) = trim t :=
  calc trim (trim t) = trim t.trimStart := trim_trimEnd _
    _ = trim t := trim_trimStart t

/-! ## §4. Words. -/

theorem words_cons (c : Char) (rest : Text) :
    words (c :: rest)
      = if isBlank c then words rest
        else match rest, words rest with
          | d :: _, w :: ws => if isBlank d then [c] :: w :: ws else (c :: w) :: ws
          | _, ws => [c] :: ws := rfl

theorem words_cons_of_isBlank {c : Char} (hc : isBlank c = true) (rest : Text) :
    words (c :: rest) = words rest := by
  rw [words_cons, if_pos hc]

/-- A blank at the end belongs to no word. -/
theorem words_append_of_isBlank {c : Char} (hc : isBlank c = true) (t : Text) :
    words (t ++ [c]) = words t := by
  induction t with
  | nil => exact words_cons_of_isBlank hc []
  | cons a t ih =>
      rw [List.cons_append, words_cons, words_cons, ih]
      -- what follows the last character is nothing or a blank, which is the same
      cases t with
      | nil => rfl
      | cons d t =>
          cases words (d :: t) with
          | nil => rfl
          | cons w ws => rfl

theorem squash_cons_of_isBlank {c : Char} (hc : isBlank c = true) (rest : Text) :
    squash (c :: rest) = squash rest := by
  unfold squash
  rw [words_cons_of_isBlank hc]

theorem squash_append_of_isBlank {c : Char} (hc : isBlank c = true) (t : Text) :
    squash (t ++ [c]) = squash t := by
  unfold squash
  rw [words_append_of_isBlank hc]

end ClassOutline.Text
