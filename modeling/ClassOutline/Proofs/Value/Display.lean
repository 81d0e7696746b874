/-
  ClassOutline.Proofs.Value.Display
  ────────────────────────────────
  **THE WRITTEN FORM OF A VALUE IS ONE SOLID TEXT.**

  A value is *readable* if its written form says what it is: every value but
  floats and what was not recognized, as long as its integers fit 64 bits, its
  strings have no bare quote, and its names are names.

  Such a written form is solid (`display_solid`): numbers and names are made of
  plain characters, everything else of groups.
-/
import ClassOutline.Proofs.Initializer.Forms

namespace ClassOutline

/-! ## §1. Readable values. -/

namespace Value

mutual

/-- The written form says what the value is. -/
def isReadable : Value → Bool
  | bool _ | nothing | emptyList | emptyDict | emptyTuple => true
  | int n => -0x8000000000000000 ≤ n && n < 0x8000000000000000
  | string s => s.isQuotable
  | list items | tuple items => !items.isEmpty && allReadable items
  | dict entries => !entries.isEmpty && allEntriesReadable entries
  | classReference name => name.isPath
  | construction name args => name.isPath && allReadable args
  | external path => !path.isEmpty && path.all Text.isSegment
  | float _ | unrecognized _ => false

/-- All values are readable. -/
def allReadable : List Value → Bool
  | [] => true
  | v :: vs => v.isReadable && allReadable vs

/-- All keys and values of the entries are readable. -/
def allEntriesReadable : List (Value × Value) → Bool
  | [] => true
  | (k, v) :: rest => k.isReadable && v.isReadable && allEntriesReadable rest

end

theorem path_of_isReadable {path : List Text} (h : (external path).isReadable = true) :
    path ≠ [] ∧ ∀ s ∈ path, s.isSegment = true := by
  obtain ⟨hne, hpath⟩ := Bool.and_eq_true_iff.1 h
  refine ⟨?_, List.all_eq_true.1 hpath⟩
  rintro rfl
  exact nomatch hne

theorem displayAll_eq_map (vs : List Value) : displayAll vs = vs.map display := by
  induction vs with
  | nil => rfl
  | cons v vs ih => rw [displayAll, ih, List.map_cons]

theorem displayEntries_eq_map (entries : List (Value × Value)) :
    displayEntries entries
      = entries.map fun e => e.1.display ++ (':' :: ' ' :: e.2.display) := by
  induction entries with
  | nil => rfl
  | cons e rest ih =>
      obtain ⟨k, v⟩ := e
      rw [displayEntries, ih, List.map_cons, List.append_assoc]
      rfl

end Value

/-! ## §2. Written forms are solid. -/

namespace Text

theorem solid_ofInt (n : Int) : Solid (ofInt n) := by
  have digits (c : Char) (hc : isDigit c = true) : Nesting.IsPlain c ∧ isSeparator c = false := by
    have hname : isName ['_', c] = true := by
      show (isNameStart '_' && ([c].all isNameChar)) = true
      rw [List.all_cons, isNameChar_of_isDigit hc]
      rfl
    exact plain_of_isName hname (List.mem_cons_of_mem _ List.mem_cons_self)
  unfold ofInt
  split
  · refine .of_plain (List.cons_ne_nil _ _) fun c hc => ?_
    rcases List.mem_cons.1 hc with rfl | hc
    · exact ⟨isPlain_of_not_mem (by decide), by decide⟩
    · exact digits c (isDigit_of_mem_ofNat hc)
  · exact .of_plain (ofNat_ne_nil _) fun c hc => digits c (isDigit_of_mem_ofNat hc)

end Text

namespace Value

mutual

/-- **THE WRITTEN FORM OF A READABLE VALUE IS SOLID.** -/
theorem display_solid : ∀ v : Value, v.isReadable = true → v.display.Solid
  | .bool true, _ => Text.solid_of_isName (by decide)
  | .bool false, _ => Text.solid_of_isName (by decide)
  | .nothing, _ => Text.solid_of_isName (by decide)
  | .int n, _ => Text.solid_ofInt n
  | .string s, h => Text.Solid.of_isQuotable h
  | .emptyList, _ => Text.Solid.of_brackets (.inr (.inl ⟨rfl, rfl⟩)) .nil
  | .emptyDict, _ => Text.Solid.of_brackets (.inr (.inr ⟨rfl, rfl⟩)) .nil
  | .emptyTuple, _ => Text.Solid.of_brackets (.inl ⟨rfl, rfl⟩) .nil
  | .list items, h => by
      have inside := displayAll_solid items (Bool.and_eq_true_iff.1 h).2
      rw [display]
      exact .of_brackets (.inr (.inl ⟨rfl, rfl⟩))
        (Text.keeps_join_comma rfl rfl fun t ht => (inside t ht).keeps_inside)
  | .dict entries, h => by
      have inside := displayEntries_solid entries (Bool.and_eq_true_iff.1 h).2
      rw [display, displayEntries_eq_map]
      refine .of_brackets (.inr (.inr ⟨rfl, rfl⟩)) (Text.keeps_join_comma rfl rfl fun t ht => ?_)
      obtain ⟨e, he, rfl⟩ := List.mem_map.1 ht
      exact Text.keeps_entry (inside e he).1.keeps_inside (inside e he).2.keeps_inside rfl rfl
  | .tuple items, h => by
      have inside := displayAll_solid items (Bool.and_eq_true_iff.1 h).2
      cases items with
      | nil => exact nomatch h
      | cons v vs =>
          cases vs with
          | nil =>
              -- the comma behind a single element is inside the parentheses
              rw [display]
              have inner : Text.Keeps (fun _ => false) (v.display ++ [',']) :=
                (inside _ List.mem_cons_self).keeps_inside.append_cons Text.isPlain_comma.1
                  (.cons Text.isPlain_comma rfl .nil)
              have solid := Text.Solid.of_brackets (.inl ⟨rfl, rfl⟩) inner
              rwa [List.append_assoc] at solid
          | cons w vs =>
              rw [display]
              · exact .of_brackets (.inl ⟨rfl, rfl⟩)
                  (Text.keeps_join_comma rfl rfl fun t ht => (inside t ht).keeps_inside)
              · simp
  | .classReference name, h => Text.solid_of_isPath h
  | .construction name args, h => by
      obtain ⟨hname, hargs⟩ := Bool.and_eq_true_iff.1 h
      have inside := displayAll_solid args hargs
      have solid := (Text.solid_of_isPath hname).of_call
        (Text.keeps_join_comma rfl rfl fun t ht => (inside t ht).keeps_inside)
      rw [display, List.append_assoc]
      exact solid
  | .external path, h => by
      obtain ⟨hne, hpath⟩ := path_of_isReadable h
      exact Text.solid_of_isPath (Text.isPath_join hne hpath)
  | .float _, h => nomatch h
  | .unrecognized _, h => nomatch h

theorem displayAll_solid : ∀ vs : List Value, allReadable vs = true → ∀ t ∈ displayAll vs, t.Solid
  | [], _, t, ht => absurd ht List.not_mem_nil
  | v :: vs, h, t, ht => by
      obtain ⟨hv, hvs⟩ := Bool.and_eq_true_iff.1 h
      rcases List.mem_cons.1 ht with rfl | ht
      · exact display_solid v hv
      · exact displayAll_solid vs hvs t ht

theorem displayEntries_solid : ∀ entries : List (Value × Value), allEntriesReadable entries = true →
    ∀ e ∈ entries, e.1.display.Solid ∧ e.2.display.Solid
  | [], _, e, he => absurd he List.not_mem_nil
  | (k, v) :: rest, h, e, he => by
      obtain ⟨hkv, hrest⟩ := Bool.and_eq_true_iff.1 h
      obtain ⟨hk, hv⟩ := Bool.and_eq_true_iff.1 hkv
      rcases List.mem_cons.1 he with rfl | he
      · exact ⟨display_solid k hk, display_solid v hv⟩
      · exact displayEntries_solid rest hrest e he

end

/-! ## §3. Written forms are no keywords. -/

/-- The written form is neither `for` nor `lambda`. -/
theorem display_not_keyword (v : Value) (h : v.isReadable = true) :
    v.display ≠ "for".toList ∧ v.display ≠ "lambda".toList := by
  have ne {t : Text} (h : t ∉ Text.expressionKeywords) : t ≠ "for".toList ∧ t ≠ "lambda".toList :=
    ⟨fun heq => h (heq ▸ by decide), fun heq => h (heq ▸ by decide)⟩
  have starting {c : Char} (hc : Text.isAsciiLetter c = false) (rest : Text) :
      c :: rest ≠ "for".toList ∧ c :: rest ≠ "lambda".toList :=
    ne (Text.not_keyword_of_mem List.mem_cons_self hc)
  cases v with
  | bool b => cases b <;> decide
  | nothing => decide
  | int n => exact ne (Text.ofInt_not_keyword n)
  | string s => exact starting (by decide) _
  | emptyList => exact starting (by decide) _
  | emptyDict => exact starting (by decide) _
  | emptyTuple => exact starting (by decide) _
  | list items => exact starting (by decide) _
  | dict entries => exact starting (by decide) _
  | tuple items =>
      cases items with
      | nil => exact nomatch h
      | cons v vs =>
          cases vs with
          | nil => exact starting (by decide) _
          | cons w vs => exact starting (by decide) _
  | classReference name => exact ne (Text.not_keyword_of_isPath h)
  | construction name args =>
      have paren : '(' ∈ (construction name args).display := by
        rw [display, List.append_assoc]
        exact List.mem_append_right name List.mem_cons_self
      exact ne (Text.not_keyword_of_mem paren (by decide))
  | external path =>
      obtain ⟨hne, hpath⟩ := path_of_isReadable h
      exact ne (Text.not_keyword_of_isPath (Text.isPath_join hne hpath))
  | float x => exact nomatch h
  | unrecognized t => exact nomatch h

end Value

end ClassOutline
