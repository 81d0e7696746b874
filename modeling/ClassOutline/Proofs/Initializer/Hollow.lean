/-
  ClassOutline.Proofs.Initializer.Hollow
  ────────────────────────────────
  **CONTAINERS OF NOTHING.**

  A list, dict or tuple without elements has a value of its own, which is found
  by what is enclosed being blank.  Elements are found otherwise: pieces between
  commas that are blank are dropped, and so are those of a dict that unpack
  another or that no colon divides.  An expression that loses all its pieces that
  way is *hollow* (`Text.IsHollow`): `[,]` is read as a list, of no elements.

  This is the only way a container of nothing can come about
  (`containsHollow_classify_iff`).
-/
import ClassOutline.Proofs.Initializer.Forms
import ClassOutline.Proofs.Initializer.Layer
import ClassOutline.Proofs.Initializer.Results

namespace ClassOutline

/-! ## §1. Values with hollow parts. -/

namespace Value

mutual

/-- The value or some value inside it is a list, dict or tuple of nothing, but not by the value
that stands for one. -/
def containsHollow : Value → Bool
  | list items | tuple items => items.isEmpty || anyHollow items
  | dict entries => entries.isEmpty || anyEntryHollow entries
  | construction _ args => anyHollow args
  | _ => false

/-- Some of the values contains a hollow one. -/
def anyHollow : List Value → Bool
  | [] => false
  | v :: vs => v.containsHollow || anyHollow vs

/-- Some key or value of the entries contains a hollow one. -/
def anyEntryHollow : List (Value × Value) → Bool
  | [] => false
  | (k, v) :: rest => k.containsHollow || v.containsHollow || anyEntryHollow rest

end

theorem containsHollow_of_isLiteral {v : Value} (h : v.isLiteral = true) :
    v.containsHollow = false := by
  cases v with
  | bool | int | float | string | nothing | emptyList | emptyDict | emptyTuple => rfl
  | _ => exact nomatch h

end Value

namespace Initializer

mutual

/-- The same before names are looked up. -/
def containsHollow : Initializer → Bool
  | literal v => v.containsHollow
  | list items | tuple items => items.isEmpty || anyHollow items
  | dict entries => entries.isEmpty || anyEntryHollow entries
  | call _ args => anyHollow args
  | name _ => false

/-- Some of the expressions contains a hollow one. -/
def anyHollow : List Initializer → Bool
  | [] => false
  | i :: is => i.containsHollow || anyHollow is

/-- Some key or value of the entries contains a hollow one. -/
def anyEntryHollow : List (Initializer × Initializer) → Bool
  | [] => false
  | (k, v) :: rest => k.containsHollow || v.containsHollow || anyEntryHollow rest

end

theorem anyHollow_map {α : Type} (f : α → Initializer) (as : List α) :
    anyHollow (as.map f) = as.any fun a => (f a).containsHollow := by
  induction as with
  | nil => rfl
  | cons a as ih =>
      show ((f a).containsHollow || anyHollow (as.map f)) = _
      rw [ih, List.any_cons]

theorem anyEntryHollow_map {α : Type} (key value : α → Initializer) (as : List α) :
    anyEntryHollow (as.map fun a => (key a, value a))
      = as.any fun a => (key a).containsHollow || (value a).containsHollow := by
  induction as with
  | nil => rfl
  | cons a as ih =>
      show ((key a).containsHollow || (value a).containsHollow || anyEntryHollow (as.map _)) = _
      rw [ih, List.any_cons]

end Initializer

/-! ## §2. Layers with nothing in them. -/

namespace Layer

/-- A container of nothing. -/
def isHollow : Layer → Bool
  | list parts | tuple parts => parts.isEmpty
  | dict entries => entries.isEmpty
  | literal _ | name _ | call _ _ => false

/-- What is built from a layer is hollow if the layer is, and contains what its parts contain. -/
theorem containsHollow_build {l : Layer} (hliteral : ∀ v, l = literal v → v.containsHollow = false)
    (inner : Text → Initializer) :
    (l.build inner).containsHollow
      = (l.isHollow || l.parts.any fun part => (inner part).containsHollow) := by
  cases l with
  | literal v => exact hliteral v rfl
  | name path => rfl
  | call path args => exact Initializer.anyHollow_map inner args
  | list parts | tuple parts =>
      show ((parts.map inner).isEmpty || Initializer.anyHollow (parts.map inner)) = _
      rw [Initializer.anyHollow_map, List.isEmpty_map]
      rfl
  | dict entries =>
      show ((entries.map _).isEmpty || Initializer.anyEntryHollow (entries.map _)) = _
      rw [Initializer.anyEntryHollow_map, List.isEmpty_map]
      show _ = (entries.isEmpty || (entries.flatMap _).any _)
      rw [List.any_flatMap]
      congr 2
      funext e
      simp only [List.any_cons, List.any_nil, Bool.or_false]

end Layer

namespace Text

/-! ## §3. Hollow texts. -/

/-- An expression that is written with separators, or with entries that are none, and nothing
else. -/
inductive IsHollow (t : Text) : Prop where
  /-- Nothing but commas and blanks: a tuple. -/
  | commas (h : IsSeparators t) (hcomma : ',' ∈ t)
  /-- Such a text in square brackets. -/
  | list {enclosed : Text} (htext : t = '[' :: (enclosed ++ [']'])) (h : IsSeparators enclosed)
      (hcomma : ',' ∈ enclosed)
  /-- Such a text in parentheses. -/
  | tuple {enclosed : Text} (htext : t = '(' :: (enclosed ++ [')'])) (h : IsSeparators enclosed)
      (hcomma : ',' ∈ enclosed)
  /-- Pieces in braces that unpack another dict or that no colon divides, but no set: some colon is
  at top level, be it one of a `lambda`. -/
  | dict {enclosed : Text} (htext : enclosed? '{' '}' t = some enclosed)
      (hcomprehension : isComprehension enclosed = false)
      (hcolon : enclosed.hasTopLevel ':' = true)
      (h : ∀ piece ∈ enclosed.commaItems,
        piece.startsWith ['*', '*'] = true ∨ ¬ IsDivided piece)

/-- A text of commas and blanks has a comma if it is not blank. -/
theorem IsSeparators.mem_comma {t : Text} (h : IsSeparators t) (hblank : t.trim ≠ []) :
    ',' ∈ t := by
  obtain ⟨c, hc, hnot⟩ := exists_not_isBlank_of_trim_ne_nil hblank
  have hmem : c ∈ t := mem_of_mem_trim hc
  rcases h c hmem with rfl | hc
  · exact hmem
  · rw [hc] at hnot
    exact nomatch hnot

/-- Commas and blanks are no comprehension. -/
theorem IsSeparators.isComprehension_eq_false {t : Text} (h : IsSeparators t) :
    isComprehension t = false := by
  refine Bool.eq_false_iff.2 fun hfor => ?_
  have hmem : 'f' ∈ t := mem_of_mem_atoms (List.contains_iff_mem.1 hfor) List.mem_cons_self
  rcases h 'f' hmem with h | h
  · exact absurd h (by decide)
  · exact absurd h (by decide)

/-- Commas and blanks keep the nesting. -/
theorem IsSeparators.keeps {t : Text} (h : IsSeparators t) : Keeps (fun _ => false) t :=
  .of_plain fun _ hc => ⟨h.isPlain hc, rfl⟩

/-- A comma among separators is at top level. -/
theorem IsSeparators.hasTopLevel {t : Text} (h : IsSeparators t) (hcomma : ',' ∈ t) :
    t.hasTopLevel ',' = true := by
  obtain ⟨before, after, rfl⟩ := List.append_of_mem hcomma
  have keeps : Keeps (fun _ => false) before :=
    .of_plain fun c hc => ⟨h.isPlain (List.mem_append_left _ hc), rfl⟩
  exact keeps.hasTopLevel_append (h.isPlain hcomma) after

/-- **A TEXT HAS A LAYER WITH NOTHING IN IT EXACTLY IF IT IS WRITTEN SO.** -/
theorem isHollow_layer_iff {t : Text} : t.layer.isHollow = true ↔ t.IsHollow := by
  constructor
  · intro h
    -- containers are the only layers with elements to lose
    have hasLayer := t.hasLayer
    generalize t.layer = l at h hasLayer
    cases hasLayer with
    | literal | name | call => exact nomatch h
    | items hcomma =>
        exact .commas (items_eq_nil_iff.1 (List.isEmpty_iff.1 h)) (mem_of_hasTopLevel hcomma)
    | square htext hblank =>
        have separators := items_eq_nil_iff.1 (List.isEmpty_iff.1 h)
        exact .list (eq_of_enclosed? htext).1 separators (separators.mem_comma hblank)
    | braces htext hcomprehension hcolon =>
        exact .dict htext hcomprehension hcolon (entries_eq_nil_iff.1 (List.isEmpty_iff.1 h))
    | parentheses htext hblank =>
        have separators := items_eq_nil_iff.1 (List.isEmpty_iff.1 h)
        exact .tuple (eq_of_enclosed? htext).1 separators (separators.mem_comma hblank)
  · intro h
    -- the text has the form it is written in, for none that is tried before fits it
    cases h with
    | commas h hcomma =>
        rw [layer_of_hasTopLevel (h.hasTopLevel hcomma)]
        exact List.isEmpty_iff.2 (items_eq_nil_iff.2 h)
    | list htext h hcomma =>
        have enclosed := enclosed?_of_brackets (.inr (.inl ⟨rfl, rfl⟩)) h.keeps
        rw [← htext] at enclosed
        rw [layer_of_square enclosed, listLayer, enclosedLayer, h.isComprehension_eq_false,
          if_neg Bool.false_ne_true, if_neg (not_isEmpty_trim hcomma (by decide))]
        exact List.isEmpty_iff.2 (items_eq_nil_iff.2 h)
    | tuple htext h hcomma =>
        have enclosed := enclosed?_of_brackets (.inl ⟨rfl, rfl⟩) h.keeps
        rw [← htext] at enclosed
        rw [layer_of_parentheses enclosed, tupleLayer, enclosedLayer, h.isComprehension_eq_false,
          if_neg Bool.false_ne_true, if_neg (not_isEmpty_trim hcomma (by decide))]
        exact List.isEmpty_iff.2 (items_eq_nil_iff.2 h)
    | dict htext hcomprehension hcolon h =>
        rw [layer_of_braces htext, dictLayer, enclosedLayer, hcomprehension, if_neg Bool.false_ne_true,
          if_neg (not_isEmpty_trim (mem_of_hasTopLevel hcolon) (by decide)), hcolon]
        exact List.isEmpty_iff.2 (entries_eq_nil_iff.2 h)

/-! ## §4. All levels. -/

/-- A literal holds no containers but those that stand for empty ones. -/
theorem containsHollow_of_layer_eq_literal {t : Text} {v : Value} (h : t.layer = .literal v) :
    v.containsHollow = false := by
  -- whatever is inside, one level of the classification results in this literal
  have value : (classifyForm (classifyWithin 0) t).value = .literal v := by
    rw [classifyForm_value, h]
    rfl
  have result := classifyForm_result (classifyWithin 0) t
  generalize classifyForm (classifyWithin 0) t = r at value result
  cases result with
  | literal hv =>
      obtain rfl := Initializer.literal.inj value
      exact Value.containsHollow_of_isLiteral hv
  | kept t =>
      obtain rfl := Initializer.literal.inj value
      rfl
  | name | list | dict | tuple | call => exact nomatch value

/-- **A classified expression contains a hollow part if one of the expressions in it has a hollow
layer**, as far down as is read. -/
theorem containsHollow_classifyWithin (levels : Nat) (t : Text) :
    (classifyWithin levels t).value.containsHollow
      = (expressionsWithin levels t).any fun s => s.layer.isHollow := by
  -- on the levels that are left; below the last one everything is kept as written
  induction levels generalizing t with
  | zero => rfl
  | succ levels ih =>
      show (classifyForm (classifyWithin levels) t.trim).value.containsHollow = _
      rw [classifyForm_value,
        Layer.containsHollow_build fun v => containsHollow_of_layer_eq_literal, expressionsWithin,
        List.any_cons, List.any_flatMap]
      simp only [ih]

/-- Some expression in a text is hollow. -/
def HasHollow (t : Text) : Prop := ∃ s ∈ t.expressions, s.IsHollow

/-- **A CONTAINER OF NOTHING COMES FROM A HOLLOW EXPRESSION**, wherever in the text that is, and
every hollow expression gives one. -/
theorem containsHollow_classify_iff (t : Text) :
    t.classify.value.containsHollow = true ↔ t.HasHollow := by
  unfold classify HasHollow
  rw [containsHollow_classifyWithin, List.any_eq_true]
  exact exists_congr fun s => and_congr_right fun _ => isHollow_layer_iff

/-- A comma is missing in front of a list of nothing; a string is none. -/
example : (classify "(1 [ , ], x)".toList).value.containsHollow = true
    ∧ (classify "['[,]', (), f(,)]".toList).value.containsHollow = false := by
  decide +kernel

end Text

end ClassOutline
