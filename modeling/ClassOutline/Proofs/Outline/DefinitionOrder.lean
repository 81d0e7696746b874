/-
  ClassOutline.Proofs.Outline.DefinitionOrder
  ────────────────────────────────
  **THE ORDER OF CLASSES DOES NOT MATTER TO WHAT THEIR VALUES MEAN.**

  Two classes of the module that stand side by side may be exchanged.  Names
  are looked up when all events are in, so this needs only that both orders
  define the same.  They do: what a block defines concerns its class and what
  is in it, and these are different classes.  The one thing both could claim is
  an alias, the last part of a nested class's name, which goes to the first
  that asks for it.
-/
import ClassOutline.Proofs.Outline.Notes

namespace ClassOutline

open Text (shortName?)

variable {cfg : Config}

/-- Classes that some events start and that later ones do not start again. -/
def StartedLastIn (es later : List Event) (cs : List (Class Value)) : Prop :=
  ∀ c ∈ cs, c.name ∈ Event.startedNames es ∧ c.name ∉ Event.startedNames later

/-! ## §1. Two blocks define the same in either order. -/

/-- The classes of a block are those of its class and in it. -/
theorem ClassBlock.startedNames_within {name : Text} {es : List Event} (h : ClassBlock cfg name es) :
    ∀ n ∈ Event.startedNames es, Text.IsWithin name n := by
  intro n hn
  exact h.notes_within (.starts n) (Event.starts_mem_notesFrom_iff.2 hn)

theorem ClassBlock.disjoint {name name' : Text} {es es' : List Event} (h : ClassBlock cfg name es)
    (h' : ClassBlock cfg name' es') (hne : name ≠ name') :
    ∀ n ∈ Event.startedNames es, n ∉ Event.startedNames es' := by
  intro n hn hn'
  exact hne (Text.IsWithin.eq_of_dotless (Text.dot_not_mem_of_isName h.isName)
    (Text.dot_not_mem_of_isName h'.isName) (h.startedNames_within n hn)
    (h'.startedNames_within n hn'))

/-- The notes of two blocks are independent, if no two classes in them have one alias. -/
theorem ClassBlock.independent {name name' : Text} {es es' : List Event}
    (h : ClassBlock cfg name es) (h' : ClassBlock cfg name' es') (hne : name ≠ name')
    (hshort : ∀ n ∈ Event.startedNames es, ∀ n' ∈ Event.startedNames es', ∀ short,
      shortName? n = some short → shortName? n' ≠ some short) :
    ∀ x ∈ Event.notesFrom cfg [] es, ∀ y ∈ Event.notesFrom cfg [] es', x.Independent y := by
  intro x hx y hy
  refine Note.IsWithin.independent (Text.dot_not_mem_of_isName h.isName)
    (Text.dot_not_mem_of_isName h'.isName) hne (h.notes_within x hx) (h'.notes_within y hy) ?_
  rintro n n' short rfl rfl
  exact hshort n (Event.starts_mem_notesFrom_iff.1 hx) n' (Event.starts_mem_notesFrom_iff.1 hy)
    short

/-- Exchanging two blocks leaves all definitions as they are. -/
theorem Definitions.agree_swap {P B₁ B₂ Q : List Event} (hP : Shaped cfg P) (h₁ : Shaped cfg B₁)
    (h₂ : Shaped cfg B₂) (hindependent : ∀ x ∈ Event.notesFrom cfg [] B₁,
      ∀ y ∈ Event.notesFrom cfg [] B₂, x.Independent y) :
    Agree (({} : Definitions).noteAll (Event.notesFrom cfg [] (P ++ B₁ ++ B₂ ++ Q)))
      (({} : Definitions).noteAll (Event.notesFrom cfg [] (P ++ B₂ ++ B₁ ++ Q))) := by
  simp only [List.append_assoc]
  rw [Event.notesFrom_append hP, Event.notesFrom_append h₁, Event.notesFrom_append h₂,
    Event.notesFrom_append hP, Event.notesFrom_append h₂, Event.notesFrom_append h₁]
  simp only [noteAll_append]
  exact (noteAll_comm _ hindependent).noteAll _

/-! ## §2. The classes. -/

/-- **CLASSES MAY BE DEFINED IN ANY ORDER.**  If two blocks of different classes side by side
are exchanged, and no class in the one has the last part of its name in common with a class in
the other, the outline has the same classes with the same members and values; those of the two
blocks change places. -/
theorem Class.ofEvents_swap {P B₁ B₂ Q : List Event} {C₁ C₂ : Text}
    (shaped : Shaped cfg (P ++ B₁ ++ B₂ ++ Q)) (hP : Shaped cfg P) (h₁ : ClassBlock cfg C₁ B₁)
    (h₂ : ClassBlock cfg C₂ B₂) (hne : C₁ ≠ C₂)
    (hshort : ∀ n₁ ∈ Event.startedNames B₁, ∀ n₂ ∈ Event.startedNames B₂, ∀ short,
      shortName? n₁ = some short → shortName? n₂ ≠ some short) :
    ∃ before first second behind : List (Class Value),
      (Class.ofEvents cfg (P ++ B₁ ++ B₂ ++ Q)).1 = before ++ first ++ second ++ behind
      ∧ (Class.ofEvents cfg (P ++ B₂ ++ B₁ ++ Q)).1 = before ++ second ++ first ++ behind
      ∧ StartedLastIn P (B₁ ++ B₂ ++ Q) before ∧ StartedLastIn B₁ (B₂ ++ Q) first
      ∧ StartedLastIn B₂ (B₁ ++ Q) second ∧ StartedLastIn Q [] behind := by
  have hP₁ : Shaped cfg (P ++ B₁) := hP.append h₁.shaped
  have hP₂ : Shaped cfg (P ++ B₂) := hP.append h₂.shaped
  have hP₁₂ : Shaped cfg (P ++ B₁ ++ B₂) := ShapedFrom.append hP₁ h₂.shaped
  have hP₂₁ : Shaped cfg (P ++ B₂ ++ B₁) := ShapedFrom.append hP₂ h₁.shaped
  have hQ : Shaped cfg Q := ShapedFrom.of_append hP₁₂ shaped
  have swapped : Shaped cfg (P ++ B₂ ++ B₁ ++ Q) := ShapedFrom.append hP₂₁ hQ
  have agree := Definitions.agree_swap (Q := Q) hP h₁.shaped h₂.shaped
    (h₁.independent h₂ hne hshort)
  let d := ({} : Definitions).noteAll (Event.notesFrom cfg [] (P ++ B₁ ++ B₂ ++ Q))
  -- the two blocks replace nothing of one another
  have first : Assembly.keptClasses cfg d B₁ Q = Assembly.keptClasses cfg d B₁ (B₂ ++ Q) := by
    refine Assembly.keptClasses_congr fun name hname => ?_
    rw [Event.startedNames_append, List.mem_append]
    exact (or_iff_right (h₁.disjoint h₂ hne name hname)).symm
  have second : Assembly.keptClasses cfg d B₂ Q = Assembly.keptClasses cfg d B₂ (B₁ ++ Q) := by
    refine Assembly.keptClasses_congr fun name hname => ?_
    rw [Event.startedNames_append, List.mem_append]
    exact (or_iff_right (h₂.disjoint h₁ hne.symm name hname)).symm
  have before : Assembly.keptClasses cfg d P (B₂ ++ (B₁ ++ Q))
      = Assembly.keptClasses cfg d P (B₁ ++ B₂ ++ Q) := by
    refine Assembly.keptClasses_congr fun name _ => ?_
    simp only [Event.startedNames_append, List.mem_append, or_assoc]
    exact or_left_comm
  refine ⟨Assembly.keptClasses cfg d P (B₁ ++ B₂ ++ Q), Assembly.keptClasses cfg d B₁ (B₂ ++ Q),
    Assembly.keptClasses cfg d B₂ (B₁ ++ Q), Assembly.keptClasses cfg d Q [], ?_, ?_,
    fun c hc => Assembly.mem_keptClasses hc, fun c hc => Assembly.mem_keptClasses hc,
    fun c hc => Assembly.mem_keptClasses hc, fun c hc => Assembly.mem_keptClasses hc⟩
  · rw [Class.ofEvents_eq_keptClasses shaped, Assembly.keptClasses_append hP₁₂,
      Assembly.keptClasses_append hP₁, Assembly.keptClasses_append hP, List.append_nil, second,
      List.append_assoc B₁]
  · rw [Class.ofEvents_eq_keptClasses swapped, Assembly.keptClasses_eq_of_agree agree.symm]
    show Assembly.keptClasses cfg d (P ++ B₂ ++ B₁ ++ Q) [] = _
    rw [Assembly.keptClasses_append hP₂₁, Assembly.keptClasses_append hP₂,
      Assembly.keptClasses_append hP, List.append_nil, first, before]

/-- A class that names one behind it may as well stand behind that one. -/
theorem Class.ofEvents_swap_forward_reference :
    ∃ before first second behind : List (Class Value),
      (Class.ofEvents {} ([.moduleAssignment ['v'] ['A'] 1]
        ++ [.classStart ⟨['A'], [], none, 2⟩, .classAssignment ⟨['x'], none, ['B'], 3⟩,
            .classEnd ['A']]
        ++ [.classStart ⟨['B'], [], none, 4⟩, .classStart ⟨['B', '.', 'C'], [], none, 5⟩,
            .classEnd ['B', '.', 'C'], .classEnd ['B']]
        ++ [.ignored .call 6])).1 = before ++ first ++ second ++ behind
      ∧ (Class.ofEvents {} ([.moduleAssignment ['v'] ['A'] 1]
        ++ [.classStart ⟨['B'], [], none, 4⟩, .classStart ⟨['B', '.', 'C'], [], none, 5⟩,
            .classEnd ['B', '.', 'C'], .classEnd ['B']]
        ++ [.classStart ⟨['A'], [], none, 2⟩, .classAssignment ⟨['x'], none, ['B'], 3⟩,
            .classEnd ['A']]
        ++ [.ignored .call 6])).1 = before ++ second ++ first ++ behind := by
  have module : Shaped {} [.moduleAssignment ['v'] ['A'] 1] := ⟨⟨rfl, by decide⟩, rfl⟩
  have user : ClassBlock {} ['A'] [.classStart ⟨['A'], [], none, 2⟩,
      .classAssignment ⟨['x'], none, ['B'], 3⟩, .classEnd ['A']] :=
    ⟨⟨.inl ⟨rfl, by decide⟩, ⟨⟨_, rfl⟩, by decide⟩, ⟨_, rfl, rfl⟩, rfl⟩,
     ⟨_, _, rfl, rfl, List.cons_ne_nil _ _, List.cons_ne_nil _ _, trivial⟩⟩
  have used : ClassBlock {} ['B'] [.classStart ⟨['B'], [], none, 4⟩,
      .classStart ⟨['B', '.', 'C'], [], none, 5⟩, .classEnd ['B', '.', 'C'], .classEnd ['B']] :=
    ⟨⟨.inl ⟨rfl, by decide⟩, .inr ⟨_, ['C'], rfl, by decide, rfl⟩, ⟨_, rfl, rfl⟩, ⟨_, rfl, rfl⟩,
      rfl⟩,
     ⟨_, _, rfl, rfl, List.cons_ne_nil _ _, List.cons_ne_nil _ _, List.cons_ne_nil _ _, trivial⟩⟩
  have shaped : Shaped {} ([.moduleAssignment ['v'] ['A'] 1] ++ _ ++ _ ++ [.ignored .call 6]) :=
    ShapedFrom.append (ShapedFrom.append (module.append user.shaped) used.shaped) ⟨trivial, rfl⟩
  obtain ⟨before, first, second, behind, h, h', -⟩ :=
    Class.ofEvents_swap shaped module user used (by decide) (by
      -- a class of the module has no alias
      intro n₁ h₁ n₂ _ short hshort
      obtain rfl := List.mem_singleton.1 h₁
      exact nomatch hshort)
  exact ⟨before, first, second, behind, h, h'⟩

end ClassOutline
