/-
  ClassOutline.Proofs.Outline.Replaced
  ────────────────────────────────
  **A CLASS THAT IS REPLACED LEAVES NO TRACE.**

  A class of the module without classes in it, defined again further down,
  might as well not have been there.  Its draft is left out in the end.  What it
  defined differs from what was there before in its own name and in keys below
  it only (`agreeBut_noteAll`), which no class in between touches otherwise, and
  when its name starts again both are set anew (`AgreeBut.starts_again`).

  The one way in which the earlier block could be missed is that without it the
  name starts for the first time, and then nothing is forgotten.  But then
  nothing below the name is bound: whoever binds a key stands in a class that
  has started (`Grounded`).
-/
import ClassOutline.Proofs.Outline.Notes

namespace ClassOutline

open Text (IsBelow IsWithin)

variable {cfg : Config} {name : Text}

/-! ## §1. What is bound below a name. -/

/-- Where something is open or bound that is in a class of the module, the class has started. -/
structure Grounded (name : Text) (opened : List Event) (d : Definitions) : Prop where
  opened : ∀ c, .classStart c ∈ opened → IsWithin name c.name → d.HasStarted name
  bound : ∀ key, IsBelow name key → d.bindings.get? key ≠ none → d.HasStarted name

namespace Grounded

variable {opened : List Event} {d : Definitions}

theorem empty (name : Text) : Grounded name [] {} :=
  ⟨fun _ hc => absurd hc List.not_mem_nil, fun _ _ hget => absurd rfl hget⟩

/-- What is bound may be below the name only if the class has started. -/
theorem binds (h : Grounded name opened d) {key : Text} {b : Binding}
    (hkey : IsBelow name key → d.HasStarted name) : Grounded name opened (d.note (.binds key b)) := by
  refine ⟨h.opened, fun other hother hget => ?_⟩
  rw [Definitions.bindings_note_binds] at hget
  by_cases heq : other = key
  · exact hkey (heq ▸ hother)
  · rw [if_neg heq] at hget
    exact h.bound other hother hget

/-- A class starts, inside the class of the name only if that has started. -/
theorem starts (h : Grounded name opened d) {c : ClassStart}
    (hstart : IsWithin name c.name → c.name = name ∨ d.HasStarted name) :
    Grounded name (.classStart c :: opened) (d.note (.starts c.name)) := by
  have kept (hd : d.HasStarted name) : (d.note (.starts c.name)).HasStarted name :=
    (Definitions.hasStarted_note _ _ _).2 (.inl hd)
  refine ⟨fun c' hc' hwithin => ?_, fun key hkey hget => ?_⟩
  · rcases List.mem_cons.1 hc' with heq | hc'
    · obtain rfl := Event.classStart.inj heq
      rcases hstart hwithin with rfl | hstarted
      · exact (Definitions.hasStarted_note _ _ _).2 (.inr rfl)
      · exact kept hstarted
    · exact kept (h.opened c' hc' hwithin)
  · rw [Definitions.bindings_note_starts] at hget
    split at hget
    · exact absurd rfl hget
    · exact kept (h.bound key hkey hget)

theorem of_subset (h : Grounded name opened d) {opened' : List Event}
    (hsub : ∀ c, .classStart c ∈ opened' → .classStart c ∈ opened) : Grounded name opened' d :=
  ⟨fun c hc => h.opened c (hsub c hc), h.bound⟩

/-- What belongs to a class in that of the name belongs to an open one. -/
theorem of_findSome? (h : Grounded name opened d) {owner : Text}
    (howner : opened.findSome? Event.className? = some owner) (hwithin : IsWithin name owner) :
    d.HasStarted name := by
  obtain ⟨c, hc, rfl⟩ := Event.exists_of_findSome?_className? howner
  exact h.opened c hc hwithin

/-- **Each event that fits keeps what is bound in started classes.** -/
theorem step (hdot : '.' ∉ name) (h : Grounded name opened d) {e : Event}
    (fits : e.FitsIn cfg opened.head?) :
    Grounded name (e.openedAfter opened) (d.noteAll (e.notes cfg opened)) := by
  cases e with
  | classStart c =>
      refine h.starts fun hwithin => ?_
      rcases hwithin with heq | hbelow
      · exact .inl heq
      · rcases fits with ⟨-, hname⟩ | ⟨outer, own, houter, hown, heq⟩
        · -- nothing without dots is below a name
          exact absurd (Text.dot_mem_of_isBelow hbelow) (Text.dot_not_mem_of_isName hname)
        · rw [heq, Text.isBelow_append_cons_iff (Text.dot_not_mem_of_isName hown)] at hbelow
          exact .inr (h.opened outer (List.mem_of_head? houter) (hbelow.imp_left Eq.symm))
  | classAssignment a =>
      show Grounded name opened (d.noteAll (Event.notes cfg opened (.classAssignment a)))
      rw [Event.notes]
      split
      · next owner howner =>
        refine h.binds fun hbelow => h.of_findSome? howner ?_
        rw [Definitions.classKey,
          Text.isBelow_append_cons_iff (Text.dot_not_mem_of_isName fits.2)] at hbelow
        exact hbelow.imp_left Eq.symm
      · exact h
  | selfAssignment a =>
      obtain ⟨m, -, -, -, hname⟩ := fits
      show Grounded name opened (d.noteAll (Event.notes cfg opened (.selfAssignment a)))
      rw [Event.notes]
      split
      · next owner selfName howner _ =>
        refine h.binds fun hbelow => h.of_findSome? howner ?_
        -- neither of the two parts that the key has behind the class has a dot
        rw [Definitions.selfKey_eq,
          Text.isBelow_append_cons_iff (Text.dot_not_mem_of_isName hname)] at hbelow
        rcases hbelow with rfl | hbelow
        · simp at hdot
        · rw [Text.isBelow_append_cons_iff (by decide)] at hbelow
          exact hbelow.imp_left Eq.symm
      · exact h
  | moduleAssignment other value line =>
      refine h.binds fun hbelow => ?_
      exact absurd (Text.dot_mem_of_isBelow hbelow) (Text.dot_not_mem_of_isName fits.2)
  | methodStart m => exact h.of_subset fun c hc => (List.mem_cons.1 hc).resolve_left Event.noConfusion
  | classEnd | methodEnd => exact h.of_subset fun c hc => List.mem_of_mem_tail hc
  | docstring | decorator | ignored => exact h

theorem run (hdot : '.' ∉ name) (h : Grounded name opened d) {es : List Event}
    (hes : ShapedFrom cfg opened es) :
    Grounded name [] (d.noteAll (Event.notesFrom cfg opened es)) := by
  induction es generalizing opened d with
  | nil =>
      obtain rfl : opened = [] := hes
      exact h
  | cons e es ih =>
      rw [Event.notesFrom, Definitions.noteAll_append]
      exact ih (h.step hdot hes.1) hes.2

end Grounded

/-! ## §2. Definitions that differ in one class. -/

namespace Definitions

variable {d d' : Definitions}

/-- Definitions that differ in a class of the module at most, and in what is bound in it. -/
abbrev AgreeBut (name : Text) (d d' : Definitions) : Prop :=
  AgreeOn (· ≠ name) (¬IsBelow name ·) d d'

/-- Notes of the class itself and of what is bound in it make no other difference. -/
theorem agreeBut_noteAll (hdot : '.' ∉ name) {notes : List Note}
    (hwithin : ∀ n ∈ notes, n.IsWithin name) (hstarts : ∀ n, .starts n ∈ notes → n = name) :
    AgreeBut name (d.noteAll notes) d := by
  induction notes generalizing d with
  | nil => exact .refl _ _ _
  | cons n notes ih =>
      have later := ih (d := d.note n) (fun n' hn => hwithin n' (List.mem_cons_of_mem n hn))
        fun n' hn => hstarts n' (List.mem_cons_of_mem n hn)
      refine later.trans ?_
      cases n with
      | starts started =>
          obtain rfl := hstarts started List.mem_cons_self
          refine ⟨fun other hother => ?_, fun key hkey => ?_⟩
          · rw [classes_note_starts, if_neg hother, Text.shortName?_of_dotless hdot,
              if_neg (Option.some_ne_none other).symm]
          · rw [bindings_note_starts, if_neg fun h => hkey h.1]
      | binds key b =>
          refine ⟨fun _ _ => rfl, fun other hother => ?_⟩
          have hkey : IsBelow name key := hwithin (.binds key b) List.mem_cons_self
          have hne : other ≠ key := fun heq => hother (heq ▸ hkey)
          rw [bindings_note_binds, if_neg hne]

/-- Later notes make no difference where there was none. -/
theorem AgreeBut.noteAll (h : AgreeBut name d d') (notes : List Note) :
    AgreeBut name (d.noteAll notes) (d'.noteAll notes) := by
  refine AgreeOn.noteAll h fun started _ => ?_
  by_cases hname : started = name
  · exact .inr fun key hkey hnot => hnot (hname ▸ hkey)
  · exact .inl hname

/-- **A class that starts again ends all difference**, if in both definitions something is bound
in it only when it had started. -/
theorem AgreeBut.starts_again (h : AgreeBut name d d') (hd : d.HasStarted name)
    (hd' : ∀ key, IsBelow name key → d'.bindings.get? key ≠ none → d'.HasStarted name) :
    Agree (d.note (.starts name)) (d'.note (.starts name)) := by
  refine ⟨fun other _ => ?_, fun key _ => ?_⟩
  · rw [classes_note_starts, classes_note_starts]
    by_cases hother : other = name
    · rw [if_pos hother, if_pos hother]
    · rw [if_neg hother, if_neg hother, h.classes other hother]
  · rw [bindings_note_starts, bindings_note_starts]
    by_cases hkey : IsBelow name key
    · rw [if_pos ⟨hkey, hd⟩]
      by_cases hstarted : d'.HasStarted name
      · rw [if_pos ⟨hkey, hstarted⟩]
      · rw [if_neg fun h => hstarted h.2]
        exact (Classical.byContradiction fun hget => hstarted (hd' key hkey hget)).symm
    · rw [if_neg fun h => hkey h.1, if_neg fun h => hkey h.1, h.bindings key hkey]

end Definitions

/-- The definitions of a run in which the replaced block is left out. -/
theorem Definitions.agree_without_replaced {P B M Q : List Event} {again : ClassStart}
    (hP : Shaped cfg P) (hB : ClassBlock cfg again.name B)
    (hsole : Event.startedNames B = [again.name]) (hM : Shaped cfg M) :
    Agree
      (({} : Definitions).noteAll (Event.notesFrom cfg [] (P ++ B ++ M ++ .classStart again :: Q)))
      (({} : Definitions).noteAll (Event.notesFrom cfg [] (P ++ M ++ .classStart again :: Q))) := by
  have hdot := Text.dot_not_mem_of_isName hB.isName
  have hPB : Shaped cfg (P ++ B) := hP.append hB.shaped
  rw [Event.notesFrom_append (ShapedFrom.append hPB hM), Event.notesFrom_append hPB,
    Event.notesFrom_append hP, Event.notesFrom_append (hP.append hM), Event.notesFrom_append hP]
  simp only [noteAll_append]
  have differ := agreeBut_noteAll (d := ({} : Definitions).noteAll (Event.notesFrom cfg [] P)) hdot
    hB.notes_within fun name hname => by
      have hmem := Event.starts_mem_notesFrom_iff.1 hname
      rw [hsole] at hmem
      exact List.mem_singleton.1 hmem
  have started : ((({} : Definitions).noteAll (Event.notesFrom cfg [] P)).noteAll
      (Event.notesFrom cfg [] B)).HasStarted again.name := by
    refine (hasStarted_noteAll _ _ _).2 (.inr (Event.starts_mem_notesFrom_iff.2 ?_))
    rw [hsole]
    exact List.mem_cons_self
  have grounded := ((Grounded.empty again.name).run hdot hP).run hdot hM
  have restarted := (differ.noteAll (Event.notesFrom cfg [] M)).starts_again
    ((hasStarted_noteAll _ _ _).2 (.inl started)) grounded.bound
  exact restarted.noteAll (Event.notesFrom cfg [.classStart again] Q)

/-! ## §3. The classes. -/

/-- **A REPLACED CLASS LEAVES NO TRACE.**  A block of a class of the module, with no classes in
it, may be left out if a class of its name starts behind it where nothing is open: the classes
are the same, with all of their members and values. -/
theorem Class.ofEvents_without_replaced {P B M Q : List Event} {C : Text} {again : ClassStart}
    (shaped : Shaped cfg (P ++ B ++ M ++ .classStart again :: Q)) (hP : Shaped cfg P)
    (hB : ClassBlock cfg C B) (hsole : Event.startedNames B = [C]) (hM : Shaped cfg M)
    (hagain : again.name = C) :
    (Class.ofEvents cfg (P ++ B ++ M ++ .classStart again :: Q)).1
      = (Class.ofEvents cfg (P ++ M ++ .classStart again :: Q)).1 := by
  subst hagain
  have hPB : Shaped cfg (P ++ B) := hP.append hB.shaped
  have hPBM : Shaped cfg (P ++ B ++ M) := ShapedFrom.append hPB hM
  have hPM : Shaped cfg (P ++ M) := hP.append hM
  have hQ : Shaped cfg (.classStart again :: Q) := hPBM.of_append shaped
  have short : Shaped cfg (P ++ M ++ .classStart again :: Q) := hPM.append hQ
  have agree := Definitions.agree_without_replaced (Q := Q) hP hB hsole hM
  rw [Class.ofEvents_eq_keptClasses shaped, Class.ofEvents_eq_keptClasses short,
    Assembly.keptClasses_eq_of_agree agree, Assembly.keptClasses_append hPBM,
    Assembly.keptClasses_append hPB, Assembly.keptClasses_append hP,
    Assembly.keptClasses_append hPM, Assembly.keptClasses_append hP]
  have later : again.name ∈ Event.startedNames (M ++ (.classStart again :: Q ++ [])) := by
    rw [Event.startedNames_append]
    exact List.mem_append_right _ List.mem_cons_self
  have gone (d : Definitions) :
      Assembly.keptClasses cfg d B (M ++ (.classStart again :: Q ++ [])) = [] := by
    refine List.eq_nil_iff_forall_not_mem.2 fun c hc => ?_
    obtain ⟨hname, hnot⟩ := Assembly.mem_keptClasses hc
    rw [hsole] at hname
    exact hnot (List.mem_singleton.1 hname ▸ later)
  -- nor does it replace an earlier class that would not be replaced anyway
  have earlier (d : Definitions) :
      Assembly.keptClasses cfg d P (B ++ (M ++ (.classStart again :: Q ++ [])))
        = Assembly.keptClasses cfg d P (M ++ (.classStart again :: Q ++ [])) := by
    refine Assembly.keptClasses_congr fun name _ => ?_
    rw [Event.startedNames_append, hsole, List.mem_append, List.mem_singleton]
    exact or_iff_right_of_imp fun hname => hname ▸ later
  rw [gone, earlier, List.append_nil]

/-- The second class of a name knows nothing of what the first one had bound. -/
theorem Class.ofEvents_without_replaced_binding :
    (Class.ofEvents {} ([.ignored .call 1]
        ++ [.classStart ⟨['A'], [], none, 2⟩, .classAssignment ⟨['x'], none, ['B'], 3⟩,
            .classEnd ['A']]
        ++ [.classStart ⟨['B'], [], none, 4⟩, .classEnd ['B']]
        ++ [.classStart ⟨['A'], [], none, 5⟩, .classAssignment ⟨['y'], none, ['x'], 6⟩,
            .classEnd ['A']])).1
      = (Class.ofEvents {} ([.ignored .call 1]
        ++ [.classStart ⟨['B'], [], none, 4⟩, .classEnd ['B']]
        ++ [.classStart ⟨['A'], [], none, 5⟩, .classAssignment ⟨['y'], none, ['x'], 6⟩,
            .classEnd ['A']])).1 := by
  have call : Shaped {} [.ignored .call 1] := ⟨trivial, rfl⟩
  have replaced : ClassBlock {} ['A'] [.classStart ⟨['A'], [], none, 2⟩,
      .classAssignment ⟨['x'], none, ['B'], 3⟩, .classEnd ['A']] :=
    ⟨⟨.inl ⟨rfl, by decide⟩, ⟨⟨_, rfl⟩, by decide⟩, ⟨_, rfl, rfl⟩, rfl⟩,
     ⟨_, _, rfl, rfl, List.cons_ne_nil _ _, List.cons_ne_nil _ _, trivial⟩⟩
  have between : Shaped {} [.classStart ⟨['B'], [], none, 4⟩, .classEnd ['B']] :=
    ⟨.inl ⟨rfl, by decide⟩, ⟨_, rfl, rfl⟩, rfl⟩
  have again : Shaped {} [.classStart ⟨['A'], [], none, 5⟩,
      .classAssignment ⟨['y'], none, ['x'], 6⟩, .classEnd ['A']] :=
    ⟨.inl ⟨rfl, by decide⟩, ⟨⟨_, rfl⟩, by decide⟩, ⟨_, rfl, rfl⟩, rfl⟩
  exact Class.ofEvents_without_replaced
    (ShapedFrom.append (ShapedFrom.append (call.append replaced.shaped) between) again)
    call replaced rfl between rfl

end ClassOutline
