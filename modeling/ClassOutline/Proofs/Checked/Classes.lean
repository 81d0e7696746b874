/-
  ClassOutline.Proofs.Checked.Classes
  ────────────────────────────────
  **WHAT STANDS IN A SKIPPED BODY DOES NOT CHANGE THE CLASSES OF A RUN.**

  Whether an event can be taken is seen in its bare form and in the bare assembly
  (`takeFits_alike`), for neither a docstring nor a source is ever classified.  So
  two runs over the same lines but for bodies in which nothing counts are stopped at
  the same classes, or make the same bare ones, if both come to the end of their
  lines.

  They need not: a line in such a body can be the one that stops a run.
-/
import ClassOutline.Proofs.Checked.ShortLines
import ClassOutline.Proofs.Outline.MuteBodies

namespace ClassOutline

/-! ## §1. Taking bare events. -/

namespace Assembly

variable {cfg : Config} {s s' : Assembly}

theorem takeFits_silent {e : Event} (he : e.bare? = none) : s.takeFits cfg e = true := by
  cases e with
  | decorator name line => rfl
  | ignored reason line => rfl
  | docstring text line => rfl
  | _ => exact nomatch he

theorem isNone_innermost?_alike (h : s.bare = s'.bare) :
    s.innermost?.isNone = s'.innermost?.isNone := by
  rcases innermost?_alike h with ⟨hs, hs'⟩ | ⟨d, d', hs, hs', -⟩
  · rw [hs, hs']
  · rw [hs, hs']
    rfl

/-- **An event can be taken by a bare assembly if its bare form can.** -/
theorem takeFits_alike (h : s.bare = s'.bare) {e e' : Event} (he : e.bare? = some e') :
    s.takeFits cfg e = s'.takeFits cfg e' := by
  cases e with
  | methodStart start =>
      obtain rfl := Option.some.inj he
      show (s.opened.isEmpty || _) = (s'.opened.isEmpty || _)
      rw [opened_eq_of_bare_eq h]
      rfl
  | classAssignment written =>
      obtain rfl := Option.some.inj he
      show (s.innermost?.isNone || _) = (s'.innermost?.isNone || _)
      rw [isNone_innermost?_alike h]
  | selfAssignment written =>
      obtain rfl := Option.some.inj he
      show (s.innermost?.isNone || s.method.isNone || _)
        = (s'.innermost?.isNone || s'.method.isNone || _)
      rw [isNone_innermost?_alike h, method_eq_of_bare_eq h]
  | moduleAssignment name value line =>
      obtain rfl := Option.some.inj he
      rfl
  | classStart start =>
      obtain rfl := Option.some.inj he
      rfl
  | classEnd name =>
      obtain rfl := Option.some.inj he
      rfl
  | methodEnd name source =>
      obtain rfl := Option.some.inj he
      rfl
  | decorator name line => exact nomatch he
  | docstring text line => exact nomatch he
  | ignored reason line => exact nomatch he

/-- Events can be taken by a bare assembly if the bare events can. -/
theorem takeAllFits_alike (h : s.bare = s'.bare) (es : List Event) :
    s.takeAllFits cfg es = s'.takeAllFits cfg (bareEvents es) := by
  induction es generalizing s s' with
  | nil => rfl
  | cons e es ih =>
      rw [takeAllFits]
      cases he : e.bare? with
      | none =>
          have events : bareEvents (e :: es) = bareEvents es := List.filterMap_cons_none he
          rw [events, takeFits_silent he, Bool.true_and]
          exact ih ((take_silent cfg he s).trans h)
      | some e' =>
          have events : bareEvents (e :: es) = e' :: bareEvents es := List.filterMap_cons_some he
          rw [events, takeAllFits, takeFits_alike h he, ih (take_alike cfg h he)]

end Assembly

/-! ## §2. Runs over lines that are equal but for mute bodies. -/

/-- The bare classes that a run makes of logical lines. -/
def Checked.bareClasses (cfg : Config) (lines : List LogicalLine) : Option (List (Class Value)) :=
  (Checked.events cfg lines).bind fun output =>
    (Checked.classes cfg output.events).map fun made => made.1.map Class.bare

/-- The classes of a stream of events, and whether a run makes them, are seen in the bare events. -/
theorem Checked.classes_alike {cfg : Config} {es es' : List Event}
    (h : bareEvents es = bareEvents es') :
    (Checked.classes cfg es).map (fun made => made.1.map Class.bare)
      = (Checked.classes cfg es').map fun made => made.1.map Class.bare := by
  have fits : ({} : Assembly).takeAllFits cfg es = ({} : Assembly).takeAllFits cfg es' := by
    rw [Assembly.takeAllFits_alike rfl es, h, ← Assembly.takeAllFits_alike rfl es']
  unfold Checked.classes guarded
  rw [fits]
  split
  · exact congrArg some (Class.bare_ofEvents h)
  · rfl

theorem Checked.bareClasses_of_short (cfg : Config) {lines : List LogicalLine}
    (h : LogicalLine.AreShort lines) : ∃ classes, Checked.bareClasses cfg lines = some classes := by
  unfold Checked.bareClasses
  rw [Checked.events_of_short cfg h, Option.bind_some, Checked.classes_of_short cfg h]
  exact ⟨_, rfl⟩

/-- **WHAT STANDS IN A BODY WHERE NOTHING COUNTS DOES NOT CHANGE THE CLASSES.**  Of two lists of
lines that are equal but for such bodies, runs that come to the end of the lines make the same
classes, docstrings and the sources of methods apart, or are both stopped on the way to them.  Runs
over short lines make their classes. -/
theorem Class.bare_alike_of_muteBodies {cfg : Config} {ls ls' : List LogicalLine}
    (h : EqualButForMuteBodies cfg {} ls ls') :
    ((∃ output, Checked.events cfg ls = some output) →
        (∃ output, Checked.events cfg ls' = some output) →
        Checked.bareClasses cfg ls = Checked.bareClasses cfg ls')
      ∧ (LogicalLine.AreShort ls → LogicalLine.AreShort ls' →
        ∃ classes, Checked.bareClasses cfg ls = some classes
          ∧ Checked.bareClasses cfg ls' = some classes) := by
  have alike : (∃ output, Checked.events cfg ls = some output) →
      (∃ output, Checked.events cfg ls' = some output) →
      Checked.bareClasses cfg ls = Checked.bareClasses cfg ls' := by
    rintro ⟨output, hrun⟩ ⟨output', hrun'⟩
    obtain ⟨-, rfl⟩ := guarded_eq_some_iff.1 hrun
    obtain ⟨-, rfl⟩ := guarded_eq_some_iff.1 hrun'
    unfold Checked.bareClasses
    rw [hrun, hrun']
    exact Checked.classes_alike (Event.bareEvents_ofLines_eq h)
  refine ⟨alike, fun hshort hshort' => ?_⟩
  obtain ⟨classes, hclasses⟩ := Checked.bareClasses_of_short cfg hshort
  refine ⟨classes, hclasses, ?_⟩
  rw [← alike ⟨_, Checked.events_of_short cfg hshort⟩ ⟨_, Checked.events_of_short cfg hshort'⟩,
    hclasses]

/-- The name of the function that a statement defines. -/
def Statement.functionName? : Statement → Option Text
  | functionDef header _ => some header.name
  | _ => none

theorem Statement.exists_functionDef {s : Statement} {name : Text}
    (h : s.functionName? = some name) :
    ∃ function inline, s = functionDef function inline ∧ function.name = name := by
  cases s with
  | functionDef function inline => exact ⟨function, inline, rfl, Option.some.inj h⟩
  | _ => exact absurd h.symm (Option.some_ne_none name)

/-- A method in the class of the line in front of it, with one body or another. -/
theorem EqualButForMuteBodies.of_replaced_method {cfg : Config} {first header last : LogicalLine}
    {body body' : List LogicalLine} (outer name : Text)
    (scope : (({} : Context).readLine cfg first).1.scopeAt header.indent = .classBody outer)
    (method : (Statement.parse header.text).functionName? = some name)
    (other : name ≠ cfg.constructorName) (right : ∀ l ∈ body, header.indent < l.indent)
    (right' : ∀ l ∈ body', header.indent < l.indent) (ends : last.indent ≤ header.indent) :
    EqualButForMuteBodies cfg {} (first :: header :: (body ++ [last]))
      (first :: header :: (body' ++ [last])) := by
  obtain ⟨function, inline, parsed, hname⟩ := Statement.exists_functionDef method
  refine .line (.methodBody scope parsed (hname ▸ other) right right' (fun l hl => ?_) (.line .nil))
  obtain rfl := Option.some.inj hl
  exact ends

/-- A method whose body is replaced by a class, a broken header and an assignment to self. -/
theorem Class.bare_alike_of_replaced_method :
    let start : List LogicalLine :=
      [⟨1, 1, 0, "class A:".toList, true, []⟩, ⟨2, 2, 4, "def m(self):".toList, true, []⟩]
    let body : List LogicalLine := [⟨3, 3, 8, "pass".toList, true, []⟩]
    let body' : List LogicalLine :=
      [⟨3, 3, 12, "class B: y = 2".toList, true, []⟩, ⟨4, 4, 8, "def broken".toList, true, []⟩,
       ⟨5, 5, 9, "self.z = 3; @trace".toList, true, []⟩]
    let last : LogicalLine := ⟨6, 6, 4, "x = 1".toList, true, []⟩
    EqualButForMuteBodies {} {} (start ++ (body ++ [last])) (start ++ (body' ++ [last]))
      ∧ ∃ classes, Checked.bareClasses {} (start ++ (body ++ [last])) = some classes
        ∧ Checked.bareClasses {} (start ++ (body' ++ [last])) = some classes := by
  intro start body body' last
  have equal :
      EqualButForMuteBodies {} {} (start ++ (body ++ [last])) (start ++ (body' ++ [last])) :=
    EqualButForMuteBodies.of_replaced_method "A".toList "m".toList (by decide +kernel)
      (by decide +kernel) (by decide) (by decide) (by decide) (by decide)
  exact ⟨equal, (Class.bare_alike_of_muteBodies equal).2 ⟨by decide, by decide⟩
    ⟨by decide, by decide⟩⟩

/-- A body in which a block stands behind the last column there is leaves no classes at all. -/
theorem Class.no_classes_behind_last_column :
    let start : List LogicalLine :=
      [⟨1, 1, 0, "class A:".toList, true, []⟩, ⟨2, 2, 4, "def m(self):".toList, true, []⟩]
    let body : List LogicalLine := [⟨3, 3, 8, "pass".toList, true, []⟩]
    let body' : List LogicalLine := [⟨3, 3, columnLimit - 1, "if a: if b: c".toList, true, []⟩]
    let last : LogicalLine := ⟨4, 4, 4, "x = 1".toList, true, []⟩
    EqualButForMuteBodies {} {} (start ++ (body ++ [last])) (start ++ (body' ++ [last]))
      ∧ (∃ classes, Checked.bareClasses {} (start ++ (body ++ [last])) = some classes)
      ∧ Checked.bareClasses {} (start ++ (body' ++ [last])) = none := by
  intro start body body' last
  have stopped : Checked.events {} (start ++ (body' ++ [last])) = none := by decide +kernel
  refine ⟨?_, Checked.bareClasses_of_short {} ⟨by decide, by decide⟩, ?_⟩
  · exact EqualButForMuteBodies.of_replaced_method "A".toList "m".toList (by decide +kernel)
      (by decide +kernel) (by decide) (by decide) (by decide) (by decide)
  · unfold Checked.bareClasses
    rw [stopped]
    rfl

end ClassOutline
