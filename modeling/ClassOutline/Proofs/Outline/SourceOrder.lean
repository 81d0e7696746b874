/-
  ClassOutline.Proofs.Outline.SourceOrder
  ────────────────────────────────
  **AN OUTLINE LISTS EVERYTHING IN THE ORDER OF THE SOURCE.**

  The lines of a source are numbered from 1 on, and each stage keeps their
  order: logical lines lie one behind the other, events ascend with them, and a
  class or member that an event adds goes to the end of its list.  A draft that
  is `InOrder` up to one line is so up to the line of the next event
  (`Assembly.take_inOrder`), however the classes are nested or replaced.

  Diagnostics come from three stages and are sorted by line at the end.
-/
import ClassOutline.Outline.OfSource
import ClassOutline.Proofs.Event.Lines
import ClassOutline.Proofs.LogicalLine.Ranges
import ClassOutline.Proofs.LogicalLine.Reports
import ClassOutline.Proofs.Outline.Assembly

namespace ClassOutline

/-! ## §1. Classes in order. -/

/-- The members of each kind stand in order, from the header of the class to line `last`. -/
structure Class.InOrder {α : Type} (last : Nat) (c : Class α) : Prop where
  classAttributes : Ascends c.line last (c.classAttributes.map Attribute.line)
  instanceAttributes : Ascends c.line last (c.instanceAttributes.map Attribute.line)
  methods : Ascends c.line last (c.methods.map Method.line)

namespace Class.InOrder

variable {α β : Type} {middle last : Nat} {c : Class α}

/-- Changing what the members hold moves none of them. -/
theorem map (h : c.InOrder last) (f : α → β) : (c.map f).InOrder last := by
  obtain ⟨classAttributes, instanceAttributes, methods⟩ := h
  refine ⟨?_, ?_, ?_⟩
  · show Ascends c.line last ((c.classAttributes.map (Attribute.map f)).map Attribute.line)
    rw [List.map_map]
    exact classAttributes
  · show Ascends c.line last ((c.instanceAttributes.map (Attribute.map f)).map Attribute.line)
    rw [List.map_map]
    exact instanceAttributes
  · show Ascends c.line last ((c.methods.map (Method.map f)).map Method.line)
    rw [List.map_map]
    exact methods

theorem mono (h : c.InOrder middle) (hle : middle ≤ last) : c.InOrder last :=
  ⟨h.classAttributes.mono hle, h.instanceAttributes.mono hle, h.methods.mono hle⟩

/-- A class attribute further down goes to the end. -/
theorem addClassAttribute (h : c.InOrder middle) (hc : c.line ≤ middle) (a : Attribute α)
    (hle : middle ≤ a.line) :
    ({ c with classAttributes := c.classAttributes ++ [a] } : Class α).InOrder a.line := by
  refine ⟨?_, h.instanceAttributes.mono hle, h.methods.mono hle⟩
  rw [List.map_append]
  exact h.classAttributes.concat (Nat.le_trans hc hle) hle

/-- An instance attribute further down goes to the end. -/
theorem addInstanceAttribute (h : c.InOrder middle) (hc : c.line ≤ middle) (a : Attribute α)
    (hle : middle ≤ a.line) :
    ({ c with instanceAttributes := c.instanceAttributes ++ [a] } : Class α).InOrder a.line := by
  refine ⟨h.classAttributes.mono hle, ?_, h.methods.mono hle⟩
  rw [List.map_append]
  exact h.instanceAttributes.concat (Nat.le_trans hc hle) hle

/-- A method further down goes to the end. -/
theorem addMethod (h : c.InOrder middle) (hc : c.line ≤ middle) (m : Method α)
    (hle : middle ≤ m.line) :
    ({ c with methods := c.methods ++ [m] } : Class α).InOrder m.line := by
  refine ⟨h.classAttributes.mono hle, h.instanceAttributes.mono hle, ?_⟩
  rw [List.map_append]
  exact h.methods.concat (Nat.le_trans hc hle) hle

/-- The last method may change, if it stays on its line. -/
theorem modifyLast {f : Method α → Method α} (hf : ∀ m, (f m).line = m.line)
    (h : c.InOrder last) :
    ({ c with methods := ClassOutline.modifyLast f c.methods } : Class α).InOrder last := by
  have hmap : (ClassOutline.modifyLast f c.methods).map Method.line
      = ClassOutline.modifyLast (fun n => n) (c.methods.map Method.line) := map_modifyLast hf _
  refine ⟨h.classAttributes, h.instanceAttributes, ?_⟩
  rw [hmap, modifyLast_id]
  exact h.methods

end Class.InOrder

namespace Assembly

/-- Classes and members stand in order, up to line `last`. -/
structure InOrder (last : Nat) (s : Assembly) : Prop where
  classes : Ascends 1 last (s.drafts.map Class.line)
  members : ∀ c ∈ s.drafts, c.InOrder last

variable {cfg : Config} {s : Assembly} {middle last : Nat}

theorem InOrder.mono (h : s.InOrder middle) (hle : middle ≤ last) : s.InOrder last :=
  ⟨h.classes.mono hle, fun c hc => (h.members c hc).mono hle⟩

/-! ## §2. One event. -/

/-- Changing the innermost class moves no class; what it does to the members of a class that is
in order up to a line behind its header is all there is to show. -/
theorem InOrder.modifyInnermost (h : s.InOrder middle) (hle : middle ≤ last)
    {f : Class Deferred → Class Deferred} (hline : ∀ c, (f c).line = c.line)
    (hf : ∀ c, c.InOrder middle → c.line ≤ middle → (f c).InOrder last) :
    (s.modifyInnermost f).InOrder last := by
  refine ⟨?_, fun c hc => ?_⟩
  · rw [map_drafts_modifyInnermost hline]
    exact h.classes.mono hle
  · rcases mem_drafts_modifyInnermost hc with hc | ⟨c', hc', rfl⟩
    · exact (h.members c hc).mono hle
    · exact hf c' (h.members c' hc') (h.classes.within _ (List.mem_map_of_mem hc')).2

theorem startClass_inOrder (h : s.InOrder middle) {c : ClassStart} (hfirst : 1 ≤ c.line)
    (hle : middle ≤ c.line) :
    (s.startClass c).1.InOrder c.line ∧ ∀ d ∈ (s.startClass c).2, d.line = c.line := by
  unfold startClass
  refine ⟨⟨?_, fun draft hdraft => ?_⟩, fun d hd => ?_⟩
  · show Ascends 1 c.line ((s.drafts ++ [_]).map Class.line)
    rw [List.map_append]
    exact h.classes.concat hfirst hle
  · rcases List.mem_append.1 hdraft with hdraft | hdraft
    · exact (h.members draft hdraft).mono hle
    · -- the new class has no members yet
      obtain rfl := List.mem_singleton.1 hdraft
      exact ⟨.nil, .nil, .nil⟩
  · obtain ⟨earlier, -, rfl⟩ := List.mem_map.1 hd
    rfl

theorem startMethod_inOrder (h : s.InOrder middle) {m : MethodStart} (hle : middle ≤ m.line) :
    (s.startMethod cfg m).1.InOrder m.line ∧ ∀ d ∈ (s.startMethod cfg m).2, d.line = m.line := by
  unfold startMethod
  split
  · exact ⟨h.mono hle, fun _ hd => absurd hd List.not_mem_nil⟩
  · have added : (s.modifyInnermost fun c =>
        { c with methods := c.methods ++ [(m.draft cfg).value] }).InOrder m.line :=
      h.modifyInnermost hle (fun _ => rfl) fun c hc hline => hc.addMethod hline (m.draft cfg).value hle
    exact ⟨⟨added.classes, added.members⟩, Diagnostic.line_of_mem_atLine⟩

theorem endMethod_inOrder (h : s.InOrder middle) (source : Text) :
    (s.endMethod source).InOrder middle := by
  have closed : InOrder middle { s with method := none } := ⟨h.classes, h.members⟩
  unfold endMethod
  dsimp only
  split
  · exact closed
  · exact InOrder.modifyInnermost closed (Nat.le_refl middle) (fun _ => rfl)
      fun c hc _ => hc.modifyLast fun _ => rfl

theorem assignClass_inOrder (h : s.InOrder middle) {a : AttributeAssignment}
    (hle : middle ≤ a.line) :
    (s.assignClass cfg a).1.InOrder a.line ∧ ∀ d ∈ (s.assignClass cfg a).2, d.line = a.line := by
  unfold assignClass
  split
  · exact ⟨h.mono hle, fun _ hd => absurd hd List.not_mem_nil⟩
  · refine ⟨?_, Diagnostic.line_of_mem_atLine⟩
    refine InOrder.modifyInnermost (?_ : InOrder middle _) hle ?_ ?_
    · exact ⟨h.classes, h.members⟩
    · exact fun _ => rfl
    · exact fun c hc hline => hc.addClassAttribute hline (a.draft cfg _) hle

theorem assignSelf_inOrder (h : s.InOrder middle) {a : AttributeAssignment}
    (hle : middle ≤ a.line) :
    (s.assignSelf cfg a).1.InOrder a.line ∧ ∀ d ∈ (s.assignSelf cfg a).2, d.line = a.line := by
  unfold assignSelf
  split
  · refine ⟨?_, Diagnostic.line_of_mem_atLine⟩
    refine InOrder.modifyInnermost (?_ : InOrder middle _) hle ?_ ?_
    · exact ⟨h.classes, h.members⟩
    · exact fun _ => rfl
    · exact fun c hc hline => hc.addInstanceAttribute hline (a.draft cfg _) hle
  · exact ⟨h.mono hle, fun _ hd => absurd hd List.not_mem_nil⟩

theorem assignModule_inOrder (h : s.InOrder middle) (name value : Text) {line : Nat}
    (hle : middle ≤ line) :
    (s.assignModule name value line).1.InOrder line
      ∧ ∀ d ∈ (s.assignModule name value line).2, d.line = line :=
  ⟨⟨h.classes.mono hle, fun c hc => (h.members c hc).mono hle⟩, Diagnostic.line_of_mem_atLine⟩

theorem document_inOrder (h : s.InOrder middle) (text : Text) {line : Nat} (hle : middle ≤ line) :
    (s.document text).InOrder line := by
  refine h.modifyInnermost hle ?_ ?_
  · intro c
    split <;> rfl
  · intro c hc _
    split
    · exact (hc.mono hle).modifyLast fun _ => rfl
    · have hc := hc.mono hle
      exact ⟨hc.classAttributes, hc.instanceAttributes, hc.methods⟩

/-- **AN EVENT ADDS AT THE END**: what was in order up to some line is in order up to the line of
the event, and what is odd about the event is reported on its line. -/
theorem take_inOrder (h : s.InOrder middle) {e : Event} {line : Nat}
    (hline : e.line? = some line) (hfirst : 1 ≤ line) (hle : middle ≤ line) :
    (s.take cfg e).1.InOrder line ∧ ∀ d ∈ (s.take cfg e).2, d.line = line := by
  cases e with
  | classStart c =>
      obtain rfl := Option.some.inj hline
      exact startClass_inOrder h hfirst hle
  | methodStart m =>
      obtain rfl := Option.some.inj hline
      exact startMethod_inOrder h hle
  | classAssignment a =>
      obtain rfl := Option.some.inj hline
      exact assignClass_inOrder h hle
  | selfAssignment a =>
      obtain rfl := Option.some.inj hline
      exact assignSelf_inOrder h hle
  | moduleAssignment name value l =>
      obtain rfl := Option.some.inj hline
      exact assignModule_inOrder h name value hle
  | docstring text l =>
      obtain rfl := Option.some.inj hline
      exact ⟨document_inOrder h text hle, fun _ hd => absurd hd List.not_mem_nil⟩
  | decorator => exact ⟨h.mono hle, fun _ hd => absurd hd List.not_mem_nil⟩
  | ignored => exact ⟨h.mono hle, fun _ hd => absurd hd List.not_mem_nil⟩
  | classEnd => exact nomatch hline
  | methodEnd => exact nomatch hline

/-- The end of a scope adds nothing. -/
theorem take_inOrder_of_end (h : s.InOrder middle) {e : Event} (hline : e.line? = none) :
    (s.take cfg e).1.InOrder middle ∧ (s.take cfg e).2 = [] := by
  cases e with
  | classEnd => exact ⟨⟨h.classes, h.members⟩, rfl⟩
  | methodEnd name source => exact ⟨endMethod_inOrder h source, rfl⟩
  | classStart => exact nomatch hline
  | methodStart => exact nomatch hline
  | classAssignment => exact nomatch hline
  | selfAssignment => exact nomatch hline
  | moduleAssignment => exact nomatch hline
  | decorator => exact nomatch hline
  | docstring => exact nomatch hline
  | ignored => exact nomatch hline

/-! ## §3. All events. -/

/-- Events that ascend leave an assembly in order, and all remarks are on their lines. -/
theorem takeAll_inOrder (cfg : Config) {es : List Event} (h : s.InOrder middle)
    (hlast : middle ≤ last) (hes : Ascends middle last (eventLines es))
    (hfirst : ∀ n ∈ eventLines es, 1 ≤ n) :
    (s.takeAll cfg es).1.InOrder last
      ∧ ∀ d ∈ (s.takeAll cfg es).2, 1 ≤ d.line ∧ d.line ≤ last := by
  induction es generalizing s middle with
  | nil => exact ⟨h.mono hlast, fun _ hd => absurd hd List.not_mem_nil⟩
  | cons e es ih =>
      show ((s.take cfg e).1.takeAll cfg es).1.InOrder last
        ∧ ∀ d ∈ (s.take cfg e).2 ++ ((s.take cfg e).1.takeAll cfg es).2, _
      cases hline : e.line? with
      | none =>
          rw [eventLines, List.filterMap_cons_none hline] at hes hfirst
          obtain ⟨kept, quiet⟩ : (s.take cfg e).1.InOrder middle ∧ (s.take cfg e).2 = [] :=
            take_inOrder_of_end h hline
          rw [quiet]
          exact ih kept hlast hes hfirst
      | some line =>
          rw [eventLines, List.filterMap_cons_some hline] at hes hfirst
          obtain ⟨hle, hend, hes⟩ := hes.of_cons
          have hstart : 1 ≤ line := hfirst line List.mem_cons_self
          obtain ⟨added, remarks⟩ :
              (s.take cfg e).1.InOrder line ∧ ∀ d ∈ (s.take cfg e).2, d.line = line :=
            take_inOrder h hline hstart hle
          obtain ⟨final, later⟩ :=
            ih added hend hes fun n hn => hfirst n (List.mem_cons_of_mem line hn)
          refine ⟨final, fun d hd => ?_⟩
          rcases List.mem_append.1 hd with hd | hd
          · rw [remarks d hd]
            exact ⟨hstart, hend⟩
          · exact later d hd

/-- Finished classes stand where their drafts did. -/
theorem InOrder.finish (h : s.InOrder last) :
    Ascends 1 last (s.finish.map Class.line) ∧ ∀ c ∈ s.finish, c.InOrder last := by
  have lines : (s.drafts.map (finishClass s.definitions)).map Class.line
      = s.drafts.map Class.line := List.map_map
  refine ⟨?_, fun c hc => ?_⟩
  · have kept := (withoutReplaced_sublist (s.drafts.map (finishClass s.definitions))).map Class.line
    rw [lines] at kept
    exact h.classes.sublist kept
  · obtain ⟨draft, hdraft, rfl⟩ := List.mem_map.1 (mem_of_mem_withoutReplaced hc)
    exact (h.members draft hdraft).map _

end Assembly

/-! ## §4. The outline. -/

/-- Classes, members and diagnostics stand in the order of their lines, no member above the
header of its class, and all lines are among those from 1 to `last`. -/
structure UnitOutline.InOrder (last : Nat) (u : UnitOutline) : Prop where
  classes : Ascends 1 last (u.classes.map Class.line)
  members : ∀ c ∈ u.classes, c.InOrder last
  diagnostics : Ascends 1 last (u.diagnostics.map Diagnostic.line)

/-- Sorted diagnostics ascend. -/
theorem Diagnostic.ascends_sorted {first last : Nat} {ds : List Diagnostic}
    (h : ∀ d ∈ ds, first ≤ d.line ∧ d.line ≤ last) :
    Ascends first last ((sorted ds).map Diagnostic.line) := by
  have ascending : (sorted ds).Pairwise fun a b => decide (a.line ≤ b.line) = true := by
    refine List.pairwise_mergeSort ?_ ?_ ds
    · intro a b c hab hbc
      exact decide_eq_true (Nat.le_trans (of_decide_eq_true hab) (of_decide_eq_true hbc))
    · intro a b
      rw [Bool.or_eq_true, decide_eq_true_eq, decide_eq_true_eq]
      exact Nat.le_total a.line b.line
  refine ⟨List.pairwise_map.2 (ascending.imp of_decide_eq_true), fun n hn => ?_⟩
  obtain ⟨d, hd, rfl⟩ := List.mem_map.1 hn
  exact h d ((List.mergeSort_perm ds _).mem_iff.1 hd)

/-- The logical lines of a source ascend, each on a line that the source has. -/
theorem LogicalLine.ascends_scan (cfg : Config) (source : Text) :
    Ascends 1 source.lines.length ((scan cfg source).lines.map LogicalLine.line) := by
  have accounted := scan_accounted cfg source
  refine ⟨List.pairwise_map.2 ?_, fun n hn => ?_⟩
  · refine accounted.apart.imp_of_mem fun {a b} ha _ hapart => ?_
    have hrange := (accounted.ranges a ha).2.1
    omega
  · obtain ⟨l, hl, rfl⟩ := List.mem_map.1 hn
    obtain ⟨hfirst, hline, hlast, -⟩ := accounted.ranges l hl
    have hstart : 1 ≤ l.line := hfirst
    omega

/-- **AN OUTLINE LISTS EVERYTHING IN THE ORDER OF THE SOURCE**, on lines that the source has. -/
theorem UnitOutline.ofSource_inOrder (cfg : Config) (unit source : Text) :
    (UnitOutline.ofSource cfg unit source).InOrder source.lines.length := by
  let scanned := LogicalLine.scan cfg source
  let read := Event.ofLines cfg scanned.lines
  let taken := Assembly.takeAll cfg {} read.events
  let last := source.lines.length
  have scannedLines : Ascends 1 last (scanned.lines.map LogicalLine.line) :=
    LogicalLine.ascends_scan cfg source
  obtain ⟨readEvents, readRemarks⟩ := Event.ofLines_ascends cfg scannedLines
  -- nothing is assembled yet, so the first event may come on any line
  have empty : Assembly.InOrder 0 {} := ⟨.nil, fun _ hc => absurd hc List.not_mem_nil⟩
  have assembled : taken.1.InOrder last ∧ ∀ d ∈ taken.2, 1 ≤ d.line ∧ d.line ≤ last :=
    Assembly.takeAll_inOrder cfg empty (Nat.zero_le last)
      ⟨readEvents.sorted, fun n hn => ⟨Nat.zero_le n, (readEvents.within n hn).2⟩⟩
      fun n hn => (readEvents.within n hn).1
  obtain ⟨classes, members⟩ := assembled.1.finish
  refine ⟨classes, members, Diagnostic.ascends_sorted fun d hd => ?_⟩
  rcases List.mem_append.1 hd with hd | hd
  · rcases List.mem_append.1 hd with hd | hd
    · exact LogicalLine.scan_reports_within cfg source d hd
    · exact readRemarks d hd
  · exact assembled.2 d hd

end ClassOutline
