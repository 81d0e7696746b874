/-
  ClassOutline.Proofs.Outline.Unrecognized
  ────────────────────────────────
  **NOTHING IN AN OUTLINE IS UNRECOGNIZED IN SILENCE.**

  An attribute or default is classified when its event is taken, and what is
  reported then is reported on the line of the attribute or method.  So on no
  line do the drafts hold more unrecognized values than there are diagnostics
  for (`Assembly.take_weightOn_le`, `takeAll_weightOn_le`).

  What comes later only takes values away: looking up drops the arguments of
  what is no class, replaced classes are left out, and a diagnostic that is
  sorted stays one.
-/
import Mathlib.Algebra.GroupWithZero.Nat
import Mathlib.Algebra.Order.BigOperators.Group.List
import Mathlib.Algebra.Order.Group.Nat
import ClassOutline.Outline.OfSource
import ClassOutline.Proofs.Initializer.Unrecognized
import ClassOutline.Proofs.Outline.Assembly

namespace ClassOutline

/-! ## §1. Looking up. -/

namespace Definitions

variable (d : Definitions) (follow : List Text → Option Text)

theorem unrecognizedCount_resolveBeyond (path : List Text) :
    (d.resolveBeyond follow path).unrecognizedCount = 0 := by
  unfold resolveBeyond
  split
  · rfl
  · rfl

theorem unrecognizedCount_resolveName (path : List Text) :
    (d.resolveName follow path).unrecognizedCount = 0 := by
  unfold resolveName
  split
  · rfl
  · exact unrecognizedCount_resolveBeyond d follow path

mutual

/-- Names that are looked up are recognized, and nothing else changes. -/
theorem unrecognizedCount_resolveWith_le :
    ∀ i : Initializer, (d.resolveWith follow i).unrecognizedCount ≤ i.unrecognizedCount
  | .literal v => Nat.le_refl v.unrecognizedCount
  | .list items => unrecognizedCount_resolveItems_le items
  | .tuple items => unrecognizedCount_resolveItems_le items
  | .dict entries => unrecognizedCount_resolveEntries_le entries
  | .name path => by
      rw [resolveWith, unrecognizedCount_resolveName]
      exact Nat.zero_le _
  | .call path args => by
      rw [resolveWith]
      split
      · exact unrecognizedCount_resolveItems_le args
      · -- the call of what is no class keeps no arguments
        rw [unrecognizedCount_resolveBeyond]
        exact Nat.zero_le _

theorem unrecognizedCount_resolveItems_le :
    ∀ is : List Initializer, Value.unrecognizedCountAll (d.resolveItems follow is)
      ≤ Initializer.unrecognizedCountAll is
  | [] => Nat.le_refl 0
  | i :: is =>
      Nat.add_le_add (unrecognizedCount_resolveWith_le i) (unrecognizedCount_resolveItems_le is)

theorem unrecognizedCount_resolveEntries_le :
    ∀ es : List (Initializer × Initializer),
      Value.unrecognizedCountEntries (d.resolveEntries follow es)
        ≤ Initializer.unrecognizedCountEntries es
  | [] => Nat.le_refl 0
  | (k, v) :: rest =>
      Nat.add_le_add
        (Nat.add_le_add (unrecognizedCount_resolveWith_le k) (unrecognizedCount_resolveWith_le v))
        (unrecognizedCount_resolveEntries_le rest)

end

end Definitions

/-! ## §2. What a class holds on a line. -/

section
variable {α β : Type}

/-- What the default of a parameter weighs. -/
def Parameter.weight (weight : α → Nat) (p : Parameter α) : Nat :=
  match p.default with
  | none => 0
  | some a => weight a

/-- What an attribute holds, if it is on the line. -/
def Attribute.weightOn (weight : α → Nat) (line : Nat) (a : Attribute α) : Nat :=
  if a.line = line then weight a.value else 0

/-- What the defaults of a method weigh, if it is on the line. -/
def Method.weightOn (weight : α → Nat) (line : Nat) (m : Method α) : Nat :=
  if m.line = line then (m.parameters.map (Parameter.weight weight)).sum else 0

/-- What the attributes and methods of a class hold that are on the line. -/
def Class.weightOn (weight : α → Nat) (line : Nat) (c : Class α) : Nat :=
  (c.classAttributes.map (Attribute.weightOn weight line)).sum
    + (c.instanceAttributes.map (Attribute.weightOn weight line)).sum
    + (c.methods.map (Method.weightOn weight line)).sum

variable {weight : α → Nat} {weight' : β → Nat} {f : α → β}

theorem Parameter.weight_map_le (h : ∀ a, weight' (f a) ≤ weight a) (p : Parameter α) :
    (p.map f).weight weight' ≤ p.weight weight := by
  unfold Parameter.weight Parameter.map
  cases p.default with
  | none => exact Nat.le_refl 0
  | some a => exact h a

theorem Attribute.weightOn_map_le (h : ∀ a, weight' (f a) ≤ weight a) (line : Nat)
    (a : Attribute α) : (a.map f).weightOn weight' line ≤ a.weightOn weight line := by
  unfold weightOn
  show (if a.line = line then weight' (f a.value) else 0) ≤ _
  split
  · exact h a.value
  · exact Nat.le_refl 0

theorem Method.weightOn_map_le (h : ∀ a, weight' (f a) ≤ weight a) (line : Nat) (m : Method α) :
    (m.map f).weightOn weight' line ≤ m.weightOn weight line := by
  unfold weightOn
  show (if m.line = line then ((m.parameters.map (Parameter.map f)).map _).sum else 0) ≤ _
  split
  · rw [List.map_map]
    exact List.sum_le_sum fun p _ => p.weight_map_le h
  · exact Nat.le_refl 0

/-- What holds lighter things is lighter. -/
theorem Class.weightOn_map_le (h : ∀ a, weight' (f a) ≤ weight a) (line : Nat) (c : Class α) :
    (c.map f).weightOn weight' line ≤ c.weightOn weight line := by
  have attributes (as : List (Attribute α)) :
      ((as.map (Attribute.map f)).map (Attribute.weightOn weight' line)).sum
        ≤ (as.map (Attribute.weightOn weight line)).sum := by
    rw [List.map_map]
    exact List.sum_le_sum fun a _ => a.weightOn_map_le h line
  have methods : ((c.methods.map (Method.map f)).map (Method.weightOn weight' line)).sum
      ≤ (c.methods.map (Method.weightOn weight line)).sum := by
    rw [List.map_map]
    exact List.sum_le_sum fun m _ => m.weightOn_map_le h line
  have ofClass := attributes c.classAttributes
  have ofSelf := attributes c.instanceAttributes
  unfold weightOn Class.map
  dsimp only
  omega

variable {line : Nat}

theorem Class.weightOn_addClassAttribute (c : Class α) (a : Attribute α) :
    { c with classAttributes := c.classAttributes ++ [a] }.weightOn weight line
      = c.weightOn weight line + a.weightOn weight line := by
  unfold weightOn
  simp only [List.map_append, List.map_singleton, List.sum_append, List.sum_singleton]
  omega

theorem Class.weightOn_addInstanceAttribute (c : Class α) (a : Attribute α) :
    { c with instanceAttributes := c.instanceAttributes ++ [a] }.weightOn weight line
      = c.weightOn weight line + a.weightOn weight line := by
  unfold weightOn
  simp only [List.map_append, List.map_singleton, List.sum_append, List.sum_singleton]
  omega

theorem Class.weightOn_addMethod (c : Class α) (m : Method α) :
    { c with methods := c.methods ++ [m] }.weightOn weight line
      = c.weightOn weight line + m.weightOn weight line := by
  unfold weightOn
  simp only [List.map_append, List.map_singleton, List.sum_append, List.sum_singleton]
  omega

/-- Changing the last method without its parameters and its line changes nothing of this. -/
theorem Class.weightOn_modifyLast (g : Method α → Method α)
    (hparameters : ∀ m, (g m).parameters = m.parameters) (hline : ∀ m, (g m).line = m.line)
    (c : Class α) :
    { c with methods := modifyLast g c.methods }.weightOn weight line = c.weightOn weight line := by
  have same (m : Method α) : (g m).weightOn weight line = m.weightOn weight line := by
    unfold Method.weightOn
    rw [hparameters, hline]
  have methods : (modifyLast g c.methods).map (Method.weightOn weight line)
      = modifyLast (fun n => n) (c.methods.map (Method.weightOn weight line)) :=
    map_modifyLast same c.methods
  rw [modifyLast_id] at methods
  unfold weightOn
  rw [methods]

end

/-! ## §3. What is reported on a line. -/

namespace Diagnostic

/-- How many diagnostics of a line say that an expression has no known form. -/
def unclassifiedOn (line : Nat) (ds : List Diagnostic) : Nat :=
  count .unclassifiableLiteral (ds.filter fun d => d.line = line)

variable {line : Nat}

theorem unclassifiedOn_append (ds later : List Diagnostic) :
    unclassifiedOn line (ds ++ later) = unclassifiedOn line ds + unclassifiedOn line later := by
  unfold unclassifiedOn count
  rw [List.filter_append, List.countP_append]

/-- All causes of a line count on it. -/
theorem unclassifiedOn_atLine (causes : List Cause) :
    unclassifiedOn line (atLine line causes) = Cause.unclassifiedCount causes := by
  have all : (atLine line causes).filter (fun d => d.line = line) = atLine line causes := by
    rw [List.filter_eq_self]
    intro d hd
    obtain ⟨cause, -, rfl⟩ := List.mem_map.1 hd
    exact decide_eq_true rfl
  unfold unclassifiedOn count
  rw [all]
  unfold atLine Cause.unclassifiedCount
  rw [List.countP_map]
  rfl

theorem unclassifiedOn_sorted (ds : List Diagnostic) :
    unclassifiedOn line (sorted ds) = unclassifiedOn line ds := by
  have permuted : (sorted ds).Perm ds := List.mergeSort_perm ds _
  exact (permuted.filter _).countP_eq _

end Diagnostic

/-! ## §4. Drafts. -/

/-- How many unrecognized values a draft holds in one place. -/
def Deferred.unrecognizedCount (d : Deferred) : Nat := d.value.unrecognizedCount

open Diagnostic (unclassifiedOn)

theorem WrittenParameter.draft_accounted (p : WrittenParameter) :
    p.draft.Accounted (Parameter.weight Deferred.unrecognizedCount) := by
  unfold draft
  split
  · exact Reported.accounted_of_eq_zero rfl
  · exact Text.classify_accounted _

section
variable {cfg : Config} {line : Nat}

/-- What an attribute holds that is not recognized is reported on its line. -/
theorem AttributeAssignment.weightOn_draft_le (a : AttributeAssignment) (selfName : Option Text) :
    (a.draft cfg ⟨a.value.classify.value, selfName⟩).weightOn Deferred.unrecognizedCount line
      ≤ unclassifiedOn line (Diagnostic.atLine a.line a.value.classify.causes) := by
  unfold Attribute.weightOn
  show (if a.line = line then a.value.classify.value.unrecognizedCount else 0) ≤ _
  by_cases hline : a.line = line
  · subst hline
    rw [if_pos rfl, Diagnostic.unclassifiedOn_atLine]
    exact Text.classify_accounted a.value
  · rw [if_neg hline]
    exact Nat.zero_le _

/-- What the defaults of a method hold that is not recognized is reported on its line. -/
theorem MethodStart.weightOn_draft_le (m : MethodStart) :
    (m.draft cfg).value.weightOn Deferred.unrecognizedCount line
      ≤ unclassifiedOn line (Diagnostic.atLine m.line (m.draft cfg).causes) := by
  have accounted : (m.draft cfg).Accounted fun m =>
      (m.parameters.map (Parameter.weight Deferred.unrecognizedCount)).sum := by
    apply (Reported.accounted_all _).map
    · intro ps
      rfl
    · intro r hr
      obtain ⟨p, -, rfl⟩ := List.mem_map.1 hr
      exact p.draft_accounted
  unfold Method.weightOn
  show (if m.line = line then _ else 0) ≤ _
  by_cases hline : m.line = line
  · subst hline
    rw [if_pos rfl, Diagnostic.unclassifiedOn_atLine]
    exact accounted
  · rw [if_neg hline]
    exact Nat.zero_le _

end

namespace Assembly

/-- How many unrecognized values the drafts hold on a line. -/
def weightOn (line : Nat) (s : Assembly) : Nat :=
  (s.drafts.map (Class.weightOn Deferred.unrecognizedCount line)).sum

variable {cfg : Config} {line : Nat} {s : Assembly}

/-- One element that is changed adds to a sum what it gains. -/
theorem sum_map_modify_le {α : Type} {weight : α → Nat} {f : α → α} {gain : Nat}
    (hf : ∀ a, weight (f a) ≤ weight a + gain) (position : Nat) (as : List α) :
    ((as.modify position f).map weight).sum ≤ (as.map weight).sum + gain := by
  induction as generalizing position with
  | nil =>
      rw [List.modify_nil]
      exact Nat.le_add_right _ _
  | cons a as ih =>
      cases position with
      | zero =>
          -- this element gains, the others stay
          have first := hf a
          rw [List.modify_zero_cons]
          simp only [List.map_cons, List.sum_cons]
          omega
      | succ position =>
          have others := ih position
          rw [List.modify_succ_cons]
          simp only [List.map_cons, List.sum_cons]
          omega

theorem weightOn_modifyInnermost_le {f : Class Deferred → Class Deferred} (gain : Nat)
    (hf : ∀ c, (f c).weightOn Deferred.unrecognizedCount line
      ≤ c.weightOn Deferred.unrecognizedCount line + gain) :
    (s.modifyInnermost f).weightOn line ≤ s.weightOn line + gain := by
  unfold modifyInnermost
  split
  · exact Nat.le_add_right _ _
  · exact sum_map_modify_le hf _ _

/-- What changes no values of the innermost class. -/
theorem weightOn_modifyInnermost_le_self {f : Class Deferred → Class Deferred}
    (hf : ∀ c, (f c).weightOn Deferred.unrecognizedCount line
      = c.weightOn Deferred.unrecognizedCount line) :
    (s.modifyInnermost f).weightOn line ≤ s.weightOn line := by
  apply weightOn_modifyInnermost_le 0
  intro c
  exact Nat.le_of_eq (hf c)

/-- **ONE EVENT REPORTS WHAT IT DOES NOT RECOGNIZE**, on the line where the drafts hold it. -/
theorem take_weightOn_le (e : Event) :
    (s.take cfg e).1.weightOn line ≤ s.weightOn line + unclassifiedOn line (s.take cfg e).2 := by
  cases e with
  | classStart c =>
      -- the new draft is still empty
      show ((s.drafts ++ [_]).map (Class.weightOn Deferred.unrecognizedCount line)).sum ≤ _
      rw [List.map_append, List.sum_append]
      exact Nat.add_le_add_left (Nat.zero_le _) _
  | methodStart m =>
      show (s.startMethod cfg m).1.weightOn line ≤ _ + unclassifiedOn line (s.startMethod cfg m).2
      unfold startMethod
      split
      · exact Nat.le_add_right _ _
      · apply weightOn_modifyInnermost_le
        intro c
        rw [Class.weightOn_addMethod]
        exact Nat.add_le_add_left m.weightOn_draft_le _
  | methodEnd name source =>
      show (s.endMethod source).weightOn line ≤ s.weightOn line + 0
      unfold endMethod
      dsimp only
      split
      · exact Nat.le_refl _
      · apply weightOn_modifyInnermost_le_self (s := { s with method := none })
        exact Class.weightOn_modifyLast _ (fun _ => rfl) fun _ => rfl
  | classAssignment a =>
      show (s.assignClass cfg a).1.weightOn line ≤ _ + unclassifiedOn line (s.assignClass cfg a).2
      unfold assignClass
      split
      · exact Nat.le_add_right _ _
      · apply weightOn_modifyInnermost_le
        intro c
        rw [Class.weightOn_addClassAttribute]
        exact Nat.add_le_add_left (a.weightOn_draft_le none) _
  | selfAssignment a =>
      show (s.assignSelf cfg a).1.weightOn line ≤ _ + unclassifiedOn line (s.assignSelf cfg a).2
      unfold assignSelf
      split
      · next c method _ _ =>
        apply weightOn_modifyInnermost_le
        intro c
        rw [Class.weightOn_addInstanceAttribute]
        exact Nat.add_le_add_left (a.weightOn_draft_le method.selfName) _
      · exact Nat.le_add_right _ _
  | docstring text l =>
      apply weightOn_modifyInnermost_le_self
      intro c
      split
      · exact Class.weightOn_modifyLast (fun m => { m with doc := some text }) (fun _ => rfl)
          (fun _ => rfl) c
      · rfl
  | classEnd | moduleAssignment | decorator | ignored => exact Nat.le_add_right _ _

/-- All events do, in whatever order they come. -/
theorem takeAll_weightOn_le (es : List Event) :
    (s.takeAll cfg es).1.weightOn line
      ≤ s.weightOn line + unclassifiedOn line (s.takeAll cfg es).2 := by
  induction es generalizing s with
  | nil => exact Nat.le_refl _
  | cons e es ih =>
      have first : (s.take cfg e).1.weightOn line
          ≤ s.weightOn line + unclassifiedOn line (s.take cfg e).2 := take_weightOn_le e
      have others := ih (s := (s.take cfg e).1)
      show ((s.take cfg e).1.takeAll cfg es).1.weightOn line
        ≤ s.weightOn line + unclassifiedOn line
          ((s.take cfg e).2 ++ ((s.take cfg e).1.takeAll cfg es).2)
      rw [Diagnostic.unclassifiedOn_append]
      omega

/-! ## §5. Finished classes. -/

/-- Finished classes hold no more than the drafts did. -/
theorem sum_weightOn_finish_le (s : Assembly) :
    (s.finish.map (Class.weightOn Value.unrecognizedCount line)).sum ≤ s.weightOn line := by
  -- first without those that are replaced, then looked up
  have kept := ((withoutReplaced_sublist (s.drafts.map (finishClass s.definitions))).map
    (Class.weightOn Value.unrecognizedCount line)).sum_le_sum fun _ _ => Nat.zero_le _
  refine Nat.le_trans kept ?_
  rw [List.map_map]
  apply List.sum_le_sum
  intro c _
  apply Class.weightOn_map_le
  intro deferred
  exact s.definitions.unrecognizedCount_resolveWith_le _ deferred.value

end Assembly

/-- How many unrecognized values an outline holds on a line. -/
def UnitOutline.unrecognizedOn (line : Nat) (u : UnitOutline) : Nat :=
  (u.classes.map (Class.weightOn Value.unrecognizedCount line)).sum

/-- **WHATEVER IN AN OUTLINE IS UNRECOGNIZED HAS A DIAGNOSTIC OF ITS OWN**, on the line of its
attribute or method: on each line there are at least as many that say so as there are
unrecognized values, at any depth. -/
theorem UnitOutline.unrecognizedOn_le_unclassifiedOn (cfg : Config) (unit source : Text)
    (line : Nat) :
    (UnitOutline.ofSource cfg unit source).unrecognizedOn line
      ≤ unclassifiedOn line (UnitOutline.ofSource cfg unit source).diagnostics := by
  let scanned := LogicalLine.scan cfg source
  let read := Event.ofLines cfg scanned.lines
  let taken := Assembly.takeAll cfg {} read.events
  have finished : (taken.1.finish.map (Class.weightOn Value.unrecognizedCount line)).sum
      ≤ taken.1.weightOn line := taken.1.sum_weightOn_finish_le
  have reported : taken.1.weightOn line ≤ 0 + unclassifiedOn line taken.2 :=
    Assembly.takeAll_weightOn_le read.events
  -- what was odd about lines and statements is reported on top of that
  show (taken.1.finish.map (Class.weightOn Value.unrecognizedCount line)).sum
    ≤ unclassifiedOn line (Diagnostic.sorted (scanned.diagnostics ++ read.diagnostics ++ taken.2))
  rw [Diagnostic.unclassifiedOn_sorted, Diagnostic.unclassifiedOn_append]
  omega

/-- Two targets of one assignment hold a value each; of the arguments of what is no class nothing
is left. -/
example :
    let u := UnitOutline.ofSource {} [] "class A:\n x = y = [1?, A(2?)]\n z = B(3?)".toList
    u.unrecognizedOn 2 = 4 ∧ u.unrecognizedOn 3 = 0 := by
  decide +kernel

end ClassOutline
