/-
  ClassOutline.Proofs.Outline.Names
  ────────────────────────────────
  **THE NAMES OF THE CLASSES, AND HOW OFTEN ONE IS DEFINED AGAIN.**

  A start is told to be a duplicate by looking among all drafts so far.  At the
  end the drafts are thinned out by looking at the ones behind.  The two agree:
  drafts have the names that were started, one for each start, so what is said
  about duplicates makes up for what is left out (`duplicates_takeAll`), and what
  stays is the last draft of each name, in order (`names_withoutReplaced`).

  Events may come in any order: that a class is open, or is inside another one,
  does not matter for its name.
-/
import Mathlib.Data.Finset.Card
import Mathlib.Data.Finset.Lattice.Lemmas
import Mathlib.Data.List.Dedup
import ClassOutline.Proofs.Initializer.Causes
import ClassOutline.Proofs.Outline.Notes

namespace ClassOutline

/-! ## §1. The last of each name. -/

/-- The last start of the class `a` comes before that of the class `b`. -/
def Event.StartsLastBefore (events : List Event) (a b : Text) : Prop :=
  ∃ before after, events = before ++ after ∧ a ∈ startedNames before ∧ a ∉ startedNames after
    ∧ b ∈ startedNames after

/-- Of two elements without their earlier occurrences, the first one occurs last before the
second one does. -/
theorem pairwise_dedup {α : Type} [DecidableEq α] (xs : List α) :
    xs.dedup.Pairwise fun a b => ∃ before after, xs = before ++ after ∧ a ∈ before ∧ a ∉ after
      ∧ b ∈ after := by
  induction xs with
  | nil =>
      rw [List.dedup_nil]
      exact .nil
  | cons x xs ih =>
      -- where the rest is cut, the whole is cut as well
      have rest : xs.dedup.Pairwise fun a b => ∃ before after, x :: xs = before ++ after
          ∧ a ∈ before ∧ a ∉ after ∧ b ∈ after := by
        apply ih.imp
        rintro a b ⟨before, after, rfl, hbefore, hafter, hb⟩
        exact ⟨x :: before, after, rfl, List.mem_cons_of_mem x hbefore, hafter, hb⟩
      by_cases hx : x ∈ xs
      · rw [List.dedup_cons_of_mem hx]
        exact rest
      · rw [List.dedup_cons_of_notMem hx]
        refine List.pairwise_cons.2 ⟨?_, rest⟩
        intro b hb
        exact ⟨[x], xs, rfl, List.mem_cons_self, hx, List.mem_dedup.1 hb⟩

/-- The started names keep the order of their last starts. -/
theorem Event.pairwise_dedup_startedNames (events : List Event) :
    (startedNames events).dedup.Pairwise (StartsLastBefore events) := by
  apply (pairwise_dedup (startedNames events)).imp
  rintro a b ⟨names, later, hsplit, ha, hlast, hb⟩
  obtain ⟨before, after, rfl, rfl, rfl⟩ := List.filterMap_eq_append_iff.1 hsplit
  exact ⟨before, after, rfl, ha, hlast, hb⟩

theorem WrittenParameter.draft_ofValue (p : WrittenParameter) : p.draft.OfValue := by
  unfold WrittenParameter.draft
  split
  · exact Reported.ofValue_of_causes_eq_nil rfl
  · exact Text.classify_ofValue _

/-- What is reported of a method concerns the defaults of its parameters. -/
theorem MethodStart.draft_ofValue (cfg : Config) (m : MethodStart) : (m.draft cfg).OfValue := by
  apply Reported.OfValue.map
  apply Reported.ofValue_all
  intro r hr
  obtain ⟨p, -, rfl⟩ := List.mem_map.1 hr
  exact p.draft_ofValue

namespace Assembly

/-- **What is not replaced has the last occurrence of each name.** -/
theorem names_withoutReplaced {α : Type} (cs : List (Class α)) :
    (withoutReplaced cs).map Class.name = (cs.map Class.name).dedup := by
  induction cs with
  | nil => rfl
  | cons c cs ih =>
      have again : (cs.any fun later => later.name = c.name) = true
          ↔ c.name ∈ cs.map Class.name := by
        rw [List.any_eq_true, List.mem_map]
        simp only [decide_eq_true_eq]
      rw [withoutReplaced, List.map_cons]
      by_cases h : c.name ∈ cs.map Class.name
      · rw [if_pos (again.2 h), List.dedup_cons_of_mem h]
        exact ih
      · rw [if_neg (mt again.1 h), List.dedup_cons_of_notMem h, List.map_cons, ih]

/-- The names of the finished classes are those of the drafts, each once. -/
theorem names_finish (s : Assembly) :
    s.finish.map Class.name = (s.drafts.map Class.name).dedup := by
  unfold finish
  rw [names_withoutReplaced, List.map_map]
  rfl

/-! ## §2. What is said about duplicates. -/

open Diagnostic (count)

theorem count_append (kind : DiagnosticKind) (ds later : List Diagnostic) :
    count kind (ds ++ later) = count kind ds + count kind later :=
  List.countP_append

/-- Whatever is reported of a value, it is not about a class. -/
theorem duplicates_atLine {causes : List Cause} (h : ∀ c ∈ causes, c.OfValue) (line : Nat) :
    count .duplicateClass (Diagnostic.atLine line causes) = 0 := by
  refine List.countP_eq_zero.2 fun d hd => ?_
  obtain ⟨c, hc, rfl⟩ := List.mem_map.1 hd
  have other : c.kind ≠ .duplicateClass := by
    intro hkind
    rcases h c hc with h | h
    · exact DiagnosticKind.noConfusion (hkind.symm.trans h)
    · exact DiagnosticKind.noConfusion (hkind.symm.trans h)
  exact mt of_decide_eq_true other

/-- A class is told to be a duplicate if a draft has its name. -/
theorem duplicates_startClass (c : ClassStart) (s : Assembly) :
    count .duplicateClass (s.startClass c).2
      = if c.name ∈ s.drafts.map Class.name then 1 else 0 := by
  show count .duplicateClass (Option.toList (findLast? (fun d => d.name = c.name) s.drafts)
    |>.map fun d => ⟨c.line, .duplicateClass c.name d.line⟩) = _
  have found : (findLast? (fun d => d.name = c.name) s.drafts).isSome = true
      ↔ c.name ∈ s.drafts.map Class.name := isSome_findLast?_iff
  cases hfound : findLast? (fun d => d.name = c.name) s.drafts with
  | none =>
      rw [hfound] at found
      rw [if_neg (mt found.2 Bool.false_ne_true)]
      rfl
  | some d =>
      rw [hfound] at found
      rw [if_pos (found.1 rfl)]
      rfl

/-- Nothing else is. -/
theorem duplicates_take_of_className?_eq_none {cfg : Config} {s : Assembly} {e : Event}
    (h : e.className? = none) : count .duplicateClass (s.take cfg e).2 = 0 := by
  cases e with
  | classStart c => exact absurd h (Option.some_ne_none c.name)
  | methodStart m =>
      show count .duplicateClass (s.startMethod cfg m).2 = 0
      unfold startMethod
      split
      · rfl
      · exact duplicates_atLine (m.draft_ofValue cfg) m.line
  | classAssignment a =>
      show count .duplicateClass (s.assignClass cfg a).2 = 0
      unfold assignClass
      split
      · rfl
      · exact duplicates_atLine (Text.classify_ofValue a.value) a.line
  | selfAssignment a =>
      show count .duplicateClass (s.assignSelf cfg a).2 = 0
      unfold assignSelf
      split
      · exact duplicates_atLine (Text.classify_ofValue a.value) a.line
      · rfl
  | moduleAssignment name value line => exact duplicates_atLine (Text.classify_ofValue value) line
  | classEnd | methodEnd | docstring | decorator | ignored => rfl

/-- **WITH EACH EVENT, DUPLICATES MAKE UP FOR NAMES**: a start either brings a new name or is told
to be a duplicate. -/
theorem duplicates_take (cfg : Config) (s : Assembly) (e : Event) :
    count .duplicateClass (s.take cfg e).2
        + ((s.take cfg e).1.drafts.map Class.name).toFinset.card
      = (s.drafts.map Class.name).toFinset.card + e.className?.toList.length := by
  rw [names_take]
  cases hname : e.className? with
  | none =>
      rw [duplicates_take_of_className?_eq_none hname, Option.toList_none, List.append_nil,
        Nat.zero_add]
      rfl
  | some name =>
      obtain ⟨c, rfl, rfl⟩ : ∃ c, e = .classStart c ∧ c.name = name := by
        cases e with
        | classStart c => exact ⟨c, rfl, Option.some.inj hname⟩
        | _ => exact absurd hname (Option.some_ne_none name).symm
      have duplicate := duplicates_startClass c s
      show count .duplicateClass (s.startClass c).2
        + (s.drafts.map Class.name ++ [c.name]).toFinset.card = _ + 1
      rw [List.toFinset_append, List.toFinset_cons, List.toFinset_nil, Finset.union_comm]
      by_cases hagain : c.name ∈ s.drafts.map Class.name
      · -- the name is there already
        rw [if_pos hagain] at duplicate
        have same : insert c.name ∅ ∪ (s.drafts.map Class.name).toFinset
            = (s.drafts.map Class.name).toFinset :=
          Finset.insert_eq_of_mem (List.mem_toFinset.2 hagain)
        rw [duplicate, same]
        omega
      · rw [if_neg hagain] at duplicate
        have more : (insert c.name ∅ ∪ (s.drafts.map Class.name).toFinset).card
            = (s.drafts.map Class.name).toFinset.card + 1 :=
          Finset.card_insert_of_notMem (mt List.mem_toFinset.1 hagain)
        rw [duplicate, more]
        omega

/-- Over a run they do as well. -/
theorem duplicates_takeAll (cfg : Config) (s : Assembly) (es : List Event) :
    count .duplicateClass (s.takeAll cfg es).2
        + ((s.takeAll cfg es).1.drafts.map Class.name).toFinset.card
      = (s.drafts.map Class.name).toFinset.card + (Event.startedNames es).length := by
  induction es generalizing s with
  | nil => exact Nat.zero_add _
  | cons e es ih =>
      have first := duplicates_take cfg s e
      have others := ih (s.take cfg e).1
      show count .duplicateClass ((s.take cfg e).2 ++ ((s.take cfg e).1.takeAll cfg es).2)
        + (((s.take cfg e).1.takeAll cfg es).1.drafts.map Class.name).toFinset.card = _
      rw [count_append, Event.startedNames_cons, List.length_append]
      omega

end Assembly

/-! ## §3. The classes of a stream of events. -/

/-- **EACH CLASS NAME STANDS ONCE, WHERE IT WAS STARTED LAST.**  The names of the classes are
distinct, they are those of the started classes, and they come in the order of the last starts;
and as often as a class starts whose name has started before, this is reported. -/
theorem Class.names_ofEvents (cfg : Config) (events : List Event) :
    let names := (Class.ofEvents cfg events).1.map Class.name
    names.Nodup
      ∧ (∀ name, name ∈ names ↔ ∃ c, .classStart c ∈ events ∧ c.name = name)
      ∧ names.Pairwise (Event.StartsLastBefore events)
      ∧ Diagnostic.count .duplicateClass (Class.ofEvents cfg events).2
          + (Event.startedNames events).toFinset.card
        = (Event.startedNames events).length := by
  intro names
  have kept : names = (Event.startedNames events).dedup := by
    refine (Assembly.names_finish _).trans ?_
    rw [Assembly.names_takeAll]
    rfl
  refine ⟨kept ▸ List.nodup_dedup _, ?_, kept ▸ Event.pairwise_dedup_startedNames events, ?_⟩
  · intro name
    rw [kept, List.mem_dedup]
    constructor
    · intro hname
      obtain ⟨e, he, hclass⟩ := List.mem_filterMap.1 hname
      cases e with
      | classStart c => exact ⟨c, he, Option.some.inj hclass⟩
      | _ => exact absurd hclass (Option.some_ne_none name).symm
    · rintro ⟨c, hc, rfl⟩
      exact List.mem_filterMap.2 ⟨_, hc, rfl⟩
  · have duplicates := Assembly.duplicates_takeAll cfg {} events
    rw [Assembly.names_takeAll] at duplicates
    exact duplicates.trans (Nat.zero_add _)

/-- A class that is started three times, once inside another one, is reported twice and stands
behind it. -/
example :
    let result := Class.ofEvents {} [.classStart ⟨['A'], [], none, 1⟩, .classEnd ['A'],
      .classStart ⟨['A'], [], none, 2⟩, .classStart ⟨['B'], [], none, 3⟩,
      .classStart ⟨['A'], [], none, 4⟩]
    result.1.map Class.name = [['B'], ['A']] ∧ result.1.map Class.line = [3, 4]
      ∧ Diagnostic.count .duplicateClass result.2 = 2 := by
  decide +kernel

end ClassOutline
