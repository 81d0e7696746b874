/-
  ClassOutline.Proofs.Outline.Pending
  ────────────────────────────────
  **EVERY VALUE GETS TO ITS PLACE.**

  A draft holds initializers, and to finish it is to look them up where they
  are.  The same classes come out of a list of what is pending: each attribute
  or default notes the slot that it is about to have, by the lengths of the
  lists at that moment, and in the end the values are written into empty classes
  slot by slot (`Pending.writeAll?`).

  That this never writes out of range, and never twice to one slot, rests on one
  equivalence for an event (`Assembly.held?_take`): what the drafts hold after it
  is what they held before and what is pending of it.  It needs nothing to be
  known about the events, which may come in any order.
-/
import Mathlib.Data.List.Nodup
import ClassOutline.Proofs.Outline.Notes
import ClassOutline.Proofs.Outline.Slots

namespace ClassOutline

/-! ## §1. What is pending. -/

/-- A slot in the class at a position. -/
structure Destination where
  position : Nat
  slot : Slot
  deriving DecidableEq, Repr

/-- A value that is looked up when the last event is in. -/
structure Pending where
  /-- Where it goes then. -/
  dest : Destination
  /-- The name of the attribute or parameter. -/
  name : Text
  /-- The value as it is written. -/
  text : Text
  /-- The name of self where it stands. -/
  selfName : Option Text
  deriving Repr

/-- What is held until then. -/
def Pending.held (p : Pending) : Text × Deferred := (p.name, ⟨p.text.classify.value, p.selfName⟩)

/-- What is pending of an event where the class at a position is innermost.  The parameter that is
dropped has no slot. -/
def Event.pendingIn (cfg : Config) (position : Nat) (c : Class Deferred)
    (method : Option OpenMethod) : Event → List Pending
  | .classAssignment a =>
    [⟨⟨position, .classAttribute c.classAttributes.length⟩, a.name, a.value, none⟩]
  | .selfAssignment a =>
    match method with
    | some m =>
      [⟨⟨position, .instanceAttribute c.instanceAttributes.length⟩, a.name, a.value, m.selfName⟩]
    | none => []
  | .methodStart m =>
    (m.parameters.drop (if (m.shape cfg).dropsFirst then 1 else 0)).zipIdx.filterMap fun (p, j) =>
      p.default.map fun text => ⟨⟨position, .default c.methods.length j⟩, p.name, text, none⟩
  | _ => []

namespace Assembly

/-- What is pending of an event. -/
def pendingOf (cfg : Config) (s : Assembly) (e : Event) : List Pending :=
  match s.opened.head?, s.innermost? with
  | some position, some c => e.pendingIn cfg position c s.method
  | _, _ => []

/-- What is pending of events, in order. -/
def pendingOfAll (cfg : Config) (s : Assembly) : List Event → List Pending
  | [] => []
  | e :: es => s.pendingOf cfg e ++ (s.take cfg e).1.pendingOfAll cfg es

/-- What the drafts hold in a slot. -/
def held? (s : Assembly) (dest : Destination) : Option (Text × Deferred) :=
  s.drafts[dest.position]?.bind fun c => c.held? dest.slot

variable {cfg : Config} {s : Assembly} {position : Nat} {outer : List Nat} {c : Class Deferred}

theorem pendingOf_of_some (hopened : s.opened = position :: outer)
    (hc : s.drafts[position]? = some c) (e : Event) :
    s.pendingOf cfg e = e.pendingIn cfg position c s.method := by
  have inner : s.innermost? = some c := by
    unfold innermost?
    rw [hopened]
    exact hc
  unfold pendingOf
  rw [hopened, inner]
  rfl

theorem pendingOf_of_none (h : s.innermost? = none) (e : Event) : s.pendingOf cfg e = [] := by
  unfold pendingOf
  rw [h]
  split
  · next heq => cases heq
  · rfl

/-- What is pending of events is pending of one of them. -/
theorem mem_pendingOfAll_iff {es : List Event} {p : Pending} :
    p ∈ s.pendingOfAll cfg es
      ↔ ∃ before e after, es = before ++ e :: after
        ∧ p ∈ (s.takeAll cfg before).1.pendingOf cfg e := by
  induction es generalizing s with
  | nil =>
      refine ⟨fun h => absurd h List.not_mem_nil, ?_⟩
      rintro ⟨before, e, after, hes, -⟩
      exact absurd hes.symm (List.append_ne_nil_of_right_ne_nil _ (List.cons_ne_nil _ _))
  | cons e es ih =>
      rw [pendingOfAll, List.mem_append, ih]
      constructor
      · rintro (h | ⟨before, e', after, rfl, h⟩)
        · exact ⟨[], e, es, rfl, h⟩
        · exact ⟨e :: before, e', after, rfl, h⟩
      · rintro ⟨before, e', after, hes, h⟩
        cases before with
        | nil =>
            obtain ⟨rfl, rfl⟩ := List.cons.inj hes
            exact .inl h
        | cons first before =>
            obtain ⟨rfl, rfl⟩ := List.cons.inj hes
            exact .inr ⟨before, e', after, rfl, h⟩

/-! ## §2. One event. -/

theorem modifyInnermost_of_none (h : s.innermost? = none) (f : Class Deferred → Class Deferred) :
    s.modifyInnermost f = s := by
  unfold modifyInnermost
  split
  · rfl
  · next position outer hopened =>
    unfold innermost? at h
    rw [hopened] at h
    have hnone : s.drafts[position]? = none := h
    have same : s.drafts.modify position f = s.drafts :=
      List.modify_eq_self (List.getElem?_eq_none_iff.1 hnone)
    rw [same]

/-- A change that no slot shows. -/
theorem held?_modifyInnermost_of_same {f : Class Deferred → Class Deferred}
    (hf : ∀ c slot, (f c).held? slot = c.held? slot) (dest : Destination) :
    (s.modifyInnermost f).held? dest = s.held? dest := by
  have same : (s.modifyInnermost f).drafts.map (Class.held? · dest.slot)
      = s.drafts.map (Class.held? · dest.slot) :=
    map_drafts_modifyInnermost (fun c => hf c dest.slot) s
  have read (ds : List (Class Deferred)) : (ds[dest.position]?.bind fun c => c.held? dest.slot)
      = (ds.map (Class.held? · dest.slot))[dest.position]?.join := by
    rw [List.getElem?_map]
    cases ds[dest.position]? <;> rfl
  unfold held?
  rw [read, same, ← read]

/-- **What the innermost class gains is all that is gained.** -/
theorem held?_modifyInnermost_iff {s' : Assembly} (hdrafts : s'.drafts = s.drafts)
    (hopened : s'.opened = position :: outer) (hc : s.drafts[position]? = some c)
    {f : Class Deferred → Class Deferred} {new : List Pending} {x : Text × Deferred}
    (hnew : ∀ p ∈ new, p.dest.position = position)
    (hf : ∀ slot, (f c).held? slot = some x
      ↔ c.held? slot = some x ∨ ∃ p ∈ new, p.dest.slot = slot ∧ p.held = x) (dest : Destination) :
    (s'.modifyInnermost f).held? dest = some x
      ↔ s.held? dest = some x ∨ ∃ p ∈ new, p.dest = dest ∧ p.held = x := by
  have drafts : (s'.modifyInnermost f).drafts = s.drafts.modify position f := by
    unfold modifyInnermost
    rw [hopened, ← hdrafts]
  obtain ⟨i, slot⟩ := dest
  unfold held?
  rw [drafts, List.getElem?_modify]
  by_cases hi : position = i
  · subst hi
    simp only [hc]
    show (f c).held? slot = some x ↔ c.held? slot = some x ∨ _
    rw [hf]
    refine or_congr_right ⟨?_, ?_⟩
    · rintro ⟨p, hp, hslot, hheld⟩
      refine ⟨p, hp, ?_, hheld⟩
      rw [← hnew p hp, ← hslot]
    · rintro ⟨p, hp, hdest, hheld⟩
      exact ⟨p, hp, congrArg Destination.slot hdest, hheld⟩
  · -- another class than the innermost
    have same : (fun a => if position = i then f a else a) <$> s.drafts[i]? = s.drafts[i]? := by
      cases s.drafts[i]? with
      | none => rfl
      | some d => exact congrArg some (if_neg hi)
    rw [same]
    refine ⟨.inl, fun h => h.resolve_right ?_⟩
    rintro ⟨p, hp, hdest, -⟩
    exact hi ((hnew p hp).symm.trans (congrArg Destination.position hdest))

/-- The position is that of the innermost class. -/
theorem position_of_mem_pendingIn {e : Event} {method : Option OpenMethod} {p : Pending}
    (h : p ∈ e.pendingIn cfg position c method) : p.dest.position = position := by
  cases e with
  | classAssignment a =>
      obtain rfl := List.mem_singleton.1 h
      rfl
  | selfAssignment a =>
      cases method with
      | none => exact absurd h List.not_mem_nil
      | some m =>
          obtain rfl := List.mem_singleton.1 h
          rfl
  | methodStart m =>
      obtain ⟨⟨w, j⟩, -, hp⟩ := List.mem_filterMap.1 h
      obtain ⟨text, -, rfl⟩ := Option.map_eq_some_iff.1 hp
      rfl
  | _ => exact absurd h List.not_mem_nil

/-- The parameters of a method that hold a default are those for which one is pending. -/
theorem exists_held?_draft_iff {m : MethodStart} {method : Option OpenMethod} {slot : Slot}
    {x : Text × Deferred} :
    (∃ j p, slot = .default c.methods.length j ∧ (m.draft cfg).value.parameters[j]? = some p
        ∧ Parameter.held? p = some x)
      ↔ ∃ p ∈ (Event.methodStart m).pendingIn cfg position c method,
        p.dest.slot = slot ∧ p.held = x := by
  -- the parameters that are kept, each with its default classified
  have parameter (j : Nat) : (m.draft cfg).value.parameters[j]?
      = (m.parameters.drop (if (m.shape cfg).dropsFirst then 1 else 0))[j]?.map
        fun w => w.draft.value := by
    show (((m.parameters.drop _).map WrittenParameter.draft).map Reported.value)[j]? = _
    rw [List.map_map, List.getElem?_map]
    rfl
  have default (w : WrittenParameter) : Parameter.held? w.draft.value
      = w.default.map fun text => (w.name, ⟨text.classify.value, none⟩) := by
    unfold WrittenParameter.draft
    cases w.default <;> rfl
  constructor
  · rintro ⟨j, p, rfl, hp, hx⟩
    rw [parameter] at hp
    obtain ⟨w, hw, rfl⟩ := Option.map_eq_some_iff.1 hp
    rw [default] at hx
    obtain ⟨text, htext, rfl⟩ := Option.map_eq_some_iff.1 hx
    refine ⟨⟨⟨position, .default c.methods.length j⟩, w.name, text, none⟩, ?_, rfl, rfl⟩
    exact List.mem_filterMap.2 ⟨(w, j), List.mem_zipIdx_iff_getElem?.2 hw,
      congrArg (Option.map _) htext⟩
  · rintro ⟨p, hp, rfl, rfl⟩
    obtain ⟨⟨w, j⟩, hw, hp⟩ := List.mem_filterMap.1 hp
    obtain ⟨text, htext, rfl⟩ := Option.map_eq_some_iff.1 hp
    refine ⟨j, w.draft.value, rfl, ?_, ?_⟩
    · rw [parameter, List.mem_zipIdx_iff_getElem?.1 hw]
      rfl
    · rw [default, htext]
      rfl

/-- A class that starts has no slots yet. -/
theorem held?_startClass (start : ClassStart) (s : Assembly) (dest : Destination) :
    (s.startClass start).1.held? dest = s.held? dest := by
  obtain ⟨i, slot⟩ := dest
  have empty (d : Class Deferred) (hclass : d.classAttributes = [])
      (hself : d.instanceAttributes = []) (hmethods : d.methods = []) : d.held? slot = none := by
    unfold Class.held?
    rw [hclass, hself, hmethods]
    cases slot <;> rfl
  show ((s.drafts ++ [_])[i]?.bind fun c => c.held? slot) = s.drafts[i]?.bind fun c => c.held? slot
  by_cases hi : i < s.drafts.length
  · rw [List.getElem?_append_left hi]
  · have hle := Nat.le_of_not_lt hi
    rw [List.getElem?_append_right hle, List.getElem?_eq_none hle]
    cases i - s.drafts.length with
    | zero => exact empty _ rfl rfl rfl
    | succ k => rfl

/-- Where no class is open, events leave the slots alone. -/
theorem held?_take_of_none (h : s.innermost? = none) (e : Event) (dest : Destination) :
    (s.take cfg e).1.held? dest = s.held? dest := by
  cases e with
  | classStart start => exact held?_startClass start s dest
  | methodStart m =>
      show (s.startMethod cfg m).1.held? dest = _
      unfold startMethod
      split
      · rfl
      · dsimp only
        rw [modifyInnermost_of_none h]
        rfl
  | methodEnd name source =>
      show (s.endMethod source).held? dest = _
      unfold endMethod
      dsimp only
      split
      · rfl
      · rw [modifyInnermost_of_none (s := { s with method := none }) h]
        rfl
  | classAssignment a =>
      show (s.assignClass cfg a).1.held? dest = _
      unfold assignClass
      rw [h]
  | selfAssignment a =>
      show (s.assignSelf cfg a).1.held? dest = _
      unfold assignSelf
      rw [h]
  | docstring text line =>
      show (s.document text).held? dest = _
      unfold document
      rw [modifyInnermost_of_none h]
  | classEnd | moduleAssignment | decorator | ignored => rfl

/-- **AN EVENT ADDS WHAT IS PENDING OF IT.**  What the drafts hold after an event, in whatever
slot, they held before, or it is pending of the event. -/
theorem held?_take (cfg : Config) (s : Assembly) (e : Event) (dest : Destination)
    (x : Text × Deferred) :
    (s.take cfg e).1.held? dest = some x
      ↔ s.held? dest = some x ∨ ∃ p ∈ s.pendingOf cfg e, p.dest = dest ∧ p.held = x := by
  cases hinner : s.innermost? with
  | none =>
      rw [held?_take_of_none hinner, pendingOf_of_none hinner]
      exact ⟨.inl, fun h => h.resolve_right fun ⟨p, hp, _⟩ => absurd hp List.not_mem_nil⟩
  | some c =>
      obtain ⟨position, outer, hopened, hc⟩ := exists_of_innermost? hinner
      rw [pendingOf_of_some hopened hc]
      -- an event of which nothing is pending
      have nothing {s' : Assembly} (hsame : s'.held? dest = s.held? dest) :
          s'.held? dest = some x
            ↔ s.held? dest = some x ∨ ∃ p ∈ ([] : List Pending), p.dest = dest ∧ p.held = x := by
        rw [hsame]
        exact ⟨.inl, fun h => h.resolve_right fun ⟨p, hp, _⟩ => absurd hp List.not_mem_nil⟩
      have one {p : Pending} {slot : Slot} : (∃ q ∈ [p], q.dest.slot = slot ∧ q.held = x)
          ↔ slot = p.dest.slot ∧ p.held = x := by
        constructor
        · rintro ⟨q, hq, rfl, hheld⟩
          obtain rfl := List.mem_singleton.1 hq
          exact ⟨rfl, hheld⟩
        · rintro ⟨rfl, hheld⟩
          exact ⟨p, List.mem_singleton.2 rfl, rfl, hheld⟩
      cases e with
      | classAssignment a =>
          show (s.assignClass cfg a).1.held? dest = some x ↔ _
          unfold assignClass
          rw [hinner]
          apply held?_modifyInnermost_iff (by rfl) (by exact hopened) hc
          · exact fun p => position_of_mem_pendingIn
          · intro slot
            show _ ↔ _ ∨ ∃ p ∈ [_], _
            rw [one]
            exact Class.held?_addClassAttribute c _
      | selfAssignment a =>
          show (s.assignSelf cfg a).1.held? dest = some x ↔ _
          unfold assignSelf
          rw [hinner]
          cases s.method with
          | none => exact nothing rfl
          | some method =>
              apply held?_modifyInnermost_iff (by rfl) (by exact hopened) hc
              · exact fun p => position_of_mem_pendingIn
              · intro slot
                show _ ↔ _ ∨ ∃ p ∈ [_], _
                rw [one]
                exact Class.held?_addInstanceAttribute c _
      | methodStart m =>
          have hopen : s.opened.isEmpty = false := by
            rw [hopened]
            rfl
          show (s.startMethod cfg m).1.held? dest = some x ↔ _
          unfold startMethod
          rw [hopen]
          apply held?_modifyInnermost_iff (by rfl) (by exact hopened) hc
          · exact fun p => position_of_mem_pendingIn
          · intro slot
            rw [← exists_held?_draft_iff]
            exact Class.held?_addMethod c _
      | methodEnd name source =>
          refine nothing ?_
          show (s.endMethod source).held? dest = _
          unfold endMethod
          dsimp only
          split
          · rfl
          · exact held?_modifyInnermost_of_same (s := { s with method := none })
              (Class.held?_modifyLast (f := fun m => { m with source }) fun _ => rfl) dest
      | docstring text line =>
          refine nothing (held?_modifyInnermost_of_same (fun c slot => ?_) dest)
          split
          · exact Class.held?_modifyLast (f := fun m => { m with doc := some text })
              (fun _ => rfl) c slot
          · rfl
      | classStart start => exact nothing (held?_startClass start s dest)
      | classEnd | moduleAssignment | decorator | ignored => exact nothing rfl

/-- What is pending of an event goes to slots that are free before it. -/
theorem held?_of_mem_pendingOf {e : Event} {p : Pending} (h : p ∈ s.pendingOf cfg e) :
    s.held? p.dest = none := by
  cases hinner : s.innermost? with
  | none =>
      rw [pendingOf_of_none hinner] at h
      exact absurd h List.not_mem_nil
  | some c =>
      obtain ⟨position, outer, hopened, hc⟩ := exists_of_innermost? hinner
      rw [pendingOf_of_some hopened hc] at h
      have inClass : s.held? p.dest = c.held? p.dest.slot := by
        unfold held?
        rw [position_of_mem_pendingIn h, hc]
        rfl
      rw [inClass]
      -- behind the last element of a list there is none
      cases e with
      | classAssignment a =>
          obtain rfl := List.mem_singleton.1 h
          exact congrArg (Option.map _) (List.getElem?_eq_none (Nat.le_refl _))
      | selfAssignment a =>
          revert h
          cases s.method with
          | none => exact fun h => absurd h List.not_mem_nil
          | some m =>
              intro h
              obtain rfl := List.mem_singleton.1 h
              exact congrArg (Option.map _) (List.getElem?_eq_none (Nat.le_refl _))
      | methodStart m =>
          obtain ⟨⟨w, j⟩, -, hp⟩ := List.mem_filterMap.1 h
          obtain ⟨text, -, rfl⟩ := Option.map_eq_some_iff.1 hp
          exact congrArg (Option.bind · _) (List.getElem?_eq_none (Nat.le_refl _))
      | _ => exact absurd h List.not_mem_nil

/-- No two of them go to one slot. -/
theorem nodup_dest_pendingOf (cfg : Config) (s : Assembly) (e : Event) :
    ((s.pendingOf cfg e).map Pending.dest).Nodup := by
  unfold pendingOf
  split
  · next position c _ _ =>
    cases e with
    | classAssignment a => exact List.nodup_singleton _
    | selfAssignment a =>
        cases s.method with
        | none => exact List.nodup_nil
        | some m => exact List.nodup_singleton _
    | methodStart m =>
        -- the parameters are numbered
        refine List.pairwise_map.2 (List.pairwise_filterMap.2 ?_)
        have numbered (ws : List WrittenParameter) : ws.zipIdx.Pairwise fun a b => a.2 ≠ b.2 := by
          refine List.pairwise_map.1 ?_
          rw [List.zipIdx_map_snd]
          exact List.nodup_range'
        refine (numbered _).imp fun {a b} hne p hp q hq hdest => hne ?_
        obtain ⟨text, -, rfl⟩ := Option.map_eq_some_iff.1 hp
        obtain ⟨text', -, rfl⟩ := Option.map_eq_some_iff.1 hq
        exact (Slot.default.inj (congrArg Destination.slot hdest)).2
    | _ => exact List.nodup_nil
  · exact List.nodup_nil

/-! ## §3. All events. -/

/-- **ALL THAT DRAFTS HOLD WAS PENDING**, of some event, and all that was pending they hold. -/
theorem held?_takeAll (cfg : Config) (s : Assembly) (es : List Event) (dest : Destination)
    (x : Text × Deferred) :
    (s.takeAll cfg es).1.held? dest = some x
      ↔ s.held? dest = some x ∨ ∃ p ∈ s.pendingOfAll cfg es, p.dest = dest ∧ p.held = x := by
  induction es generalizing s with
  | nil => exact ⟨.inl, fun h => h.resolve_right fun ⟨p, hp, _⟩ => absurd hp List.not_mem_nil⟩
  | cons e es ih =>
      show ((s.take cfg e).1.takeAll cfg es).1.held? dest = some x ↔ _
      rw [ih, held?_take, pendingOfAll, or_assoc]
      refine or_congr_right ?_
      constructor
      · rintro (⟨p, hp, h⟩ | ⟨p, hp, h⟩)
        · exact ⟨p, List.mem_append_left _ hp, h⟩
        · exact ⟨p, List.mem_append_right _ hp, h⟩
      · rintro ⟨p, hp, h⟩
        rcases List.mem_append.1 hp with hp | hp
        · exact .inl ⟨p, hp, h⟩
        · exact .inr ⟨p, hp, h⟩

/-- Slots that are filled are filled for good. -/
theorem held?_of_mem_pendingOfAll {es : List Event} {p : Pending}
    (h : p ∈ s.pendingOfAll cfg es) : s.held? p.dest = none := by
  induction es generalizing s with
  | nil => exact absurd h List.not_mem_nil
  | cons e es ih =>
      rcases List.mem_append.1 h with h | h
      · exact held?_of_mem_pendingOf h
      · -- were it filled before, it would be filled after the first event
        cases hheld : s.held? p.dest with
        | none => rfl
        | some x =>
            have after := (held?_take cfg s e p.dest x).2 (.inl hheld)
            rw [ih h] at after
            cases after

/-- **NO TWO PENDING VALUES GO TO ONE SLOT.** -/
theorem nodup_dest_pendingOfAll (cfg : Config) (s : Assembly) (es : List Event) :
    ((s.pendingOfAll cfg es).map Pending.dest).Nodup := by
  induction es generalizing s with
  | nil => exact List.nodup_nil
  | cons e es ih =>
      rw [pendingOfAll, List.map_append]
      refine List.nodup_append.2 ⟨nodup_dest_pendingOf cfg s e, ih _, ?_⟩
      intro dest hfirst dest' hlater heq
      obtain ⟨p, hp, rfl⟩ := List.mem_map.1 hfirst
      obtain ⟨q, hq, rfl⟩ := List.mem_map.1 hlater
      -- what the first event fills is not free any more
      have filled := (held?_take cfg s e p.dest p.held).2 (.inr ⟨p, hp, rfl, rfl⟩)
      rw [heq, held?_of_mem_pendingOfAll hq] at filled
      cases filled

end Assembly

/-! ## §4. Writing what is pending. -/

namespace Pending

/-- Look up a pending value and write it into the class at its position. -/
def write? (d : Definitions) (p : Pending) (cs : List (Class Value)) :
    Option (List (Class Value)) :=
  update? p.dest.position (fun c =>
    c.write? (d.resolve ⟨some c.name, p.selfName⟩ p.text.classify.value) p.dest.slot) cs

/-- Write all that is pending, in order, if nothing is out of range. -/
def writeAll? (d : Definitions) : List Pending → List (Class Value) → Option (List (Class Value))
  | [], cs => some cs
  | p :: ps, cs => (p.write? d cs).bind (writeAll? d ps)

end Pending

namespace Assembly

variable {s : Assembly}

/-- The finished classes with the values of some slots only. -/
def writtenOnly (s : Assembly) (kept : Destination → Bool) : List (Class Value) :=
  s.drafts.mapIdx fun i c =>
    (finishClass s.definitions c).withOnly (fun slot => kept ⟨i, slot⟩) .nothing

theorem writtenOnly_none (s : Assembly) :
    s.writtenOnly (fun _ => false) = s.drafts.map (Class.map fun _ => .nothing) :=
  mapIdx_eq_map fun _ c _ => by
    rw [Class.withOnly_none]
    exact Class.map_map _ _ c

/-- What a finished class holds in a slot is what its draft held there, looked up. -/
theorem held?_finishClass {d : Definitions} {c : Class Deferred} {slot : Slot} {x : Text × Value} :
    (finishClass d c).held? slot = some x
      ↔ ∃ y, c.held? slot = some y
        ∧ (y.1, d.resolve ⟨some c.name, y.2.selfName⟩ y.2.value) = x := by
  unfold finishClass
  rw [Class.held?_map, Option.map_eq_some_iff]

theorem writtenOnly_all {kept : Destination → Bool}
    (h : ∀ dest x, s.held? dest = some x → kept dest = true) :
    s.writtenOnly kept = s.drafts.map (finishClass s.definitions) := by
  refine mapIdx_eq_map fun i c hc => Class.withOnly_all Value.nothing fun slot x hx => ?_
  obtain ⟨y, hy, -⟩ := held?_finishClass.1 hx
  refine h ⟨i, slot⟩ y ?_
  unfold held?
  rw [hc]
  exact hy

/-- **One pending value is written**, and the slots that had their values keep them. -/
theorem write?_writtenOnly {p : Pending} (h : s.held? p.dest = some p.held)
    (kept : Destination → Bool) :
    p.write? s.definitions (s.writtenOnly kept)
      = some (s.writtenOnly fun dest => dest == p.dest || kept dest) := by
  obtain ⟨c, hc, hheld⟩ := Option.bind_eq_some_iff.1 h
  have value := held?_finishClass (d := s.definitions).2 ⟨p.held, hheld, rfl⟩
  have one := Class.write?_withOnly (fun slot => kept ⟨p.dest.position, slot⟩) .nothing value
  have sameClass (slot : Slot) : ((⟨p.dest.position, slot⟩ : Destination) == p.dest)
      = (slot == p.dest.slot) := by
    rw [Bool.eq_iff_iff, beq_iff_eq, beq_iff_eq]
    exact ⟨congrArg Destination.slot, fun heq => by rw [heq]⟩
  unfold Pending.write? writtenOnly
  apply update?_mapIdx hc
  · simp only [sameClass]
    exact one
  · intro j d hj
    refine congrArg (fun kept => Class.withOnly kept Value.nothing _) (funext fun slot => ?_)
    have other : ((⟨j, slot⟩ : Destination) == p.dest) = false :=
      beq_false_of_ne fun heq => hj (congrArg Destination.position heq)
    show (_ == p.dest || kept _) = kept _
    rw [other, Bool.false_or]

/-- Values are written one after the other. -/
theorem writeAll?_writtenOnly {ps : List Pending} (h : ∀ p ∈ ps, s.held? p.dest = some p.held)
    (kept : Destination → Bool) :
    Pending.writeAll? s.definitions ps (s.writtenOnly kept)
      = some (s.writtenOnly fun dest => (ps.map Pending.dest).contains dest || kept dest) := by
  induction ps generalizing kept with
  | nil => rfl
  | cons p ps ih =>
      rw [Pending.writeAll?, write?_writtenOnly (h p List.mem_cons_self)]
      refine (ih (fun q hq => h q (List.mem_cons_of_mem p hq)) _).trans ?_
      refine congrArg (fun kept => some (s.writtenOnly kept)) (funext fun dest => ?_)
      rw [List.map_cons, List.contains_cons, Bool.or_left_comm, Bool.or_assoc]

/-- **WHAT IS PENDING, WRITTEN SLOT BY SLOT, MAKES THE FINISHED CLASSES.** -/
theorem writeAll?_pendingOfAll (cfg : Config) (events : List Event) :
    let s := (takeAll cfg {} events).1
    Pending.writeAll? s.definitions (pendingOfAll cfg {} events)
        (s.drafts.map (Class.map fun _ => .nothing))
      = some (s.drafts.map (finishClass s.definitions)) := by
  intro s
  have held := held?_takeAll cfg {} events
  have pending : ∀ p ∈ pendingOfAll cfg {} events, s.held? p.dest = some p.held := by
    intro p hp
    exact (held p.dest p.held).2 (.inr ⟨p, hp, rfl, rfl⟩)
  have written := writeAll?_writtenOnly pending fun _ => false
  rw [writtenOnly_none] at written
  refine written.trans (congrArg some (writtenOnly_all fun dest x hx => ?_))
  -- all that is held was pending
  rcases (held dest x).1 hx with hx | ⟨p, hp, rfl, -⟩
  · cases hx
  · rw [Bool.or_false]
    exact List.contains_iff_mem.2 (List.mem_map_of_mem hp)

end Assembly

/-- **EVERY VALUE GETS TO ITS PLACE.**  Whatever the events, what is pending of them can be
written, nothing out of range, and the classes come out.  A slot of them is written exactly once.
It holds the value that some event has for it, looked up by what is defined when the last event is
in, in its own class, and with the name of self only for attributes of self. -/
theorem Class.ofEvents_eq_written (cfg : Config) (events : List Event) :
    let s := (Assembly.takeAll cfg {} events).1
    let pending := Assembly.pendingOfAll cfg {} events
    ∃ written, Pending.writeAll? s.definitions pending
          (s.drafts.map (Class.map fun _ => .nothing)) = some written
      ∧ (Class.ofEvents cfg events).1 = Assembly.withoutReplaced written
      ∧ (pending.map Pending.dest).Nodup
      ∧ ∀ position c, written[position]? = some c → ∀ slot name value,
          c.held? slot = some (name, value)
            ↔ ∃ before e after p, events = before ++ e :: after
              ∧ p ∈ (Assembly.takeAll cfg {} before).1.pendingOf cfg e
              ∧ p.dest = ⟨position, slot⟩ ∧ p.name = name
              ∧ s.definitions.resolve ⟨some c.name, p.selfName⟩ p.text.classify.value = value := by
  intro s pending
  refine ⟨_, Assembly.writeAll?_pendingOfAll cfg events, rfl,
    Assembly.nodup_dest_pendingOfAll cfg {} events, ?_⟩
  intro position c hc slot name value
  rw [List.getElem?_map] at hc
  obtain ⟨draft, hdraft, rfl⟩ := Option.map_eq_some_iff.1 hc
  have held (x : Text × Deferred) : draft.held? slot = some x
      ↔ ∃ p ∈ pending, p.dest = ⟨position, slot⟩ ∧ p.held = x := by
    have run := Assembly.held?_takeAll cfg {} events ⟨position, slot⟩ x
    unfold Assembly.held? at run
    rw [hdraft] at run
    -- there are no drafts before the first event
    have nothing : ({} : Assembly).held? ⟨position, slot⟩ ≠ some x := by
      intro h
      cases h
    exact run.trans (or_iff_right nothing)
  rw [Assembly.held?_finishClass]
  constructor
  · rintro ⟨x, hx, hvalue⟩
    obtain ⟨p, hp, hdest, rfl⟩ := (held x).1 hx
    obtain ⟨before, e, after, hevents, hp⟩ := Assembly.mem_pendingOfAll_iff.1 hp
    obtain ⟨hname, hvalue⟩ := Prod.mk.inj hvalue
    exact ⟨before, e, after, p, hevents, hp, hdest, hname, hvalue⟩
  · rintro ⟨before, e, after, p, hevents, hp, hdest, rfl, rfl⟩
    have hpending := Assembly.mem_pendingOfAll_iff.2 ⟨before, e, after, hevents, hp⟩
    exact ⟨p.held, (held p.held).2 ⟨p, hpending, hdest, rfl⟩, rfl⟩

/-- A method that is left open when its class ends, and an attribute of self for which no method is
open any more. -/
example :
    (Assembly.pendingOfAll {} {} [.classStart ⟨['A'], [], none, 1⟩,
      .methodStart ⟨['f'],
        [⟨"self".toList, .regular, none, none⟩, ⟨['x'], .regular, none, some ['1']⟩],
        [], false, none, 2⟩,
      .selfAssignment ⟨['y'], none, ['x'], 3⟩, .classEnd ['A'],
      .selfAssignment ⟨['z'], none, ['x'], 4⟩]).map (fun p => (p.dest, p.selfName))
    = [(⟨0, .default 0 0⟩, none), (⟨0, .instanceAttribute 0⟩, some "self".toList)] := by
  decide +kernel

end ClassOutline
