/-
  ClassOutline.Proofs.Outline.Notes
  ────────────────────────────────
  **AN ASSEMBLY, READ OFF THE EVENTS IT TOOK.**

  What an assembly has open is what the events have open (`Assembly.Mirrors`),
  so what they define can be listed without it: `Event.notesFrom`.  Taking
  events is taking their notes (`Mirrors.definitions_takeAll`), and their drafts
  are put behind those that were there (`drafts_takeAll`).  Nothing else in an
  assembly counts when the last event is in, so two runs can be compared by
  their notes and drafts.
-/
import ClassOutline.Proofs.Event.Shaped
import ClassOutline.Proofs.Outline.Assembly
import ClassOutline.Proofs.Resolution.Notes

namespace ClassOutline

/-! ## §1. What events start and define. -/

/-- The name of self in a method, as an assembly sees it. -/
def MethodStart.selfName? (cfg : Config) (m : MethodStart) : Option Text :=
  if (m.shape cfg).dropsFirst then m.parameters.head?.map (·.name) else none

/-- **Reader and assembly agree on self.**  Where the header of a method names a self, this is its
first parameter, and an assembly drops it and knows it by this name. -/
theorem MethodStart.selfName?_of_selfNameOf? {cfg : Config} {m : MethodStart} {name : Text}
    (h : selfNameOf? cfg m.decorators m.parameters = some name) :
    m.selfName? cfg = some name ∧ ∃ p, m.parameters.head? = some p ∧ p.name = name := by
  unfold selfNameOf? at h
  split at h
  · cases h
  · next p hhead =>
    split at h
    · cases h
    · next hstatic =>
      split at h
      · next hself =>
        obtain rfl := Option.some.inj h
        have regular : (m.parameters.head?.any fun p => p.kind = .regular) = true := by
          rw [hhead]
          exact decide_eq_true hself.1
        have named : (m.parameters.head?.any fun p => cfg.isSelfName p.name) = true := by
          rw [hhead]
          exact hself.2
        -- a class method drops any first parameter, and any other method one of this name
        have dropped : (m.shape cfg).dropsFirst = true := by
          unfold MethodStart.shape
          dsimp only
          rw [if_neg hstatic, regular, named]
          split <;> rfl
        refine ⟨?_, p, hhead, rfl⟩
        unfold MethodStart.selfName?
        rw [if_pos dropped, hhead]
        rfl
      · cases h

namespace Event

/-- The name of the class that an event starts. -/
def className? : Event → Option Text
  | classStart c => some c.name
  | _ => none

/-- The names of the classes that events start, in order. -/
def startedNames (es : List Event) : List Text := es.filterMap className?

/-- The method that is innermost among the open starts. -/
def openMethod? (cfg : Config) (opened : List Event) : Option OpenMethod :=
  match opened.head? with
  | some (methodStart m) => some ⟨m.selfName? cfg⟩
  | _ => none

theorem openMethod?_eq_none (cfg : Config) {opened : List Event}
    (h : ∀ start ∈ opened, start.className?.isSome = true) : openMethod? cfg opened = none := by
  cases opened with
  | nil => rfl
  | cons start rest =>
      have hclass := h start List.mem_cons_self
      cases start with
      | classStart c => rfl
      | _ => exact absurd hclass Bool.false_ne_true

/-- What an event defines where some starts are open. -/
def notes (cfg : Config) (opened : List Event) : Event → List Note
  | classStart c => [.starts c.name]
  | classAssignment a =>
    match opened.findSome? className? with
    | some c =>
      [.binds (Definitions.classKey c a.name) ⟨a.value.classify.value, { className := some c }⟩]
    | none => []
  | selfAssignment a =>
    match opened.findSome? className?, openMethod? cfg opened with
    | some c, some ⟨some selfName⟩ =>
      [.binds (Definitions.selfKey c a.name) ⟨a.value.classify.value, ⟨some c, some selfName⟩⟩]
    | _, _ => []
  | moduleAssignment name value _ => [.binds name ⟨value.classify.value, {}⟩]
  | _ => []

/-- What events define one after the other. -/
def notesFrom (cfg : Config) : List Event → List Event → List Note
  | _, [] => []
  | opened, e :: es => e.notes cfg opened ++ notesFrom cfg (e.openedAfter opened) es

/-- The class that something belongs to is one of the open ones. -/
theorem exists_of_findSome?_className? {opened : List Event} {name : Text}
    (h : opened.findSome? className? = some name) : ∃ c, .classStart c ∈ opened ∧ c.name = name := by
  obtain ⟨start, hstart, hclass⟩ := List.exists_of_findSome?_eq_some h
  cases start with
  | classStart c => exact ⟨c, hstart, Option.some.inj hclass⟩
  | _ => exact absurd hclass (Option.some_ne_none name).symm

theorem startedNames_cons (e : Event) (es : List Event) :
    startedNames (e :: es) = e.className?.toList ++ startedNames es := by
  unfold startedNames
  rw [List.filterMap_cons]
  cases e.className? <;> rfl

theorem startedNames_append (es es' : List Event) :
    startedNames (es ++ es') = startedNames es ++ startedNames es' :=
  List.filterMap_append

/-- What follows, once nothing is open, is read by itself. -/
theorem notesFrom_append {cfg : Config} {opened es : List Event} (h : ShapedFrom cfg opened es)
    (es' : List Event) :
    notesFrom cfg opened (es ++ es') = notesFrom cfg opened es ++ notesFrom cfg [] es' := by
  induction es generalizing opened with
  | nil =>
      obtain rfl : opened = [] := h
      rfl
  | cons e es ih =>
      show e.notes cfg opened ++ notesFrom cfg _ (es ++ es') = (e.notes cfg opened ++ _) ++ _
      rw [ih h.2, List.append_assoc]

theorem starts_mem_notes_iff {cfg : Config} {opened : List Event} {e : Event} {name : Text} :
    .starts name ∈ e.notes cfg opened ↔ e.className? = some name := by
  have noName : (none : Option Text) ≠ some name := (Option.some_ne_none name).symm
  have noStart {key : Text} {b : Binding} (h : Note.starts name ∈ [Note.binds key b]) : False :=
    Note.noConfusion (List.mem_singleton.1 h)
  cases e with
  | classStart c =>
      show _ ∈ [Note.starts c.name] ↔ some c.name = some name
      rw [List.mem_singleton, Option.some.injEq, Note.starts.injEq]
      exact eq_comm
  | classAssignment a =>
      refine ⟨fun h => ?_, fun h => absurd h noName⟩
      rw [notes] at h
      split at h
      · exact (noStart h).elim
      · exact absurd h List.not_mem_nil
  | selfAssignment a =>
      refine ⟨fun h => ?_, fun h => absurd h noName⟩
      rw [notes] at h
      split at h
      · exact (noStart h).elim
      · exact absurd h List.not_mem_nil
  | moduleAssignment other value line =>
      exact ⟨fun h => (noStart h).elim, fun h => absurd h noName⟩
  | _ => exact ⟨fun h => absurd h List.not_mem_nil, fun h => absurd h noName⟩

/-- The notes of events have the classes start that the events start. -/
theorem starts_mem_notesFrom_iff {cfg : Config} {opened es : List Event} {name : Text} :
    .starts name ∈ notesFrom cfg opened es ↔ name ∈ startedNames es := by
  induction es generalizing opened with
  | nil => exact ⟨fun h => absurd h List.not_mem_nil, fun h => absurd h List.not_mem_nil⟩
  | cons e es ih =>
      rw [notesFrom, startedNames_cons, List.mem_append, List.mem_append, ih, starts_mem_notes_iff,
        Option.mem_toList]

end Event

namespace Assembly

variable {cfg : Config}

/-! ## §2. Drafts. -/

theorem takeAll_append (cfg : Config) (s : Assembly) (es es' : List Event) :
    (s.takeAll cfg (es ++ es')).1 = ((s.takeAll cfg es).1.takeAll cfg es').1 := by
  induction es generalizing s with
  | nil => rfl
  | cons e es ih => exact ih (s.take cfg e).1

/-- Only a class that starts adds a draft, and no draft changes its name. -/
theorem names_take (cfg : Config) (s : Assembly) (e : Event) :
    (s.take cfg e).1.drafts.map Class.name = s.drafts.map Class.name ++ e.className?.toList := by
  cases e with
  | classStart c => exact List.map_append
  | methodStart m =>
      show (s.startMethod cfg m).1.drafts.map Class.name = _ ++ []
      rw [List.append_nil]
      unfold startMethod
      split
      · rfl
      · exact names_modifyInnermost (by intro _; rfl) s
  | methodEnd name source =>
      show (s.endMethod source).drafts.map Class.name = _ ++ []
      rw [List.append_nil]
      unfold endMethod
      dsimp only
      split
      · rfl
      · exact names_modifyInnermost (by intro _; rfl) { s with method := none }
  | classAssignment a =>
      show (s.assignClass cfg a).1.drafts.map Class.name = _ ++ []
      rw [List.append_nil]
      unfold assignClass
      split
      · rfl
      · exact names_modifyInnermost (by intro _; rfl) { s with definitions := _ }
  | selfAssignment a =>
      show (s.assignSelf cfg a).1.drafts.map Class.name = _ ++ []
      rw [List.append_nil]
      unfold assignSelf
      split
      · exact names_modifyInnermost (by intro _; rfl) { s with definitions := _ }
      · rfl
  | docstring text line =>
      show (s.document text).drafts.map Class.name = _ ++ []
      rw [List.append_nil]
      exact names_modifyInnermost (by intro _; split <;> rfl) s
  | classEnd | moduleAssignment | decorator | ignored => exact (List.append_nil _).symm

theorem names_takeAll (cfg : Config) (s : Assembly) (es : List Event) :
    (s.takeAll cfg es).1.drafts.map Class.name
      = s.drafts.map Class.name ++ Event.startedNames es := by
  induction es generalizing s with
  | nil => exact (List.append_nil _).symm
  | cons e es ih =>
      refine (ih (s.take cfg e).1).trans ?_
      rw [names_take, List.append_assoc, Event.startedNames_cons]

/-- The positions of the open classes after an event, where there are so many drafts. -/
def openedBy (drafts : Nat) (opened : List Nat) : Event → List Nat
  | .classStart _ => drafts :: opened
  | .classEnd _ => opened.tail
  | _ => opened

theorem opened_take (cfg : Config) (s : Assembly) (e : Event) :
    (s.take cfg e).1.opened = openedBy s.drafts.length s.opened e := by
  cases e with
  | methodStart m =>
      show (s.startMethod cfg m).1.opened = s.opened
      unfold startMethod
      split
      · rfl
      · exact opened_modifyInnermost _ _
  | methodEnd name source =>
      show (s.endMethod source).opened = s.opened
      unfold endMethod
      dsimp only
      split
      · rfl
      · exact opened_modifyInnermost _ _
  | classAssignment a =>
      show (s.assignClass cfg a).1.opened = s.opened
      unfold assignClass
      split
      · rfl
      · exact opened_modifyInnermost _ _
  | selfAssignment a =>
      show (s.assignSelf cfg a).1.opened = s.opened
      unfold assignSelf
      split
      · exact opened_modifyInnermost _ _
      · rfl
  | docstring text line => exact opened_modifyInnermost _ _
  | classStart | classEnd | moduleAssignment | decorator | ignored => rfl

/-- The open method after an event, in a class or outside. -/
def methodBy (cfg : Config) (inClass : Bool) (method : Option OpenMethod) :
    Event → Option OpenMethod
  | .methodStart m => if inClass then some ⟨m.selfName? cfg⟩ else method
  | .classStart _ | .classEnd _ | .methodEnd .. => none
  | _ => method

theorem method_take (cfg : Config) (s : Assembly) (e : Event) :
    (s.take cfg e).1.method = methodBy cfg (!s.opened.isEmpty) s.method e := by
  cases e with
  | methodStart m =>
      show (s.startMethod cfg m).1.method = _
      unfold startMethod methodBy
      cases s.opened.isEmpty with
      | true => rfl
      | false => rfl
  | methodEnd name source =>
      show (s.endMethod source).method = none
      unfold endMethod
      dsimp only
      split
      · rfl
      · exact method_modifyInnermost _ _
  | classAssignment a =>
      show (s.assignClass cfg a).1.method = s.method
      unfold assignClass
      split
      · rfl
      · exact method_modifyInnermost _ _
  | selfAssignment a =>
      show (s.assignSelf cfg a).1.method = s.method
      unfold assignSelf
      split
      · exact method_modifyInnermost _ _
      · rfl
  | docstring text line => exact method_modifyInnermost _ _
  | classStart | classEnd | moduleAssignment | decorator | ignored => rfl

/-- The drafts of one assembly stand behind others in a second one; what is open is the same
in both. -/
structure Behind (base : List (Class Deferred)) (t s : Assembly) : Prop where
  drafts : s.drafts = base ++ t.drafts
  opened : s.opened = t.opened.map (base.length + ·)
  method : s.method = t.method

namespace Behind

variable {base : List (Class Deferred)} {t s : Assembly}

theorem innermost? (h : Behind base t s) : s.innermost? = t.innermost? := by
  unfold Assembly.innermost?
  rw [h.opened, h.drafts]
  cases t.opened with
  | nil => rfl
  | cons i outer =>
      show (base ++ t.drafts)[base.length + i]? = t.drafts[i]?
      rw [List.getElem?_append_right (Nat.le_add_right _ _), Nat.add_sub_cancel_left]

theorem modify_append_right {α : Type} (f : α → α) (xs ys : List α) (i : Nat) :
    (xs ++ ys).modify (xs.length + i) f = xs ++ ys.modify i f := by
  induction xs with
  | nil =>
      rw [List.nil_append, List.nil_append, List.length_nil, Nat.zero_add]
  | cons x xs ih =>
      rw [List.length_cons, Nat.add_right_comm]
      exact congrArg (x :: ·) ih

theorem modifyInnermost (h : Behind base t s) (f : Class Deferred → Class Deferred) :
    Behind base (t.modifyInnermost f) (s.modifyInnermost f) := by
  refine ⟨?_, ?_, ?_⟩
  · unfold Assembly.modifyInnermost
    rw [h.opened, h.drafts]
    cases t.opened with
    | nil => exact h.drafts
    | cons i outer => exact modify_append_right f base t.drafts i
  · rw [opened_modifyInnermost, opened_modifyInnermost, h.opened]
  · rw [method_modifyInnermost, method_modifyInnermost, h.method]

/-- What is defined does not matter. -/
theorem define (h : Behind base t s) (d d' : Definitions) :
    Behind base { t with definitions := d } { s with definitions := d' } :=
  ⟨h.drafts, h.opened, h.method⟩

theorem setMethod (h : Behind base t s) (method : Option OpenMethod) :
    Behind base { t with method } { s with method } :=
  ⟨h.drafts, h.opened, rfl⟩

/-- **An event does the same to drafts that stand behind others.** -/
theorem take (h : Behind base t s) (e : Event) :
    Behind base (t.take cfg e).1 (s.take cfg e).1 := by
  cases e with
  | classStart c =>
      refine ⟨?_, ?_, rfl⟩
      · show s.drafts ++ [_] = base ++ (t.drafts ++ [_])
        rw [h.drafts, List.append_assoc]
      · show s.drafts.length :: s.opened = (t.drafts.length :: t.opened).map _
        rw [h.drafts, h.opened, List.length_append, List.map_cons]
  | classEnd name =>
      refine ⟨h.drafts, ?_, rfl⟩
      show s.opened.tail = t.opened.tail.map _
      rw [h.opened, List.map_tail]
  | methodStart m =>
      show Behind base (t.startMethod cfg m).1 (s.startMethod cfg m).1
      unfold startMethod
      rw [h.opened, List.isEmpty_map]
      split
      · exact h
      · exact (h.modifyInnermost _).setMethod _
  | methodEnd name source =>
      show Behind base (t.endMethod source) (s.endMethod source)
      unfold endMethod
      rw [h.method]
      dsimp only
      split
      · exact h.setMethod none
      · exact (h.setMethod none).modifyInnermost _
  | classAssignment a =>
      show Behind base (t.assignClass cfg a).1 (s.assignClass cfg a).1
      unfold assignClass
      rw [h.innermost?]
      split
      · exact h
      · exact (h.define _ _).modifyInnermost _
  | selfAssignment a =>
      show Behind base (t.assignSelf cfg a).1 (s.assignSelf cfg a).1
      unfold assignSelf
      rw [h.innermost?, h.method]
      split
      · -- the two may bind different things, but add the same attribute
        refine Behind.modifyInnermost ?_ _
        exact ⟨h.drafts, h.opened, rfl⟩
      · exact h
  | moduleAssignment name value line => exact h.define _ _
  | docstring text line =>
      show Behind base (t.document text) (s.document text)
      unfold document
      rw [h.method]
      exact h.modifyInnermost _
  | decorator | ignored => exact h

theorem takeAll (h : Behind base t s) (es : List Event) :
    Behind base (t.takeAll cfg es).1 (s.takeAll cfg es).1 := by
  induction es generalizing t s with
  | nil => exact h
  | cons e es ih => exact ih (h.take e)

end Behind

/-- The drafts that events make by themselves. -/
def draftsOf (cfg : Config) (es : List Event) : List (Class Deferred) :=
  (takeAll cfg {} es).1.drafts

/-- **Where nothing is open, events add the drafts that they make by themselves.** -/
theorem drafts_takeAll {s : Assembly} (hopened : s.opened = []) (hmethod : s.method = none)
    (es : List Event) : (s.takeAll cfg es).1.drafts = s.drafts ++ draftsOf cfg es := by
  have behind : Behind s.drafts {} s := ⟨(List.append_nil _).symm, hopened, hmethod⟩
  exact (behind.takeAll es).drafts

/-! ## §3. Assemblies and open starts. -/

/-- An assembly has open what the events have open, and knows the classes that have started. -/
structure Mirrors (cfg : Config) (opened : List Event) (s : Assembly) : Prop where
  classes : s.opened.map (fun i => (s.drafts.map Class.name)[i]?)
    = (opened.filterMap Event.className?).map some
  method : s.method = Event.openMethod? cfg opened
  /-- Only the innermost start may be that of a method. -/
  outer : ∀ start ∈ opened.tail, start.className?.isSome = true
  started : ∀ name, s.definitions.HasStarted name ↔ name ∈ s.drafts.map Class.name

theorem mirrors_empty (cfg : Config) : ({} : Assembly).Mirrors cfg [] :=
  ⟨rfl, rfl, fun _ h => absurd h List.not_mem_nil,
   fun name => ⟨fun h => absurd h (Option.some_ne_none name).symm, fun h => absurd h List.not_mem_nil⟩⟩

namespace Mirrors

variable {opened : List Event} {s : Assembly}

theorem innermost?_name (h : s.Mirrors cfg opened) :
    s.innermost?.map Class.name = opened.findSome? Event.className? := by
  have heads := congrArg List.head? h.classes
  rw [List.head?_map, List.head?_map, List.head?_filterMap] at heads
  unfold innermost?
  cases hopened : s.opened with
  | nil =>
      rw [hopened] at heads
      cases hinner : opened.findSome? Event.className? with
      | none => rfl
      | some name => rw [hinner] at heads; cases heads
  | cons i outer =>
      rw [hopened] at heads
      cases hinner : opened.findSome? Event.className? with
      | none => rw [hinner] at heads; cases heads
      | some name =>
          rw [hinner] at heads
          show s.drafts[i]?.map Class.name = some name
          rw [← List.getElem?_map]
          exact Option.some.inj heads

theorem opened_eq_nil (h : s.Mirrors cfg []) : s.opened = [] := List.map_eq_nil_iff.1 h.classes

theorem valid (h : s.Mirrors cfg opened) : ∀ i ∈ s.opened, i < s.drafts.length := by
  intro i hi
  have hmem : (s.drafts.map Class.name)[i]? ∈ (opened.filterMap Event.className?).map some :=
    h.classes ▸ List.mem_map_of_mem hi
  obtain ⟨name, -, hname⟩ := List.mem_map.1 hmem
  have hlt := (List.getElem?_eq_some_iff.1 hname.symm).1
  rwa [List.length_map] at hlt

/-- **One event defines what its notes say.** -/
theorem definitions_take (h : s.Mirrors cfg opened) (e : Event) :
    (s.take cfg e).1.definitions = s.definitions.noteAll (e.notes cfg opened) := by
  have inner := h.innermost?_name
  cases e with
  | classStart c =>
      -- an assembly asks its drafts whether the class starts again, a note the definitions
      have started : (findLast? (fun d => d.name = c.name) s.drafts).isSome = true
          ↔ s.definitions.HasStarted c.name :=
        isSome_findLast?_iff.trans (h.started c.name).symm
      show Definitions.addClass (if _ then _ else _) c.name = Definitions.addClass (if _ then _ else _) c.name
      simp only [started]
  | classAssignment a =>
      show (s.assignClass cfg a).1.definitions = _
      unfold assignClass
      rw [Event.notes, ← inner]
      cases s.innermost? with
      | none => rfl
      | some c => exact definitions_modifyInnermost _ _
  | selfAssignment a =>
      show (s.assignSelf cfg a).1.definitions = _
      unfold assignSelf
      rw [Event.notes, ← inner, ← h.method]
      cases s.innermost? with
      | none => rfl
      | some c =>
          cases s.method with
          | none => rfl
          | some method =>
              obtain ⟨selfName⟩ := method
              cases selfName with
              | none => exact definitions_modifyInnermost _ _
              | some name => exact definitions_modifyInnermost _ _
  | methodStart m =>
      show (s.startMethod cfg m).1.definitions = s.definitions
      unfold startMethod
      split
      · rfl
      · exact definitions_modifyInnermost _ _
  | methodEnd name source =>
      show (s.endMethod source).definitions = s.definitions
      unfold endMethod
      dsimp only
      split
      · rfl
      · exact definitions_modifyInnermost _ _
  | docstring text line => exact definitions_modifyInnermost _ _
  | classEnd | moduleAssignment | decorator | ignored => rfl

/-- In a class, all open starts are those of classes. -/
theorem className?_isSome (h : s.Mirrors cfg opened)
    (hhead : opened.head? = none ∨ ∃ c, opened.head? = some (.classStart c)) :
    ∀ start ∈ opened, start.className?.isSome = true := by
  intro start hstart
  have inner := h.outer
  cases opened with
  | nil => exact absurd hstart List.not_mem_nil
  | cons first rest =>
      rcases List.mem_cons.1 hstart with rfl | hstart
      · rcases hhead with hnone | ⟨c, hc⟩
        · cases hnone
        · obtain rfl := Option.some.inj hc
          rfl
      · exact inner start hstart

/-- **An assembly mirrors the open starts after each event that fits.** -/
theorem take (h : s.Mirrors cfg opened) {e : Event} (fits : e.FitsIn cfg opened.head?) :
    (s.take cfg e).1.Mirrors cfg (e.openedAfter opened) := by
  have names := names_take cfg s e
  have positions := opened_take cfg s e
  have method := method_take cfg s e
  have started (name : Text) : (s.take cfg e).1.definitions.HasStarted name
      ↔ name ∈ (s.take cfg e).1.drafts.map Class.name := by
    rw [h.definitions_take, Definitions.hasStarted_noteAll, h.started, names, List.mem_append,
      Event.starts_mem_notes_iff, Option.mem_toList]
  cases e with
  | classStart c =>
      refine ⟨?_, method, h.className?_isSome ?_, started⟩
      · -- the new position is that of the new draft, the others find what they found before
        have earlier : s.opened.map (fun i => (s.drafts.map Class.name ++ [c.name])[i]?)
            = s.opened.map fun i => (s.drafts.map Class.name)[i]? := by
          refine List.map_congr_left fun i hi => List.getElem?_append_left ?_
          rw [List.length_map]
          exact h.valid i hi
        rw [names]
        show (s.drafts.length :: s.opened).map (fun i => (s.drafts.map Class.name ++ [c.name])[i]?)
          = some c.name :: (opened.filterMap Event.className?).map some
        rw [List.map_cons, earlier, h.classes, ← List.length_map Class.name,
          List.getElem?_concat_length]
      · rcases fits with ⟨hnone, -⟩ | ⟨outer, -, hsome, -⟩
        · exact .inl hnone
        · exact .inr ⟨outer, hsome⟩
  | classEnd name =>
      obtain ⟨c, hc, -⟩ := fits
      obtain ⟨rest, rfl⟩ := List.head?_eq_some_iff.1 hc
      -- no method is open around a class
      have noMethod := Event.openMethod?_eq_none cfg h.outer
      refine ⟨?_, method.trans noMethod.symm, fun start hs => h.outer start (List.mem_of_mem_tail hs),
        started⟩
      show s.opened.tail.map _ = _
      rw [List.map_tail]
      exact congrArg List.tail h.classes
  | methodStart m =>
      obtain ⟨outer, houter⟩ := fits
      have hclasses := h.className?_isSome (.inr ⟨outer, houter⟩)
      obtain ⟨rest, rfl⟩ := List.head?_eq_some_iff.1 houter
      have hopen : s.opened.isEmpty = false := by
        cases hs : s.opened with
        | nil =>
            have heq := h.classes
            rw [hs] at heq
            cases heq
        | cons i others => rfl
      rw [hopen] at method
      refine ⟨?_, method, hclasses, started⟩
      rw [positions, names.trans (List.append_nil _)]
      exact h.classes
  | methodEnd name source =>
      obtain ⟨m, hm, -⟩ := fits
      obtain ⟨rest, rfl⟩ := List.head?_eq_some_iff.1 hm
      have noMethod := Event.openMethod?_eq_none cfg h.outer
      refine ⟨?_, method.trans noMethod.symm, fun start hs => h.outer start (List.mem_of_mem_tail hs),
        started⟩
      rw [positions, names.trans (List.append_nil _)]
      exact h.classes
  | classAssignment | selfAssignment | docstring | moduleAssignment | decorator | ignored =>
      -- nothing is opened or closed
      refine ⟨?_, method.trans h.method, h.outer, started⟩
      rw [positions, names.trans (List.append_nil _)]
      exact h.classes

/-- An assembly mirrors what the first part of a shaped stream leaves open. -/
theorem takeAll_append (h : s.Mirrors cfg opened) {es es' : List Event}
    (hes : ShapedFrom cfg opened (es ++ es')) :
    (s.takeAll cfg es).1.Mirrors cfg (Event.openedAfterAll opened es) := by
  induction es generalizing s opened with
  | nil => exact h
  | cons e es ih => exact ih (h.take hes.1) hes.2

/-- Behind all of a shaped run nothing is open. -/
theorem takeAll (h : s.Mirrors cfg opened) {es : List Event} (hes : ShapedFrom cfg opened es) :
    (s.takeAll cfg es).1.Mirrors cfg [] := by
  induction es generalizing s opened with
  | nil =>
      obtain rfl : opened = [] := hes
      exact h
  | cons e es ih => exact ih (h.take hes.1) hes.2

/-- **A RUN DEFINES WHAT ITS NOTES SAY.** -/
theorem definitions_takeAll (h : s.Mirrors cfg opened) {es : List Event}
    (hes : ShapedFrom cfg opened es) :
    (s.takeAll cfg es).1.definitions = s.definitions.noteAll (Event.notesFrom cfg opened es) := by
  induction es generalizing s opened with
  | nil => rfl
  | cons e es ih =>
      rw [Event.notesFrom, Definitions.noteAll_append, ← h.definitions_take]
      exact ih (h.take hes.1) hes.2

end Mirrors

/-! ## §4. The classes that are kept of a run. -/

/-- The classes that events make and that later ones do not replace, given all definitions. -/
def keptClasses (cfg : Config) (d : Definitions) (es later : List Event) : List (Class Value) :=
  (withoutReplaced ((draftsOf cfg es).map (finishClass d))).filter fun c =>
    !(Event.startedNames later).contains c.name

variable {es es' later : List Event} {d : Definitions}

theorem draftsOf_append (h : Shaped cfg es) (es' : List Event) :
    draftsOf cfg (es ++ es') = draftsOf cfg es ++ draftsOf cfg es' := by
  have mirrors := (mirrors_empty cfg).takeAll h
  show (takeAll cfg {} (es ++ es')).1.drafts = _
  rw [takeAll_append]
  exact drafts_takeAll mirrors.opened_eq_nil mirrors.method es'

theorem names_draftsOf (cfg : Config) (d : Definitions) (es : List Event) :
    ((draftsOf cfg es).map (finishClass d)).map Class.name = Event.startedNames es := by
  rw [List.map_map]
  exact names_takeAll cfg {} es

theorem mem_keptClasses {c : Class Value} (h : c ∈ keptClasses cfg d es later) :
    c.name ∈ Event.startedNames es ∧ c.name ∉ Event.startedNames later := by
  obtain ⟨hmem, hlater⟩ := List.mem_filter.1 h
  refine ⟨?_, by simpa using hlater⟩
  rw [← names_draftsOf cfg d es]
  exact List.mem_map_of_mem (mem_of_mem_withoutReplaced hmem)

/-- Definitions that agree make the same classes. -/
theorem keptClasses_eq_of_agree {d' : Definitions} (h : Definitions.Agree d d')
    (es later : List Event) : keptClasses cfg d es later = keptClasses cfg d' es later := by
  have same : finishClass d = finishClass d' :=
    funext fun c => congrArg (c.map ·) (funext fun held => h.resolve _ _)
  unfold keptClasses
  rw [same]

/-- Only classes that the events start count among the later ones. -/
theorem keptClasses_congr
    (h : ∀ name ∈ Event.startedNames es,
      name ∈ Event.startedNames later ↔ name ∈ Event.startedNames es') :
    keptClasses cfg d es later = keptClasses cfg d es es' := by
  refine List.filter_congr fun c hc => ?_
  have hname : c.name ∈ Event.startedNames es := by
    rw [← names_draftsOf cfg d es]
    exact List.mem_map_of_mem (mem_of_mem_withoutReplaced hc)
  rw [Bool.eq_iff_iff]
  simpa using not_congr (h c.name hname)

theorem keptClasses_append (h : Shaped cfg es) (es' later : List Event) :
    keptClasses cfg d (es ++ es') later
      = keptClasses cfg d es (es' ++ later) ++ keptClasses cfg d es' later := by
  unfold keptClasses
  rw [draftsOf_append h, List.map_append, withoutReplaced_append, names_draftsOf,
    List.filter_append, List.filter_filter]
  refine congrArg (· ++ _) (List.filter_congr fun c _ => ?_)
  rw [Event.startedNames_append, Bool.eq_iff_iff]
  simp [and_comm]

end Assembly

/-- **The classes of a shaped stream** are those that are kept of it, given what its notes
define. -/
theorem Class.ofEvents_eq_keptClasses {cfg : Config} {es : List Event} (h : Shaped cfg es) :
    (Class.ofEvents cfg es).1
      = Assembly.keptClasses cfg (({} : Definitions).noteAll (Event.notesFrom cfg [] es)) es [] := by
  rw [← (Assembly.mirrors_empty cfg).definitions_takeAll h]
  exact (List.filter_eq_self.2 fun _ _ => rfl).symm

/-! ## §5. The notes of a block. -/

namespace Event

open Text (IsWithin isBelow_append_cons_self)

variable {cfg : Config} {top : Text} {opened : List Event}

/-- What is defined inside a class of the module concerns this class. -/
theorem notes_within (h : ∀ c, .classStart c ∈ opened → IsWithin top c.name) (hne : opened ≠ [])
    {e : Event} (fits : e.FitsIn cfg opened.head?) : ∀ n ∈ e.notes cfg opened, n.IsWithin top := by
  intro n hn
  cases e with
  | classStart c =>
      obtain rfl := List.mem_singleton.1 hn
      rcases fits with ⟨hnone, -⟩ | ⟨outer, name, houter, -, heq⟩
      · exact absurd (List.head?_eq_none_iff.1 hnone) hne
      · have within := h outer (List.mem_of_head? houter)
        refine .inr (within.below ?_)
        rw [heq]
        exact isBelow_append_cons_self outer.name name
  | classAssignment a =>
      rw [notes] at hn
      split at hn
      · next name hname =>
        obtain rfl := List.mem_singleton.1 hn
        obtain ⟨c, hc, rfl⟩ := exists_of_findSome?_className? hname
        exact (h c hc).below (isBelow_append_cons_self c.name a.name)
      · exact absurd hn List.not_mem_nil
  | selfAssignment a =>
      rw [notes] at hn
      split at hn
      · next name selfName hname _ =>
        obtain rfl := List.mem_singleton.1 hn
        obtain ⟨c, hc, rfl⟩ := exists_of_findSome?_className? hname
        have below : Text.IsBelow c.name (Definitions.selfKey c.name a.name) := by
          rw [Definitions.selfKey_eq]
          exact (isBelow_append_cons_self c.name _).append _
        exact (h c hc).below below
      · exact absurd hn List.not_mem_nil
  | moduleAssignment name value line => exact absurd (List.head?_eq_none_iff.1 fits.1) hne
  | _ => exact absurd hn List.not_mem_nil

/-- A class that opens inside a class of the module is in it. -/
theorem openedAfter_within (h : ∀ c, .classStart c ∈ opened → IsWithin top c.name)
    (hne : opened ≠ []) {e : Event} (fits : e.FitsIn cfg opened.head?) :
    ∀ c, .classStart c ∈ e.openedAfter opened → IsWithin top c.name := by
  intro c hc
  cases e with
  | classStart start =>
      rcases List.mem_cons.1 hc with heq | hc
      · obtain rfl := Event.classStart.inj heq
        exact notes_within h hne fits (.starts c.name) List.mem_cons_self
      · exact h c hc
  | methodStart m => exact h c ((List.mem_cons.1 hc).resolve_left Event.noConfusion)
  | classEnd | methodEnd => exact h c (List.mem_of_mem_tail hc)
  | _ => exact h c hc

end Event

/-- **WHAT A BLOCK DEFINES CONCERNS ITS CLASS** and what is in it. -/
theorem ClassBlock.notes_within {cfg : Config} {name : Text} {es : List Event}
    (h : ClassBlock cfg name es) : ∀ n ∈ Event.notesFrom cfg [] es, n.IsWithin name := by
  -- by induction on what is left of the block, all of it read with some class open
  have inside : ∀ {rest opened : List Event},
      (∀ c, .classStart c ∈ opened → Text.IsWithin name c.name) → ShapedFrom cfg opened rest →
      StaysOpen opened rest → ∀ n ∈ Event.notesFrom cfg opened rest, n.IsWithin name := by
    intro rest
    induction rest with
    | nil => exact fun _ _ _ n hn => absurd hn List.not_mem_nil
    | cons e rest ih =>
        intro opened hopened hshape hstays n hn
        rcases List.mem_append.1 hn with hn | hn
        · exact Event.notes_within hopened hstays.1 hshape.1 n hn
        · exact ih (Event.openedAfter_within hopened hstays.1 hshape.1) hshape.2 hstays.2 n hn
  obtain ⟨c, rest, rfl, rfl, hstays⟩ := h.block
  intro n hn
  rcases List.mem_append.1 hn with hn | hn
  · obtain rfl := List.mem_singleton.1 hn
    exact .inl rfl
  · refine inside ?_ h.shaped.2 hstays n hn
    intro c' hc'
    obtain rfl := Event.classStart.inj (List.mem_singleton.1 hc')
    exact .inl rfl

end ClassOutline
