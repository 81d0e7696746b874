/-
  ClassOutline.Proofs.Outline.SelfName
  ────────────────────────────────
  **READER AND ASSEMBLY AGREE ON SELF.**

  Which parameter is self is decided twice: by the reader, to tell attributes of
  self from other targets, and by the assembly, to drop the parameter and to
  bind the attributes.  The rules are different, but where the reader finds a
  self the assembly finds the same one (`MethodStart.selfName?_of_selfNameOf?`).

  So when an attribute of self is assigned, the class and the method around it
  are open in the assembly, the method has the name of self that stood in front
  of the dot, and the attribute is added and bound (`SelfKnown`).  None is
  dropped, and instances have no attributes but these.
-/
import ClassOutline.Outline.OfSource
import ClassOutline.Proofs.Event.Turn
import ClassOutline.Proofs.Outline.Pending

namespace ClassOutline

variable {cfg : Config}

/-! ## §1. Methods stand in classes. -/

/-- Open starts as they may stand in one another: classes only, or a method in a class. -/
inductive Event.Stacked : List Event → Prop where
  | classes {opened : List Event} (h : ∀ start ∈ opened, start.className?.isSome = true) :
      Stacked opened
  | inMethod {m : MethodStart} {k : ClassStart} {others : List Event}
      (h : ∀ start ∈ others, start.className?.isSome = true) :
      Stacked (.methodStart m :: .classStart k :: others)

namespace Event.Stacked

variable {opened : List Event}

theorem empty : Stacked [] := .classes fun _ h => absurd h List.not_mem_nil

/-- In a class, and outside of all, only classes are open. -/
theorem isClass (h : Stacked opened) (hhead : ∀ m, opened.head? ≠ some (.methodStart m)) :
    ∀ start ∈ opened, start.className?.isSome = true := by
  cases h with
  | classes h => exact h
  | @inMethod m k others h => exact absurd rfl (hhead m)

/-- In a method there is a class around it. -/
theorem exists_class {m : MethodStart} (h : Stacked opened)
    (hhead : opened.head? = some (.methodStart m)) :
    ∃ k others, opened = .methodStart m :: .classStart k :: others := by
  obtain ⟨rest, rfl⟩ := List.head?_eq_some_iff.1 hhead
  cases h with
  | classes h => exact absurd (h _ List.mem_cons_self) Bool.false_ne_true
  | @inMethod _ k others _ => exact ⟨k, others, rfl⟩

/-- **Each event that fits keeps methods in classes.** -/
theorem openedAfter (h : Stacked opened) {e : Event} (fits : e.FitsIn cfg opened.head?) :
    Stacked (e.openedAfter opened) := by
  cases e with
  | classStart c =>
      -- no class starts in a method
      have outside : ∀ m, opened.head? ≠ some (.methodStart m) := by
        intro m hm
        rcases fits with ⟨hnone, -⟩ | ⟨outer, -, houter, -⟩
        · exact absurd (hm.symm.trans hnone) (Option.some_ne_none _)
        · exact Event.noConfusion (Option.some.inj (hm.symm.trans houter))
      refine .classes fun start hstart => ?_
      rcases List.mem_cons.1 hstart with rfl | hstart
      · rfl
      · exact h.isClass outside start hstart
  | methodStart m =>
      obtain ⟨k, hk⟩ := fits
      obtain ⟨others, rfl⟩ := List.head?_eq_some_iff.1 hk
      have classes := h.isClass fun m hm => Event.noConfusion (Option.some.inj hm)
      exact .inMethod fun start hstart => classes start (List.mem_cons_of_mem _ hstart)
  | classEnd name =>
      obtain ⟨k, hk, -⟩ := fits
      have classes := h.isClass fun m hm => Event.noConfusion (Option.some.inj (hm.symm.trans hk))
      exact .classes fun start hstart => classes start (List.mem_of_mem_tail hstart)
  | methodEnd name source =>
      obtain ⟨m, hm, -⟩ := fits
      cases h with
      | classes h => exact .classes fun start hstart => h start (List.mem_of_mem_tail hstart)
      | @inMethod _ k others h =>
          -- the class that the method stands in is left
          refine .classes fun start hstart => ?_
          rcases List.mem_cons.1 hstart with rfl | hstart
          · rfl
          · exact h start hstart
  | classAssignment | selfAssignment | moduleAssignment | decorator | docstring | ignored => exact h

/-- The first part of a shaped stream does. -/
theorem openedAfterAll (h : Stacked opened) {es es' : List Event}
    (hes : ShapedFrom cfg opened (es ++ es')) : Stacked (openedAfterAll opened es) := by
  induction es generalizing opened with
  | nil => exact h
  | cons e es ih => exact ih (h.openedAfter hes.1) hes.2

end Event.Stacked

/-! ## §2. The assembly when an attribute of self is assigned. -/

namespace Assembly

variable {s : Assembly} {c : Class Deferred} {selfName : Text}

theorem innermost?_modifyInnermost (hinner : s.innermost? = some c)
    (f : Class Deferred → Class Deferred) : (s.modifyInnermost f).innermost? = some (f c) := by
  obtain ⟨position, outer, hopened, hc⟩ := exists_of_innermost? hinner
  unfold modifyInnermost innermost?
  simp only [hopened, List.head?_cons, Option.bind_some]
  rw [List.getElem?_modify, hc]
  show some (if position = position then f c else c) = some (f c)
  rw [if_pos rfl]

/-- An attribute of self is added to the innermost class, and bound. -/
theorem take_selfAssignment (hinner : s.innermost? = some c)
    (hmethod : s.method = some ⟨some selfName⟩) (a : AttributeAssignment) :
    (s.take cfg (.selfAssignment a)).1.innermost?
        = some { c with instanceAttributes :=
            c.instanceAttributes ++ [a.draft cfg ⟨a.value.classify.value, some selfName⟩] }
      ∧ (s.take cfg (.selfAssignment a)).1.definitions
        = s.definitions.bindSelf c.name selfName a.name a.value.classify.value := by
  show (s.assignSelf cfg a).1.innermost? = _ ∧ (s.assignSelf cfg a).1.definitions = _
  unfold assignSelf
  rw [hinner, hmethod]
  dsimp only
  constructor
  · apply innermost?_modifyInnermost
    exact hinner
  · exact definitions_modifyInnermost _ _

theorem get?_bindSelf (d : Definitions) (className selfName name : Text) (value : Initializer) :
    (d.bindSelf className selfName name value).bindings.get? (Definitions.selfKey className name)
      = some ⟨value, ⟨some className, some selfName⟩⟩ := by
  unfold Definitions.bindSelf
  rw [Table.get?_set, if_pos rfl]

/-- Behind some events, an attribute of self is assigned in a method of a class whose first
parameter is self, and the assembly knows all three. -/
structure SelfKnown (cfg : Config) (before : List Event) (a : AttributeAssignment) (k : ClassStart)
    (m : MethodStart) (p : WrittenParameter) : Prop where
  /-- The innermost start that is open is that of the method, in the class. -/
  opened : ∃ others, Event.openedAfterAll [] before = .methodStart m :: .classStart k :: others
  first : m.parameters.head? = some p
  /-- The method is open, and its self has the name of the parameter. -/
  method : (takeAll cfg {} before).1.method = some ⟨some p.name⟩
  /-- The class is open, and it is given the attribute. -/
  added : ∃ c, (takeAll cfg {} before).1.innermost? = some c ∧ c.name = k.name
    ∧ ((takeAll cfg {} before).1.take cfg (.selfAssignment a)).1.innermost?
      = some { c with instanceAttributes :=
          c.instanceAttributes ++ [a.draft cfg ⟨a.value.classify.value, some p.name⟩] }
  /-- The attribute is bound. -/
  bound : ((takeAll cfg {} before).1.take cfg (.selfAssignment a)).1.definitions.bindings.get?
      (Definitions.selfKey k.name a.name)
    = some ⟨a.value.classify.value, ⟨some k.name, some p.name⟩⟩

/-- **In a shaped stream self is known** wherever one of its attributes is assigned. -/
theorem exists_selfKnown {before after : List Event} {a : AttributeAssignment}
    (shaped : Shaped cfg (before ++ .selfAssignment a :: after)) :
    ∃ k m p, SelfKnown cfg before a k m p
      ∧ selfNameOf? cfg m.decorators m.parameters = some p.name := by
  have mirrors := (mirrors_empty cfg).takeAll_append shaped
  have stacked := Event.Stacked.empty.openedAfterAll shaped
  obtain ⟨m, hhead, -, hself, -⟩ := shaped.after.1
  obtain ⟨k, others, hopened⟩ := stacked.exists_class hhead
  obtain ⟨selfName, hselfName⟩ := Option.isSome_iff_exists.1 hself
  obtain ⟨hassembly, p, hp, rfl⟩ := MethodStart.selfName?_of_selfNameOf? hselfName
  have method : (takeAll cfg {} before).1.method = some ⟨some p.name⟩ := by
    rw [mirrors.method, Event.openMethod?, hhead]
    exact congrArg (fun name => some (OpenMethod.mk name)) hassembly
  -- the class around the method is the innermost one
  have inner : (takeAll cfg {} before).1.innermost?.map Class.name = some k.name := by
    rw [mirrors.innermost?_name, hopened]
    rfl
  obtain ⟨c, hc, hname⟩ := Option.map_eq_some_iff.1 inner
  obtain ⟨added, bound⟩ := take_selfAssignment hc method a
  refine ⟨k, m, p, ⟨⟨others, hopened⟩, hp, method, ⟨c, hc, hname, added⟩, ?_⟩, hselfName⟩
  rw [bound, ← hname]
  exact get?_bindSelf _ _ _ _ _

/-! ## §3. Where attributes of instances come from. -/

/-- What is pending for an attribute of an instance is pending of an assignment to self, in the
class that is innermost then. -/
theorem exists_of_mem_pendingOf {e : Event} {p : Pending} {i : Nat} (h : p ∈ s.pendingOf cfg e)
    (hslot : p.dest.slot = .instanceAttribute i) :
    ∃ a c, e = .selfAssignment a ∧ p.name = a.name ∧ s.innermost? = some c
      ∧ s.drafts[p.dest.position]? = some c := by
  cases hinner : s.innermost? with
  | none =>
      rw [pendingOf_of_none hinner] at h
      exact absurd h List.not_mem_nil
  | some c =>
      obtain ⟨position, outer, hopened, hc⟩ := exists_of_innermost? hinner
      rw [pendingOf_of_some hopened hc] at h
      have here : s.drafts[p.dest.position]? = some c := by
        rw [position_of_mem_pendingIn h]
        exact hc
      cases e with
      | selfAssignment a =>
          revert h
          cases s.method with
          | none => exact fun h => absurd h List.not_mem_nil
          | some method =>
              intro h
              obtain rfl := List.mem_singleton.1 h
              exact ⟨a, c, rfl, rfl, rfl, here⟩
      | classAssignment a =>
          -- the other two have slots of other kinds
          obtain rfl := List.mem_singleton.1 h
          cases hslot
      | methodStart m =>
          obtain ⟨⟨w, j⟩, -, hp⟩ := List.mem_filterMap.1 h
          obtain ⟨text, -, rfl⟩ := Option.map_eq_some_iff.1 hp
          cases hslot
      | _ => exact absurd h List.not_mem_nil

/-- A draft has the name of the class that was there before. -/
theorem name_of_getElem?_takeAll {es : List Event} {position : Nat} {d : Class Deferred}
    (hc : s.drafts[position]? = some c) (hd : (s.takeAll cfg es).1.drafts[position]? = some d) :
    d.name = c.name := by
  have names := congrArg (·[position]?) (names_takeAll cfg s es)
  have hlt : position < (s.drafts.map Class.name).length := by
    rw [List.length_map]
    exact (List.getElem?_eq_some_iff.1 hc).1
  rw [List.getElem?_map, hd, List.getElem?_append_left hlt, List.getElem?_map, hc] at names
  exact Option.some.inj names

/-- **EACH ATTRIBUTE OF AN INSTANCE WAS ASSIGNED TO SELF** in its class. -/
theorem exists_selfAssignment {es : List Event} {d : Class Deferred} {given : Attribute Deferred}
    (hd : d ∈ (takeAll cfg {} es).1.drafts) (hgiven : given ∈ d.instanceAttributes) :
    ∃ before a after c, es = before ++ .selfAssignment a :: after ∧ a.name = given.name
      ∧ (takeAll cfg {} before).1.innermost? = some c ∧ c.name = d.name := by
  obtain ⟨position, hd⟩ := List.mem_iff_getElem?.1 hd
  obtain ⟨i, hi⟩ := List.mem_iff_getElem?.1 hgiven
  have held : (takeAll cfg {} es).1.held? ⟨position, .instanceAttribute i⟩ = some given.held := by
    unfold held?
    rw [hd]
    exact congrArg (Option.map Attribute.held) hi
  rcases (held?_takeAll cfg {} es _ _).1 held with hempty | ⟨p, hp, hdest, hheld⟩
  · cases hempty
  · obtain ⟨before, e, after, rfl, hevent⟩ := mem_pendingOfAll_iff.1 hp
    obtain ⟨a, c, rfl, hname, hinner, hc⟩ :=
      exists_of_mem_pendingOf hevent (congrArg Destination.slot hdest)
    rw [hdest] at hc
    rw [takeAll_append] at hd
    exact ⟨before, a, after, c, rfl, hname.symm.trans (congrArg Prod.fst hheld), hinner,
      (name_of_getElem?_takeAll hc hd).symm⟩

end Assembly

/-! ## §4. Sources. -/

/-- What is assigned to `self.name` in a source, read backwards from its event. -/
theorem Scope.assign_eq_selfAssignment {scope : Scope} {line : Nat} {value : Text} {target : Target}
    {a : AttributeAssignment} (h : scope.assign line value target = .selfAssignment a) :
    ∃ root attr, target.name.cutAt? '.' = some (root, attr)
      ∧ scope = .methodBody true (some root.trim)
      ∧ a = ⟨attr.trim, target.annotation, value, line⟩ := by
  unfold Scope.assign at h
  split at h
  · split at h <;> cases h
  · split at h <;> cases h
  · next selfName =>
    split at h
    · next name hself =>
      obtain rfl := Event.selfAssignment.inj h
      unfold selfAttribute? at hself
      split at hself
      · cases hself
      · next root attr hcut =>
        split at hself
        · next hroot =>
          obtain rfl := Option.some.inj hself
          exact ⟨root, attr, hcut, congrArg _ hroot.1.symm, rfl⟩
        · cases hself
    · cases h
  · cases h
  · cases h

/-- **READER AND ASSEMBLY AGREE ON SELF.**  When the assembly takes an attribute of self, some line
of the source assigns to a target whose root is the first parameter of the method that is open; this
is the self that the assembly knows, and the attribute is added to the class around and bound.  And
the instances of the finished classes have no other attributes. -/
theorem Event.selfKnown_ofLines (cfg : Config) (lines : List LogicalLine) :
    let events := (Event.ofLines cfg lines).events
    (∀ before a after, events = before ++ .selfAssignment a :: after →
      ∃ k m p, Assembly.SelfKnown cfg before a k m p
        ∧ ∃ context target root attr,
          Context.AssignsBehind cfg {} lines before context a.line a.value target
            ∧ target.name.cutAt? '.' = some (root, attr)
            ∧ root.trim = p.name ∧ attr.trim = a.name)
      ∧ ∀ c ∈ (Class.ofEvents cfg events).1, ∀ given ∈ c.instanceAttributes,
        ∃ before a after k m p, events = before ++ .selfAssignment a :: after
          ∧ Assembly.SelfKnown cfg before a k m p ∧ k.name = c.name ∧ a.name = given.name := by
  intro events
  have shaped : Shaped cfg events := Event.ofLines_shaped cfg lines
  refine ⟨fun before a after hevents => ?_, fun c hc given hgiven => ?_⟩
  · rw [hevents] at shaped
    obtain ⟨k, m, p, known, hself⟩ := Assembly.exists_selfKnown shaped
    obtain ⟨context, line, value, target, assigns, hassign⟩ := Event.exists_assignsBehind hevents
    obtain ⟨root, attr, hcut, hscope, rfl⟩ := Scope.assign_eq_selfAssignment hassign
    refine ⟨k, m, p, known, context, target, root, attr, assigns, hcut, ?_, rfl⟩
    -- the frames of the reader are those of the starts that are open
    obtain ⟨d, moves, hd⟩ := assigns.moves
    have shown : d.scope.ShownBy cfg (openedAfterAll [] before).head? :=
      (moves.framesOpenedBy .nil).scope_shownBy
    obtain ⟨others, hopened⟩ := known.opened
    rw [hd, hscope, hopened] at shown
    obtain ⟨m', hm', -, hroot⟩ := shown
    obtain rfl := Event.methodStart.inj (Option.some.inj hm')
    exact Option.some.inj (hroot.trans hself)
  · have hmem := Assembly.mem_of_mem_withoutReplaced hc
    obtain ⟨draft, hdraft, rfl⟩ := List.mem_map.1 hmem
    obtain ⟨written, hwritten, rfl⟩ := List.mem_map.1 hgiven
    obtain ⟨before, a, after, inner, hevents, hname, hinner, hsame⟩ :=
      Assembly.exists_selfAssignment hdraft hwritten
    have hsplit : events = before ++ .selfAssignment a :: after := hevents
    rw [hsplit] at shaped
    obtain ⟨k, m, p, known, -⟩ := Assembly.exists_selfKnown shaped
    refine ⟨before, a, after, k, m, p, hsplit, known, ?_, hname⟩
    obtain ⟨c, hc, hk, -⟩ := known.added
    obtain rfl := Option.some.inj (hc.symm.trans hinner)
    exact hk.symm.trans hsame

/-- In a constructor an attribute of self is assigned, and self is known there. -/
theorem Event.selfKnown_of_constructor :
    let source := "class C:\n def __init__(this):\n  a = this.x = 1".toList
    let cfg : Config := { selfNames := ["this".toList] }
    ∃ before a after, (Event.ofLines cfg (LogicalLine.scan cfg source).lines).events
        = before ++ .selfAssignment a :: after
      ∧ ∃ k m p, Assembly.SelfKnown cfg before a k m p := by
  intro source cfg
  have found : .selfAssignment ⟨['x'], none, ['1'], 3⟩
      ∈ (Event.ofLines cfg (LogicalLine.scan cfg source).lines).events := by decide +kernel
  obtain ⟨before, after, hevents⟩ := List.append_of_mem found
  obtain ⟨k, m, p, known, -⟩ := (Event.selfKnown_ofLines cfg _).1 before _ after hevents
  exact ⟨before, _, after, hevents, k, m, p, known⟩

/-- What is assigned to the second parameter is no attribute, whatever its name. -/
example :
    let source := "class C:\n def __init__(self, cls):\n  self.x = cls.y = D()".toList
    let s := (Assembly.takeAll {} {} (Event.ofLines {} (LogicalLine.scan {} source).lines).events).1
    s.drafts.map (fun c => c.instanceAttributes.map Attribute.name) = [[['x']]]
      ∧ (s.definitions.bindings.get? (Definitions.selfKey ['C'] ['x'])).map Binding.place
        = some ⟨some ['C'], some "self".toList⟩ := by
  decide +kernel

end ClassOutline
