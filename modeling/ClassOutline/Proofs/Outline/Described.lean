/-
  ClassOutline.Proofs.Outline.Described
  ────────────────────────────────
  **THE CLASSES OF AN OUTLINE ARE THOSE THE EVENTS DESCRIBE.**

  `describedClasses` reads the classes off the events, without any state: a
  class for each start whose name is not started again, its members the events
  whose innermost class block is that one (`ownEvents`), its doc and those of
  its methods from what follows directly (`docOr`), the source of a method from
  the end that matches its start (`sourceAfter`).

  The assembly keeps a stack of open classes and one open method instead.  The
  two agree on nested events: what is assembled so far, completed by what the
  events to come say about the open blocks (`Assembly.foreseen`), does not
  change when an event is taken (`Assembly.foreseen_take`).
-/
import ClassOutline.Proofs.Event.Nested
import ClassOutline.Proofs.Outline.Assembly

namespace ClassOutline

/-! ## §1. What events say about classes. -/

/-- The events whose innermost class block is the one that has just begun, each with what
follows it; inside that one `inner` class blocks are open. -/
def ownEvents (inner : Nat) : List Event → List (Event × List Event)
  | [] => []
  | e :: es =>
    match e with
    | .classStart _ => ownEvents (inner + 1) es
    | .classEnd _ => if inner = 0 then [] else ownEvents (inner - 1) es
    | _ => if inner = 0 then (e, es) :: ownEvents inner es else ownEvents inner es

/-- The event that ends the block that has just begun; inside it `inner` blocks are open. -/
def matchingEnd? (inner : Nat) : List Event → Option Event
  | [] => none
  | e :: es =>
    match e.starts?, e.ends? with
    | some _, _ => matchingEnd? (inner + 1) es
    | none, some _ => if inner = 0 then some e else matchingEnd? (inner - 1) es
    | none, none => matchingEnd? inner es

/-- The source of a method, given what follows its start. -/
def sourceAfter (es : List Event) : Text :=
  match matchingEnd? 0 es with
  | some (.methodEnd _ source) => source
  | _ => []

/-- The docstring that follows directly, or else the comment. -/
def docOr (comment : Option Text) : List Event → Option Text
  | .docstring text _ :: _ => some text
  | _ => comment

/-- The attribute that an assignment describes, its value left out. -/
def AttributeAssignment.described (cfg : Config) (a : AttributeAssignment) : Attribute Unit :=
  { name := a.name, value := (), annotation := a.annotation, visibility := cfg.visibility a.name,
    line := a.line }

/-- The parameter that is written, the value of its default left out. -/
def WrittenParameter.described (p : WrittenParameter) : Parameter Unit :=
  { name := p.name, kind := p.kind, annotation := p.annotation, default := p.default.map fun _ => () }

/-- The method that a start describes, given what follows it. -/
def MethodStart.described (cfg : Config) (m : MethodStart) (after : List Event) : Method Unit :=
  { name := m.name
    parameters :=
      (m.parameters.drop (if (m.shape cfg).dropsFirst then 1 else 0)).map
        WrittenParameter.described
    visibility := cfg.visibility m.name
    decorators := m.decorators
    isStatic := (m.shape cfg).isStatic
    isClassMethod := (m.shape cfg).isClassMethod
    isConstructor := m.name == cfg.constructorName
    doc := docOr m.comment after
    source := sourceAfter after
    line := m.line }

/-- The class attribute that an event of a class describes. -/
def classAttributeOf? (cfg : Config) : Event × List Event → Option (Attribute Unit)
  | (.classAssignment a, _) => some (a.described cfg)
  | _ => none

/-- The instance attribute that an event of a class describes. -/
def instanceAttributeOf? (cfg : Config) : Event × List Event → Option (Attribute Unit)
  | (.selfAssignment a, _) => some (a.described cfg)
  | _ => none

/-- The method that an event of a class describes. -/
def methodOf? (cfg : Config) : Event × List Event → Option (Method Unit)
  | (.methodStart m, after) => some (m.described cfg after)
  | _ => none

/-- The class that a start describes, given what follows it. -/
def ClassStart.described (cfg : Config) (c : ClassStart) (after : List Event) : Class Unit :=
  { name := c.name
    bases := c.bases
    classAttributes := (ownEvents 0 after).filterMap (classAttributeOf? cfg)
    instanceAttributes := (ownEvents 0 after).filterMap (instanceAttributeOf? cfg)
    methods := (ownEvents 0 after).filterMap (methodOf? cfg)
    doc := docOr c.comment after
    line := c.line }

/-- The event starts a class of that name. -/
def Event.startsClass (name : Text) : Event → Bool
  | classStart c => c.name = name
  | _ => false

/-- A class for each start whose name is not started again, in the order of the starts. -/
def describedClasses (cfg : Config) : List Event → List (Class Unit)
  | [] => []
  | e :: es =>
    match e with
    | .classStart c =>
      if es.any (Event.startsClass c.name) then describedClasses cfg es
      else c.described cfg es :: describedClasses cfg es
    | _ => describedClasses cfg es

/-- A class with what its members hold left out. -/
def Class.shape {α : Type} (c : Class α) : Class Unit := c.map fun _ => ()

theorem Class.name_shape {α : Type} (c : Class α) : c.shape.name = c.name := rfl

/-! ## §2. What the events to come say about the open blocks. -/

/-- A class with the members that more of its events describe. -/
def Class.extend (cfg : Config) (own : List (Event × List Event)) (c : Class Unit) : Class Unit :=
  { c with
    classAttributes := c.classAttributes ++ own.filterMap (classAttributeOf? cfg)
    instanceAttributes := c.instanceAttributes ++ own.filterMap (instanceAttributeOf? cfg)
    methods := c.methods ++ own.filterMap (methodOf? cfg) }

/-- The innermost open class with the docs that follow directly; in a method, with the source
that its end will bring. -/
def Class.settle (inMethod : Bool) (es : List Event) (c : Class Unit) : Class Unit :=
  if inMethod then
    { c with methods :=
        modifyLast (fun m => { m with doc := docOr m.doc es, source := sourceAfter es }) c.methods }
  else { c with doc := docOr c.doc es }

/-- The open classes, the innermost first, each with more of its events. -/
def Assembly.fillOpen (cfg : Config) (own : Nat → List (Event × List Event)) :
    List Nat → List (Class Unit) → List (Class Unit)
  | [], cs => cs
  | position :: outer, cs =>
    fillOpen cfg (fun k => own (k + 1)) outer (cs.modify position (Class.extend cfg (own 0)))

/-- All classes that events start. -/
def startedClasses (cfg : Config) : List Event → List (Class Unit)
  | [] => []
  | e :: es =>
    match e with
    | .classStart c => c.described cfg es :: startedClasses cfg es
    | _ => startedClasses cfg es

namespace Assembly

/-- The classes so far. -/
def view (s : Assembly) : List (Class Unit) := s.drafts.map Class.shape

/-- The classes so far, completed by what the events to come say about the open ones. -/
def foreseen (cfg : Config) (s : Assembly) (es : List Event) : List (Class Unit) :=
  match s.opened with
  | [] => s.view
  | position :: outer =>
    fillOpen cfg (fun k => ownEvents (k + 1) es) outer
      (s.view.modify position fun c =>
        (c.settle s.method.isSome es).extend cfg (ownEvents 0 es))

end Assembly

/-! ## §3. Docs and sources that are already known. -/

/-- Directly after an event that starts no block there is no docstring. -/
theorem docOr_of_nestedFrom {cfg : Config} {opened : List Block} {e : Event} {es : List Event}
    (h : NestedFrom cfg opened (some e) es) (he : e.starts? = none) (comment : Option Text) :
    docOr comment es = comment := by
  cases es with
  | nil => rfl
  | cons e' es =>
      cases e' with
      | docstring text line =>
          obtain ⟨start, b, hstart, hb⟩ := h.1
          obtain rfl := Option.some.inj hstart
          rw [he] at hb
          contradiction
      | _ => rfl

namespace Class

/-- Changing the last method and forgetting what members hold. -/
theorem shape_modifyLast {f : Method Deferred → Method Deferred}
    {f' : Method Unit → Method Unit}
    (h : ∀ m, (f m).map (fun _ => ()) = f' (m.map fun _ => ())) (c : Class Deferred) :
    { c with methods := modifyLast f c.methods }.shape
      = { c.shape with methods := modifyLast f' c.shape.methods } := by
  unfold shape Class.map
  dsimp only
  rw [map_modifyLast h]

/-- Outside methods nothing is left to settle where no docstring follows. -/
theorem settle_of_docOr {es : List Event} (h : ∀ comment, docOr comment es = comment)
    (c : Class Unit) : c.settle false es = c := by
  show { c with doc := docOr c.doc es } = c
  rw [h]

/-- In a method an event that is no docstring and no end settles nothing. -/
theorem settle_method_congr {es es' : List Event} (hdoc : ∀ comment, docOr comment es = docOr comment es')
    (hsource : sourceAfter es = sourceAfter es') (c : Class Unit) :
    c.settle true es = c.settle true es' := by
  show { c with methods := _ } = { c with methods := _ }
  rw [hsource]
  simp only [hdoc]

theorem extend_nil (cfg : Config) (c : Class Unit) : c.extend cfg [] = c := by
  unfold extend
  simp only [List.filterMap_nil, List.append_nil]

theorem extend_cons (cfg : Config) (x : Event × List Event) (own : List (Event × List Event))
    (c : Class Unit) : c.extend cfg (x :: own) = (c.extend cfg [x]).extend cfg own := by
  have split {α : Type} (f : Event × List Event → Option α) (xs : List α) :
      xs ++ (x :: own).filterMap f = (xs ++ [x].filterMap f) ++ own.filterMap f := by
    rw [List.append_assoc, ← List.filterMap_append]
    rfl
  unfold extend
  simp only [split]

theorem extend_classAssignment (cfg : Config) (a : AttributeAssignment) (es : List Event)
    (c : Class Unit) : c.extend cfg [(.classAssignment a, es)]
      = { c with classAttributes := c.classAttributes ++ [a.described cfg] } := by
  simp [extend, classAttributeOf?, instanceAttributeOf?, methodOf?]

theorem extend_selfAssignment (cfg : Config) (a : AttributeAssignment) (es : List Event)
    (c : Class Unit) : c.extend cfg [(.selfAssignment a, es)]
      = { c with instanceAttributes := c.instanceAttributes ++ [a.described cfg] } := by
  simp [extend, classAttributeOf?, instanceAttributeOf?, methodOf?]

theorem extend_methodStart (cfg : Config) (m : MethodStart) (es : List Event) (c : Class Unit) :
    c.extend cfg [(.methodStart m, es)]
      = { c with methods := c.methods ++ [m.described cfg es] } := by
  simp [extend, classAttributeOf?, instanceAttributeOf?, methodOf?]

/-- An event that describes no member. -/
theorem extend_pass (cfg : Config) {e : Event} {es : List Event}
    (hclass : classAttributeOf? cfg (e, es) = none)
    (hinstance : instanceAttributeOf? cfg (e, es) = none) (hmethod : methodOf? cfg (e, es) = none)
    (c : Class Unit) : c.extend cfg [(e, es)] = c := by
  simp [extend, hclass, hinstance, hmethod]

end Class

/-! ## §4. The stack of open classes follows the open blocks. -/

/-- The open classes and the open method of an assembly are the open blocks.  Classes stand in
classes, and a method is always the innermost block. -/
inductive Assembly.Follows (s : Assembly) : List Block → Prop where
  | classes (names : List Text) (positions : s.opened.length = names.length)
      (noMethod : s.method = none) (valid : ∀ i ∈ s.opened, i < s.drafts.length) :
      Follows s (names.map .classBlock)
  | method (name outer : Text) (names : List Text)
      (positions : s.opened.length = (outer :: names).length)
      (inMethod : s.method.isSome = true) (valid : ∀ i ∈ s.opened, i < s.drafts.length) :
      Follows s (.methodBlock name :: (outer :: names).map .classBlock)

namespace Assembly

/-- Classes that are not open stay as they are. -/
theorem fillOpen_append (cfg : Config) (own : Nat → List (Event × List Event))
    {opened : List Nat} {cs : List (Class Unit)} (h : ∀ i ∈ opened, i < cs.length)
    (later : List (Class Unit)) :
    fillOpen cfg own opened (cs ++ later) = fillOpen cfg own opened cs ++ later := by
  induction opened generalizing own cs with
  | nil => rfl
  | cons position outer ih =>
      rw [fillOpen, fillOpen, modify_append_left _ (h position List.mem_cons_self)]
      apply ih
      intro i hi
      rw [List.length_modify]
      exact h i (List.mem_cons_of_mem _ hi)

theorem length_view (s : Assembly) : s.view.length = s.drafts.length := List.length_map _

theorem view_modifyInnermost {f : Class Deferred → Class Deferred} {f' : Class Unit → Class Unit}
    (h : ∀ c, (f c).shape = f' c.shape) {s : Assembly} {position : Nat} {outer : List Nat}
    (hs : s.opened = position :: outer) :
    (s.modifyInnermost f).view = s.view.modify position f' := by
  unfold modifyInnermost view
  rw [hs]
  exact map_modify h position s.drafts

end Assembly

/-! ## §5. What an event adds to a class. -/

theorem WrittenParameter.shape_draft (p : WrittenParameter) :
    p.draft.value.map (fun _ => ()) = p.described := by
  unfold WrittenParameter.draft WrittenParameter.described Parameter.map
  cases p.default with
  | none => rfl
  | some text => rfl

/-- A method as it is drafted at its start. -/
theorem MethodStart.shape_draft (cfg : Config) (m : MethodStart) (es : List Event) :
    { (m.draft cfg).value.map (fun _ => ()) with doc := docOr m.comment es, source := sourceAfter es }
      = m.described cfg es := by
  have parameters (ps : List WrittenParameter) :
      (Reported.all (ps.map WrittenParameter.draft)).value.map (Parameter.map fun _ => ())
        = ps.map WrittenParameter.described := by
    show ((ps.map _).map _).map _ = _
    rw [List.map_map, List.map_map]
    exact List.map_congr_left fun p _ => p.shape_draft
  unfold MethodStart.draft MethodStart.described Method.map Reported.map
  dsimp only
  rw [parameters]

/-! ## §6. Each event brings what was foreseen. -/

namespace Assembly

variable {cfg : Config} {s s' : Assembly} {e : Event} {es : List Event} {opened : List Block}

/-- Outside methods only members are foreseen. -/
theorem foreseen_eq_fillOpen (hs : s.method = none) (hdoc : ∀ comment, docOr comment es = comment) :
    s.foreseen cfg es = fillOpen cfg (fun k => ownEvents k es) s.opened s.view := by
  unfold foreseen
  rw [hs]
  cases s.opened with
  | nil => rfl
  | cons position outer =>
      rw [fillOpen]
      simp only [Option.isSome_none, Class.settle_of_docOr hdoc]

/-- An event of the innermost class that changes this class alone. -/
theorem foreseen_of_modify {position : Nat} {outer : List Nat} (f : Class Unit → Class Unit)
    (hs : s.opened = position :: outer) (hs' : s'.opened = position :: outer)
    (hview : s'.view = s.view.modify position f)
    (hown : ∀ inner, ownEvents inner (e :: es)
      = if inner = 0 then (e, es) :: ownEvents inner es else ownEvents inner es)
    (hf : ∀ c, (f c).settle s'.method.isSome es
      = (c.settle s.method.isSome (e :: es)).extend cfg [(e, es)]) :
    s'.foreseen cfg es = s.foreseen cfg (e :: es) := by
  have outside : (fun k => ownEvents (k + 1) (e :: es)) = fun k => ownEvents (k + 1) es := by
    funext k
    rw [hown, if_neg (Nat.succ_ne_zero k)]
  unfold foreseen
  rw [hs, hs']
  show fillOpen cfg _ outer _ = fillOpen cfg _ outer _
  rw [outside, hview, List.modify_modify_eq]
  congr 2
  funext c
  show ((f c).settle _ es).extend cfg (ownEvents 0 es) = Class.extend cfg (ownEvents 0 (e :: es)) _
  rw [hf, hown, if_pos rfl, Class.extend_cons cfg (e, es) (ownEvents 0 es)]

/-- A class that starts has no members yet, and its own events will bring them. -/
theorem foreseen_startClass (c : ClassStart) (hs : s.method = none)
    (valid : ∀ i ∈ s.opened, i < s.drafts.length) :
    (s.startClass c).1.foreseen cfg es
      = s.foreseen cfg (.classStart c :: es) ++ [c.described cfg es] := by
  have hview : (s.startClass c).1.view
      = s.view ++ [⟨c.name, c.bases, [], [], [], c.comment, c.line⟩] := List.map_append
  rw [foreseen_eq_fillOpen hs fun _ => rfl]
  show fillOpen cfg _ s.opened ((s.startClass c).1.view.modify s.drafts.length _) = _
  rw [hview, ← length_view, modify_append_length]
  exact fillOpen_append cfg _ (fun i hi => by rw [length_view]; exact valid i hi) _

/-- A class that ends has all its members. -/
theorem foreseen_endClass {name : Text} {position : Nat} {outer : List Nat}
    (hs : s.method = none) (hopened : s.opened = position :: outer)
    (hdoc : ∀ comment, docOr comment es = comment) :
    s.endClass.foreseen cfg es = s.foreseen cfg (.classEnd name :: es) := by
  rw [foreseen_eq_fillOpen hs fun _ => rfl, foreseen_eq_fillOpen rfl hdoc]
  show fillOpen cfg _ s.opened.tail s.view = _
  rw [hopened, fillOpen]
  show _ = fillOpen cfg _ outer (s.view.modify position (Class.extend cfg []))
  rw [show Class.extend cfg [] = id from funext (Class.extend_nil cfg), List.modify_id]
  rfl

/-- A method that starts is the last one of its class; docs and source are to come. -/
theorem foreseen_startMethod (m : MethodStart) {position : Nat} {outer : List Nat}
    (hs : s.method = none) (hopened : s.opened = position :: outer) :
    (s.startMethod cfg m).1.foreseen cfg es = s.foreseen cfg (.methodStart m :: es) := by
  have hne : s.opened.isEmpty ≠ true := by simp [hopened]
  unfold startMethod
  rw [if_neg hne]
  refine foreseen_of_modify
    (fun c => { c with methods := c.methods ++ [(m.draft cfg).value.map fun _ => ()] })
    hopened ?_ ?_ (fun _ => rfl) ?_
  · exact (opened_modifyInnermost _ s).trans hopened
  · exact view_modifyInnermost (fun c => by simp [Class.shape, Class.map]) hopened
  · intro c
    rw [hs, Class.extend_methodStart]
    show { c with methods := modifyLast _ (c.methods ++ [_]) }
      = { c with methods := c.methods ++ [m.described cfg es] }
    rw [modifyLast_append_singleton]
    exact congrArg (fun d => { c with methods := c.methods ++ [d] }) (m.shape_draft cfg es)

/-- A method that ends has its source, and no docstring is to come. -/
theorem foreseen_endMethod {name source : Text} {position : Nat} {outer : List Nat}
    (hs : s.method.isSome = true) (hopened : s.opened = position :: outer)
    (hdoc : ∀ comment, docOr comment es = comment) :
    (s.endMethod source).foreseen cfg es = s.foreseen cfg (.methodEnd name source :: es) := by
  obtain ⟨m, hm⟩ := Option.isSome_iff_exists.1 hs
  have hsome : s.method.isNone ≠ true := by simp [hm]
  unfold endMethod
  rw [if_neg hsome]
  refine foreseen_of_modify
    (fun c => { c with methods := modifyLast (fun m => { m with source }) c.methods })
    hopened ?_ ?_ (fun _ => rfl) ?_
  · exact (opened_modifyInnermost _ { s with method := none }).trans hopened
  · exact view_modifyInnermost (s := { s with method := none })
      (Class.shape_modifyLast fun _ => rfl) hopened
  · intro c
    rw [hs, Class.extend_pass cfg rfl rfl rfl, method_modifyInnermost]
    exact Class.settle_of_docOr hdoc _

/-- A class attribute is the next one of the innermost class. -/
theorem foreseen_assignClass (a : AttributeAssignment) {position : Nat} {outer : List Nat}
    (hs : s.method = none) (hopened : s.opened = position :: outer)
    (valid : ∀ i ∈ s.opened, i < s.drafts.length) (hdoc : ∀ comment, docOr comment es = comment) :
    (s.assignClass cfg a).1.foreseen cfg es = s.foreseen cfg (.classAssignment a :: es) := by
  obtain ⟨c, hc⟩ := innermost?_eq_some hopened valid
  unfold assignClass
  rw [hc]
  refine foreseen_of_modify
    (fun c => { c with classAttributes := c.classAttributes ++ [a.described cfg] })
    hopened ?_ ?_ (fun _ => rfl) ?_
  · exact (opened_modifyInnermost _ { s with definitions := _ }).trans hopened
  · refine view_modifyInnermost (s := { s with definitions := _ }) (fun c => ?_) hopened
    unfold Class.shape Class.map
    rw [List.map_append]
    rfl
  · intro c
    rw [hs, Class.extend_classAssignment, method_modifyInnermost]
    exact Class.settle_of_docOr hdoc _

/-- An instance attribute is the next one of the innermost class; its method stays open. -/
theorem foreseen_assignSelf (a : AttributeAssignment) {position : Nat} {outer : List Nat}
    (hs : s.method.isSome = true) (hopened : s.opened = position :: outer)
    (valid : ∀ i ∈ s.opened, i < s.drafts.length) (hdoc : ∀ comment, docOr comment es = comment) :
    (s.assignSelf cfg a).1.foreseen cfg es = s.foreseen cfg (.selfAssignment a :: es) := by
  obtain ⟨c, hc⟩ := innermost?_eq_some hopened valid
  obtain ⟨m, hm⟩ := Option.isSome_iff_exists.1 hs
  unfold assignSelf
  rw [hc, hm]
  dsimp only
  refine foreseen_of_modify
    (fun c => { c with instanceAttributes := c.instanceAttributes ++ [a.described cfg] })
    hopened ?_ ?_ (fun _ => rfl) ?_
  · exact (opened_modifyInnermost _ { s with method := some m, definitions := _ }).trans hopened
  · refine view_modifyInnermost (s := { s with method := some m, definitions := _ }) (fun c => ?_)
      hopened
    unfold Class.shape Class.map
    rw [List.map_append]
    rfl
  · intro c
    rw [hm, Class.extend_selfAssignment, method_modifyInnermost]
    have sameDoc (comment : Option Text) :
        docOr comment es = docOr comment (.selfAssignment a :: es) := hdoc comment
    rw [show Option.isSome _ = true from rfl, Class.settle_method_congr sameDoc rfl]
    rfl

/-- A docstring is what was foreseen for the block that started last. -/
theorem foreseen_document (text : Text) (line : Nat) (hdoc : ∀ comment, docOr comment es = comment) :
    (s.document text).foreseen cfg es = s.foreseen cfg (.docstring text line :: es) := by
  cases hopened : s.opened with
  | nil =>
      unfold foreseen document modifyInnermost
      rw [hopened]
      simp only [hopened]
  | cons position outer =>
      unfold document
      refine foreseen_of_modify
        (fun c => if s.method.isSome then
            { c with methods := modifyLast (fun m => { m with doc := some text }) c.methods }
          else { c with doc := some text })
        hopened ?_ ?_ (fun _ => rfl) ?_
      · exact (opened_modifyInnermost _ s).trans hopened
      · refine view_modifyInnermost (fun c => ?_) hopened
        split
        · exact Class.shape_modifyLast (fun _ => rfl) c
        · rfl
      · intro c
        rw [Class.extend_pass cfg rfl rfl rfl, method_modifyInnermost]
        cases s.method with
        | none => exact Class.settle_of_docOr hdoc _
        | some m =>
            show { c with methods := modifyLast _ (modifyLast _ c.methods) }
              = { c with methods := modifyLast _ c.methods }
            rw [modifyLast_modifyLast]
            simp only [hdoc]
            rfl

/-- An event that says nothing about classes. -/
theorem foreseen_pass (hdoc : ∀ comment, docOr comment es = comment)
    (hnext : ∀ comment, docOr comment (e :: es) = comment)
    (hsource : sourceAfter (e :: es) = sourceAfter es)
    (hown : ∀ inner, ownEvents inner (e :: es)
      = if inner = 0 then (e, es) :: ownEvents inner es else ownEvents inner es)
    (hclass : classAttributeOf? cfg (e, es) = none)
    (hinstance : instanceAttributeOf? cfg (e, es) = none) (hmethod : methodOf? cfg (e, es) = none) :
    s.foreseen cfg es = s.foreseen cfg (e :: es) := by
  cases hopened : s.opened with
  | nil =>
      unfold foreseen
      rw [hopened]
  | cons position outer =>
      refine foreseen_of_modify id hopened hopened (List.modify_id _ _).symm hown (fun c => ?_)
      rw [Class.extend_pass cfg hclass hinstance hmethod]
      cases s.method with
      | none => exact (Class.settle_of_docOr hdoc c).trans (Class.settle_of_docOr hnext c).symm
      | some m =>
          exact Class.settle_method_congr (fun comment => (hdoc comment).trans (hnext comment).symm)
            hsource.symm c

/-- What keeps the stack, the method and the number of drafts keeps following. -/
theorem Follows.congr (h : s.Follows opened) (hopened : s'.opened = s.opened)
    (hmethod : s'.method = s.method) (hlen : s'.drafts.length = s.drafts.length) :
    s'.Follows opened := by
  cases h with
  | classes names positions noMethod valid =>
      rw [← hopened] at positions valid
      rw [← hlen] at valid
      exact .classes names positions (hmethod.trans noMethod) valid
  | method name outer names positions inMethod valid =>
      rw [← hopened] at positions valid
      rw [← hlen] at valid
      exact .method name outer names positions (hmethod ▸ inMethod) valid

theorem Follows.opened_eq_nil (h : s.Follows opened) (hnil : opened = []) : s.opened = [] := by
  cases h with
  | classes names positions =>
      rw [List.map_eq_nil_iff.1 hnil] at positions
      exact List.length_eq_zero_iff.1 positions
  | method => contradiction

/-- The stack where the innermost block is a class. -/
theorem Follows.inClass {outer : Text} (h : s.Follows opened)
    (hhead : opened.head? = some (.classBlock outer)) :
    ∃ names position later, opened = (outer :: names).map .classBlock
      ∧ s.opened = position :: later ∧ later.length = names.length ∧ s.method = none
      ∧ ∀ i ∈ s.opened, i < s.drafts.length := by
  cases h with
  | classes names positions noMethod valid =>
      cases names with
      | nil => contradiction
      | cons name names =>
          obtain ⟨position, later, hs⟩ := List.exists_cons_of_length_eq_add_one positions
          obtain rfl : name = outer := by simpa using hhead
          refine ⟨names, position, later, rfl, hs, ?_, noMethod, valid⟩
          rw [hs] at positions
          exact Nat.succ.inj positions
  | method => simp at hhead

/-- The stack where the innermost block is a method. -/
theorem Follows.inMethod {name : Text} (h : s.Follows opened)
    (hhead : opened.head? = some (.methodBlock name)) :
    ∃ outer names position later, opened = .methodBlock name :: (outer :: names).map .classBlock
      ∧ s.opened = position :: later ∧ later.length = names.length ∧ s.method.isSome = true
      ∧ ∀ i ∈ s.opened, i < s.drafts.length := by
  cases h with
  | classes names =>
      cases names with
      | nil => contradiction
      | cons name names => simp at hhead
  | method name' outer names positions inMethod valid =>
      obtain ⟨position, later, hs⟩ := List.exists_cons_of_length_eq_add_one positions
      obtain rfl : name' = name := by simpa using hhead
      refine ⟨outer, names, position, later, rfl, hs, ?_, inMethod, valid⟩
      rw [hs] at positions
      exact Nat.succ.inj positions

/-- A class that starts is the innermost one, and its draft is the last. -/
theorem Follows.startClass {names : List Text} (positions : s.opened.length = names.length)
    (valid : ∀ i ∈ s.opened, i < s.drafts.length) (c : ClassStart) :
    (s.startClass c).1.Follows ((c.name :: names).map .classBlock) := by
  refine .classes (c.name :: names) (congrArg Nat.succ positions) rfl ?_
  intro i hi
  show i < (s.drafts ++ [_]).length
  rw [List.length_append]
  rcases List.mem_cons.1 hi with rfl | hi
  · exact Nat.lt_succ_self _
  · exact Nat.lt_succ_of_lt (valid i hi)

theorem Follows.endClass {names : List Text} {position : Nat} {later : List Nat}
    (hopened : s.opened = position :: later) (positions : later.length = names.length)
    (valid : ∀ i ∈ s.opened, i < s.drafts.length) :
    s.endClass.Follows (names.map .classBlock) := by
  refine .classes names ?_ rfl ?_
  · show s.opened.tail.length = _
    rw [hopened]
    exact positions
  · intro i hi
    exact valid i (List.mem_of_mem_tail hi)

theorem Follows.startMethod {outer : Text} {names : List Text} {position : Nat} {later : List Nat}
    (hopened : s.opened = position :: later) (positions : later.length = names.length)
    (valid : ∀ i ∈ s.opened, i < s.drafts.length) (m : MethodStart) :
    (s.startMethod cfg m).1.Follows (.methodBlock m.name :: (outer :: names).map .classBlock) := by
  have hne : s.opened.isEmpty ≠ true := by simp [hopened]
  unfold Assembly.startMethod
  rw [if_neg hne]
  refine .method m.name outer names ?_ rfl ?_
  · rw [opened_modifyInnermost, hopened]
    exact congrArg Nat.succ positions
  · rw [opened_modifyInnermost, length_drafts_modifyInnermost]
    exact valid

theorem Follows.endMethod {outer : Text} {names : List Text} {position : Nat} {later : List Nat}
    (hopened : s.opened = position :: later) (positions : later.length = names.length)
    (inMethod : s.method.isSome = true) (valid : ∀ i ∈ s.opened, i < s.drafts.length)
    (source : Text) : (s.endMethod source).Follows ((outer :: names).map .classBlock) := by
  obtain ⟨m, hm⟩ := Option.isSome_iff_exists.1 inMethod
  have hsome : s.method.isNone ≠ true := by simp [hm]
  unfold Assembly.endMethod
  rw [if_neg hsome]
  refine .classes (outer :: names) ?_ ?_ ?_
  · rw [opened_modifyInnermost, hopened]
    exact congrArg Nat.succ positions
  · rw [method_modifyInnermost]
  · rw [opened_modifyInnermost, length_drafts_modifyInnermost]
    exact valid

/-- What changes the innermost class alone changes no stack. -/
theorem Follows.modifyInnermost (h : s.Follows opened) (f : Class Deferred → Class Deferred) :
    (s.modifyInnermost f).Follows opened :=
  h.congr (opened_modifyInnermost f s) (method_modifyInnermost f s)
    (length_drafts_modifyInnermost f s)

theorem Follows.assignClass (h : s.Follows opened) (a : AttributeAssignment) :
    (s.assignClass cfg a).1.Follows opened := by
  unfold Assembly.assignClass
  split
  · exact h
  · have bound (d : Definitions) : ({ s with definitions := d } : Assembly).Follows opened :=
      h.congr rfl rfl rfl
    exact (bound _).modifyInnermost _

theorem Follows.assignSelf (h : s.Follows opened) (a : AttributeAssignment) :
    (s.assignSelf cfg a).1.Follows opened := by
  unfold Assembly.assignSelf
  split
  · have bound (d : Definitions) : ({ s with definitions := d } : Assembly).Follows opened :=
      h.congr rfl rfl rfl
    exact (bound _).modifyInnermost _
  · exact h

/-- **An event brings what was foreseen**, and the assembly still follows the open blocks. -/
theorem foreseen_take {previous : Option Event} (h : NestedFrom cfg opened previous (e :: es))
    (hs : s.Follows opened) :
    ∃ next, NestedFrom cfg next (some e) es ∧ (s.take cfg e).1.Follows next
      ∧ (s.take cfg e).1.foreseen cfg es ++ startedClasses cfg es
        = s.foreseen cfg (e :: es) ++ startedClasses cfg (e :: es) := by
  obtain ⟨here, h⟩ := h
  cases e with
  | classStart c =>
      cases hs with
      | classes names positions noMethod valid =>
          -- one class less is still to start, and one more is foreseen
          refine ⟨_, h, .startClass positions valid c, ?_⟩
          show (s.startClass c).1.foreseen cfg es ++ _ = _ ++ (c.described cfg es :: _)
          rw [foreseen_startClass c noMethod valid, List.append_assoc]
          rfl
      | method name outer names =>
          -- No class starts in a method.
          rcases here with here | ⟨_, _, here, _⟩ <;> simp at here
  | classEnd name =>
      obtain ⟨hhead, h⟩ := h
      obtain ⟨names, position, later, rfl, hopened, hlen, noMethod, valid⟩ := hs.inClass hhead
      -- the class has its members, and the one around it is innermost again
      refine ⟨_, h, .endClass hopened hlen valid, congrArg (· ++ startedClasses cfg es) ?_⟩
      exact foreseen_endClass noMethod hopened (docOr_of_nestedFrom h rfl)
  | methodStart m =>
      obtain ⟨outer, hhead⟩ := here
      obtain ⟨names, position, later, rfl, hopened, hlen, noMethod, valid⟩ := hs.inClass hhead
      refine ⟨_, h, .startMethod hopened hlen valid m, congrArg (· ++ startedClasses cfg es) ?_⟩
      exact foreseen_startMethod m noMethod hopened
  | methodEnd name source =>
      -- What is open around a method is a class.
      obtain ⟨hhead, h⟩ := h
      obtain ⟨outer, names, position, later, rfl, hopened, hlen, inMethod, valid⟩ :=
        hs.inMethod hhead
      refine ⟨_, h, .endMethod hopened hlen inMethod valid source,
        congrArg (· ++ startedClasses cfg es) ?_⟩
      exact foreseen_endMethod inMethod hopened (docOr_of_nestedFrom h rfl)
  | classAssignment a =>
      obtain ⟨outer, hhead⟩ := here
      obtain ⟨names, position, later, -, hopened, -, noMethod, valid⟩ := hs.inClass hhead
      refine ⟨_, h, hs.assignClass a, congrArg (· ++ startedClasses cfg es) ?_⟩
      exact foreseen_assignClass a noMethod hopened valid (docOr_of_nestedFrom h rfl)
  | selfAssignment a =>
      obtain ⟨outer, names, position, later, -, hopened, -, inMethod, valid⟩ := hs.inMethod here
      refine ⟨_, h, hs.assignSelf a, congrArg (· ++ startedClasses cfg es) ?_⟩
      exact foreseen_assignSelf a inMethod hopened valid (docOr_of_nestedFrom h rfl)
  | moduleAssignment name value line =>
      refine ⟨_, h, hs.congr rfl rfl rfl, congrArg (· ++ startedClasses cfg es) ?_⟩
      show s.foreseen cfg es = _
      exact foreseen_pass (docOr_of_nestedFrom h rfl) (fun _ => rfl) rfl (fun _ => rfl) rfl rfl rfl
  | docstring text line =>
      refine ⟨_, h, hs.modifyInnermost _, congrArg (· ++ startedClasses cfg es) ?_⟩
      exact foreseen_document text line (docOr_of_nestedFrom h rfl)
  | decorator name line =>
      refine ⟨_, h, hs, congrArg (· ++ startedClasses cfg es) ?_⟩
      exact foreseen_pass (docOr_of_nestedFrom h rfl) (fun _ => rfl) rfl (fun _ => rfl) rfl rfl rfl
  | ignored reason line =>
      refine ⟨_, h, hs, congrArg (· ++ startedClasses cfg es) ?_⟩
      exact foreseen_pass (docOr_of_nestedFrom h rfl) (fun _ => rfl) rfl (fun _ => rfl) rfl rfl rfl

/-- **A whole run brings what was foreseen.** -/
theorem view_takeAll {previous : Option Event} (h : NestedFrom cfg opened previous es)
    (hs : s.Follows opened) :
    (takeAll cfg s es).1.view = s.foreseen cfg es ++ startedClasses cfg es := by
  induction es generalizing s opened previous with
  | nil =>
      obtain rfl : opened = [] := h
      unfold foreseen
      rw [hs.opened_eq_nil rfl]
      exact (List.append_nil _).symm
  | cons e es ih =>
      obtain ⟨next, hnext, hfollows, heq⟩ := foreseen_take h hs
      rw [← heq]
      exact ih hnext hfollows

end Assembly

/-! ## §7. The classes of an outline. -/

/-- A class is replaced when its name is started again. -/
theorem withoutReplaced_startedClasses (cfg : Config) (es : List Event) :
    Assembly.withoutReplaced (startedClasses cfg es) = describedClasses cfg es := by
  -- whether a name comes again is seen in the classes as in the events
  have again (name : Text) (es : List Event) :
      ((startedClasses cfg es).any fun later => later.name = name)
        = es.any (Event.startsClass name) := by
    induction es with
    | nil => rfl
    | cons e es ih =>
        cases e with
        | classStart c => exact congrArg (decide (c.name = name) || ·) ih
        | _ => exact ih
  induction es with
  | nil => rfl
  | cons e es ih =>
      cases e with
      | classStart c =>
          show Assembly.withoutReplaced (c.described cfg es :: startedClasses cfg es)
            = if es.any (Event.startsClass c.name) then describedClasses cfg es
              else c.described cfg es :: describedClasses cfg es
          rw [Assembly.withoutReplaced, again, ih]
          rfl
      | _ => exact ih

/-- The classes that nested events describe. -/
theorem shape_ofEvents {cfg : Config} {es : List Event} (h : NestedFrom cfg [] none es) :
    (Class.ofEvents cfg es).1.map Class.shape = describedClasses cfg es := by
  have start : ({} : Assembly).Follows [] := .classes [] rfl rfl fun i hi => absurd hi List.not_mem_nil
  have hview := Assembly.view_takeAll h start
  -- looking up what members hold changes no shape
  have kept (d : Definitions) (drafts : List (Class Deferred)) :
      (Assembly.withoutReplaced (drafts.map (Assembly.finishClass d))).map Class.shape
        = Assembly.withoutReplaced (drafts.map Class.shape) := by
    have shapes : (drafts.map (Assembly.finishClass d)).map Class.shape = drafts.map Class.shape := by
      rw [List.map_map]
      refine List.map_congr_left fun c _ => ?_
      simp [Class.shape, Assembly.finishClass, Class.map, Attribute.map, Method.map, Parameter.map,
        Function.comp_def]
    rw [← shapes]
    exact Assembly.withoutReplaced_map Class.name_shape _
  rw [← withoutReplaced_startedClasses]
  exact (kept _ _).trans (congrArg Assembly.withoutReplaced hview)

/-- A block that is open, with others inside it, has its end among the events to come. -/
theorem NestedFrom.exists_matchingEnd? {cfg : Config} {b : Block} {outer : List Block} :
    ∀ {es : List Event} {inner : List Block} {previous : Option Event},
      NestedFrom cfg (inner ++ b :: outer) previous es →
      ∃ ending, matchingEnd? inner.length es = some ending ∧ ending.ends? = some b
  | [], inner, previous, h => by
      have h : inner ++ b :: outer = [] := h
      simp at h
  | e :: es, inner, previous, h => by
      obtain ⟨-, h⟩ := h
      rw [matchingEnd?]
      cases hstart : e.starts? with
      | some b' =>
          rw [hstart] at h
          have h : NestedFrom cfg ((b' :: inner) ++ b :: outer) (some e) es := h
          exact NestedFrom.exists_matchingEnd? h
      | none =>
          rw [hstart] at h
          cases hend : e.ends? with
          | none =>
              rw [hend] at h
              exact NestedFrom.exists_matchingEnd? h
          | some b' =>
              rw [hend] at h
              obtain ⟨hhead, h⟩ := h
              cases inner with
              | nil =>
                  obtain rfl := Option.some.inj hhead
                  exact ⟨e, rfl, hend⟩
              | cons b'' inner => exact NestedFrom.exists_matchingEnd? h

/-- Every start among nested events has its matching end. -/
theorem NestedFrom.matchingEnd?_of_start {cfg : Config} {b : Block} {start : Event}
    {after : List Event} (hstart : start.starts? = some b) :
    ∀ {before : List Event} {opened : List Block} {previous : Option Event},
      NestedFrom cfg opened previous (before ++ start :: after) →
      ∃ ending, matchingEnd? 0 after = some ending ∧ ending.ends? = some b
  | [], opened, previous, h => by
      obtain ⟨-, h⟩ := h
      rw [hstart] at h
      have h : NestedFrom cfg ([] ++ b :: opened) (some start) after := h
      exact NestedFrom.exists_matchingEnd? h
  | e :: before, opened, previous, h => by
      obtain ⟨-, h⟩ := h
      split at h
      · exact NestedFrom.matchingEnd?_of_start hstart h
      · exact NestedFrom.matchingEnd?_of_start hstart h.2
      · exact NestedFrom.matchingEnd?_of_start hstart h

/-- Every start has a matching end of the same block. -/
def StartsMatched (es : List Event) : Prop :=
  ∀ before start after b, es = before ++ start :: after → start.starts? = some b →
    ∃ ending, matchingEnd? 0 after = some ending ∧ ending.ends? = some b

/-- **THE CLASSES OF A SOURCE ARE THOSE ITS EVENTS DESCRIBE**: every start in the events has its
matching end, and there is one class for each class block whose name is not started again, in
the order of the starts, with exactly the members that stand in it, their docs and sources. -/
theorem Class.shape_ofEvents_ofLines (cfg : Config) (lines : List LogicalLine) :
    StartsMatched (Event.ofLines cfg lines).events ∧
      (Class.ofEvents cfg (Event.ofLines cfg lines).events).1.map Class.shape
        = describedClasses cfg (Event.ofLines cfg lines).events := by
  have nested := Event.ofLines_nestedFrom cfg lines
  refine ⟨?_, shape_ofEvents nested⟩
  intro before start after b hes hstart
  rw [hes] at nested
  exact nested.matchingEnd?_of_start hstart

end ClassOutline
