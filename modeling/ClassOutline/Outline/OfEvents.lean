/-
  ClassOutline.Outline.OfEvents
  ────────────────────────────────
  **FROM EVENTS TO CLASSES.**

  Events are taken one by one.  Each class is a draft from its start on, and
  an attribute or default in it holds its initializer, with the name of self
  where it stood (`Deferred`).  When the last event is in, everything that can
  be named is known, and each draft becomes a class by looking up what it holds.

  Events come in any order.  What belongs to a class or method is dropped when
  none is open.  A class that is defined again is replaced: only the last
  definition of a name is kept, and what the earlier one bound is forgotten.
-/
import ClassOutline.Config.Basic
import ClassOutline.Event.Basic
import ClassOutline.Initializer.Classify
import ClassOutline.Outline.Basic
import ClassOutline.Resolution.Basic

namespace ClassOutline

/-! ## §1. Drafts. -/

/-- An initializer to be looked up later. -/
structure Deferred where
  value : Initializer
  /-- The name of self where it stands, in a constructor. -/
  selfName : Option Text := none
  deriving Repr

/-- The method whose body is read; it is the last one of its class. -/
structure OpenMethod where
  /-- The name of self in it. -/
  selfName : Option Text
  deriving DecidableEq, Repr

/-- What has been put together so far. -/
structure Assembly where
  /-- All classes, in the order of their starts. -/
  drafts : List (Class Deferred) := []
  /-- The positions of the open ones, the innermost first. -/
  opened : List Nat := []
  method : Option OpenMethod := none
  definitions : Definitions := {}
  deriving Repr

/-! ## §2. Members. -/

/-- The visibility of a member. -/
def Config.visibility (cfg : Config) (name : Text) : Visibility :=
  if cfg.inferVisibility then .ofName name else .publicMember

/-- How a method takes its first parameter. -/
structure MethodShape where
  isStatic : Bool
  isClassMethod : Bool
  /-- The first parameter is the implicit one. -/
  dropsFirst : Bool
  deriving DecidableEq, Repr

/-- The shape of a method: a static one keeps all parameters, a class method drops the first,
and any other drops the first if its name marks it, or else is static too. -/
def MethodStart.shape (cfg : Config) (m : MethodStart) : MethodShape :=
  let isClassMethod := m.decorators.contains "classmethod".toList
  let regular := m.parameters.head?.any fun p => p.kind = .regular
  if m.decorators.contains "staticmethod".toList then ⟨true, isClassMethod, false⟩
  else if isClassMethod then ⟨false, true, regular⟩
  else if regular && m.parameters.head?.any fun p => cfg.isSelfName p.name then
    ⟨false, false, true⟩
  else ⟨true, false, false⟩

/-- A parameter with its default classified. -/
def WrittenParameter.draft (p : WrittenParameter) : Reported (Parameter Deferred) :=
  match p.default with
  | none => ⟨⟨p.name, p.kind, p.annotation, none⟩, []⟩
  | some text =>
    let r := text.classify
    ⟨⟨p.name, p.kind, p.annotation, some { value := r.value }⟩, r.causes⟩

/-- The method that a header starts, without a body yet. -/
def MethodStart.draft (cfg : Config) (m : MethodStart) : Reported (Method Deferred) :=
  let shape := m.shape cfg
  let parameters :=
    Reported.all ((m.parameters.drop (if shape.dropsFirst then 1 else 0)).map
      WrittenParameter.draft)
  parameters.map fun ps =>
    { name := m.name, parameters := ps, visibility := cfg.visibility m.name,
      decorators := m.decorators, isStatic := shape.isStatic,
      isClassMethod := shape.isClassMethod, isConstructor := m.name == cfg.constructorName,
      doc := m.comment, source := [], line := m.line }

/-- The attribute that an assignment makes, given its classified value. -/
def AttributeAssignment.draft (cfg : Config) (a : AttributeAssignment) (value : Deferred) :
    Attribute Deferred :=
  { name := a.name, value, annotation := a.annotation, visibility := cfg.visibility a.name,
    line := a.line }

/-- Change the last element. -/
def modifyLast {α : Type} (f : α → α) : List α → List α
  | [] => []
  | [x] => [f x]
  | x :: xs => x :: modifyLast f xs

/-! ## §3. Taking events. -/

namespace Assembly

/-- The innermost open class. -/
def innermost? (s : Assembly) : Option (Class Deferred) :=
  s.opened.head?.bind fun position => s.drafts[position]?

/-- Change the innermost open class. -/
def modifyInnermost (f : Class Deferred → Class Deferred) (s : Assembly) : Assembly :=
  match s.opened with
  | [] => s
  | position :: _ => { s with drafts := s.drafts.modify position f }

/-- A class starts. -/
def startClass (c : ClassStart) (s : Assembly) : Assembly × List Diagnostic :=
  let earlier := findLast? (fun d => d.name = c.name) s.drafts
  let kept := if earlier.isSome then s.definitions.forget c.name else s.definitions
  let draft : Class Deferred :=
    { name := c.name, bases := c.bases, classAttributes := [], instanceAttributes := [],
      methods := [], doc := c.comment, line := c.line }
  ({ drafts := s.drafts ++ [draft], opened := s.drafts.length :: s.opened, method := none,
     definitions := kept.addClass c.name },
   earlier.toList.map fun d => ⟨c.line, .duplicateClass c.name d.line⟩)

/-- The innermost class ends. -/
def endClass (s : Assembly) : Assembly := { s with opened := s.opened.tail, method := none }

/-- A method starts. -/
def startMethod (cfg : Config) (m : MethodStart) (s : Assembly) : Assembly × List Diagnostic :=
  if s.opened.isEmpty then (s, [])
  else
    let draft := m.draft cfg
    let selfName := if (m.shape cfg).dropsFirst then m.parameters.head?.map (·.name) else none
    ({ s.modifyInnermost (fun c => { c with methods := c.methods ++ [draft.value] }) with
        method := some ⟨selfName⟩ },
     Diagnostic.atLine m.line draft.causes)

/-- The open method ends. -/
def endMethod (source : Text) (s : Assembly) : Assembly :=
  let closed := { s with method := none }
  if s.method.isNone then closed
  else closed.modifyInnermost fun c =>
    { c with methods := modifyLast (fun m => { m with source }) c.methods }

/-- A class is given an attribute. -/
def assignClass (cfg : Config) (a : AttributeAssignment) (s : Assembly) :
    Assembly × List Diagnostic :=
  match s.innermost? with
  | none => (s, [])
  | some c =>
    let r := a.value.classify
    let bound := s.definitions.bindClassAttribute c.name a.name r.value
    ({ s with definitions := bound }.modifyInnermost fun c =>
        { c with classAttributes := c.classAttributes ++ [a.draft cfg { value := r.value }] },
     Diagnostic.atLine a.line r.causes)

/-- The instances of a class are given an attribute. -/
def assignSelf (cfg : Config) (a : AttributeAssignment) (s : Assembly) :
    Assembly × List Diagnostic :=
  match s.innermost?, s.method with
  | some c, some method =>
    let r := a.value.classify
    let bound := match method.selfName with
      | some selfName => s.definitions.bindSelf c.name selfName a.name r.value
      | none => s.definitions
    ({ s with definitions := bound }.modifyInnermost fun c =>
        { c with instanceAttributes :=
            c.instanceAttributes ++ [a.draft cfg ⟨r.value, method.selfName⟩] },
     Diagnostic.atLine a.line r.causes)
  | _, _ => (s, [])

/-- A name of the module is given a value. -/
def assignModule (name value : Text) (line : Nat) (s : Assembly) : Assembly × List Diagnostic :=
  let r := value.classify
  ({ s with definitions := s.definitions.bindModule name r.value },
   Diagnostic.atLine line r.causes)

/-- The open method, or else the innermost class, is documented. -/
def document (text : Text) (s : Assembly) : Assembly :=
  s.modifyInnermost fun c =>
    if s.method.isSome then
      { c with methods := modifyLast (fun m => { m with doc := some text }) c.methods }
    else { c with doc := some text }

/-- Take one event. -/
def take (cfg : Config) (s : Assembly) : Event → Assembly × List Diagnostic
  | .classStart c => s.startClass c
  | .classEnd _ => (s.endClass, [])
  | .methodStart m => s.startMethod cfg m
  | .methodEnd _ source => (s.endMethod source, [])
  | .classAssignment a => s.assignClass cfg a
  | .selfAssignment a => s.assignSelf cfg a
  | .moduleAssignment name value line => s.assignModule name value line
  | .docstring text _ => (s.document text, [])
  | .decorator .. | .ignored .. => (s, [])

/-- Take events in order: the assembly after them and all diagnostics. -/
def takeAll (cfg : Config) (s : Assembly) : List Event → Assembly × List Diagnostic
  | [] => (s, [])
  | e :: es =>
    let (next, diagnostics) := s.take cfg e
    let (final, later) := takeAll cfg next es
    (final, diagnostics ++ later)

/-! ## §4. The finished classes. -/

/-- The class that a draft becomes. -/
def finishClass (d : Definitions) (c : Class Deferred) : Class Value :=
  c.map fun deferred => d.resolve ⟨some c.name, deferred.selfName⟩ deferred.value

/-- The classes without those that a later one replaces. -/
def withoutReplaced {α : Type} : List (Class α) → List (Class α)
  | [] => []
  | c :: cs =>
    if cs.any fun later => later.name = c.name then withoutReplaced cs
    else c :: withoutReplaced cs

/-- The classes in the order of their starts. -/
def finish (s : Assembly) : List (Class Value) :=
  withoutReplaced (s.drafts.map (finishClass s.definitions))

end Assembly

/-- The classes that a stream of events describes. -/
def Class.ofEvents (cfg : Config) (events : List Event) : List (Class Value) × List Diagnostic :=
  let (final, diagnostics) := Assembly.takeAll cfg {} events
  (final.finish, diagnostics)

end ClassOutline
