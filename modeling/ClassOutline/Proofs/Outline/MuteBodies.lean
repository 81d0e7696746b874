/-
  ClassOutline.Proofs.Outline.MuteBodies
  ────────────────────────────────
  **WHAT STANDS IN A SKIPPED BODY DOES NOT CHANGE THE CLASSES.**

  A class is *bare* without its docstring or comment, and without those and the
  sources of its methods.  The bare classes of a stream of events are those of
  its bare events: each event changes a bare assembly as its bare form does, and
  one without a bare form not at all (`take_alike`, `take_silent`).

  So two sources that are equal but for bodies in which nothing counts have the
  same bare classes: the same names, bases, lines, attributes with their values,
  methods, parameters, defaults and decorators.
-/
import ClassOutline.Proofs.Event.MuteBodies
import ClassOutline.Proofs.Outline.Assembly

namespace ClassOutline

/-! ## §1. Bare classes. -/

section

variable {α β : Type}

/-- The method without docstring and source. -/
def Method.bare (m : Method α) : Method α := { m with doc := none, source := [] }

/-- The class without docstrings and sources. -/
def Class.bare (c : Class α) : Class α :=
  { c with methods := c.methods.map Method.bare, doc := none }

theorem Class.bare_map (f : α → β) (c : Class α) : (c.map f).bare = c.bare.map f := by
  unfold Class.map Class.bare
  dsimp only
  rw [List.map_map, List.map_map]
  rfl

end

namespace Assembly

/-- The assembly with bare classes. -/
def bare (s : Assembly) : Assembly := { s with drafts := s.drafts.map Class.bare }

/-! ## §2. What an event does to a bare assembly. -/

variable {s s' : Assembly}

theorem opened_eq_of_bare_eq (h : s.bare = s'.bare) : s.opened = s'.opened := by
  have ho : s.bare.opened = s'.bare.opened := by rw [h]
  exact ho

theorem method_eq_of_bare_eq (h : s.bare = s'.bare) : s.method = s'.method := by
  have hm : s.bare.method = s'.bare.method := by rw [h]
  exact hm

theorem definitions_eq_of_bare_eq (h : s.bare = s'.bare) : s.definitions = s'.definitions := by
  have hd : s.bare.definitions = s'.bare.definitions := by rw [h]
  exact hd

theorem drafts_eq_of_bare_eq (h : s.bare = s'.bare) :
    s.drafts.map Class.bare = s'.drafts.map Class.bare := by
  have hd : s.bare.drafts = s'.bare.drafts := by rw [h]
  exact hd

theorem names_eq_of_bare_eq (h : s.bare = s'.bare) :
    s.drafts.map Class.name = s'.drafts.map Class.name := by
  have names (s : Assembly) :
      s.drafts.map Class.name = (s.drafts.map Class.bare).map Class.name := by
    rw [List.map_map]
    rfl
  rw [names s, names s', drafts_eq_of_bare_eq h]

/-- A change of a class that a bare class shows as another change. -/
theorem bare_modifyInnermost {f g : Class Deferred → Class Deferred}
    (hf : ∀ c, (f c).bare = g c.bare) (s : Assembly) :
    (s.modifyInnermost f).bare = s.bare.modifyInnermost g := by
  obtain ⟨drafts, opened, method, definitions⟩ := s
  cases opened with
  | nil => rfl
  | cons position outer =>
      have modified : (drafts.modify position f).map Class.bare
          = (drafts.map Class.bare).modify position g := map_modify hf position drafts
      unfold bare modifyInnermost
      dsimp only
      rw [modified]

/-- A change of a class that a bare class does not show. -/
theorem bare_modifyInnermost_of_hidden {f : Class Deferred → Class Deferred}
    (hf : ∀ c, (f c).bare = c.bare) (s : Assembly) : (s.modifyInnermost f).bare = s.bare := by
  obtain ⟨drafts, opened, method, definitions⟩ := s
  rw [bare_modifyInnermost (g := fun c => c) hf]
  cases opened with
  | nil => rfl
  | cons position outer =>
      have same : (drafts.map Class.bare).modify position (fun c => c) = drafts.map Class.bare :=
        List.modify_id position _
      unfold bare modifyInnermost
      dsimp only
      rw [same]

/-- The innermost class is the same when bare. -/
theorem map_bare_innermost? (s : Assembly) : s.innermost?.map Class.bare = s.bare.innermost? := by
  obtain ⟨drafts, opened, method, definitions⟩ := s
  cases opened with
  | nil => rfl
  | cons position outer => exact List.getElem?_map.symm

/-- Looking for the last class of a name, only names are looked at. -/
theorem isSome_findLast?_name {cs cs' : List (Class Deferred)}
    (h : cs.map Class.name = cs'.map Class.name) (name : Text) :
    (findLast? (fun d => d.name = name) cs).isSome
      = (findLast? (fun d => d.name = name) cs').isSome := by
  rw [Bool.eq_iff_iff, isSome_findLast?_iff, isSome_findLast?_iff, h]

theorem startClass_alike (h : s.bare = s'.bare) {start start' : ClassStart}
    (hstart : { start with comment := none } = { start' with comment := none }) :
    (s.startClass start).1.bare = (s'.startClass start').1.bare := by
  obtain ⟨name, bases, comment, line⟩ := start
  obtain ⟨name', bases', comment', line'⟩ := start'
  obtain ⟨rfl, rfl, -, rfl⟩ := ClassStart.mk.inj hstart
  have length : s.drafts.length = s'.drafts.length := by
    have hlength := congrArg List.length (drafts_eq_of_bare_eq h)
    rwa [List.length_map, List.length_map] at hlength
  unfold startClass bare
  dsimp only
  rw [List.map_append, List.map_append, drafts_eq_of_bare_eq h, opened_eq_of_bare_eq h,
    definitions_eq_of_bare_eq h, length, isSome_findLast?_name (names_eq_of_bare_eq h)]
  rfl

/-- A change of a method that a bare method does not show. -/
theorem bare_modifyLast_of_hidden {f : Method Deferred → Method Deferred}
    (hf : ∀ m, (f m).bare = m.bare) (c : Class Deferred) :
    ({ c with methods := modifyLast f c.methods } : Class Deferred).bare = c.bare := by
  have same : (modifyLast f c.methods).map Method.bare
      = modifyLast (fun m => m) (c.methods.map Method.bare) := map_modifyLast hf c.methods
  unfold Class.bare
  rw [same, modifyLast_id]

theorem startMethod_alike (cfg : Config) (h : s.bare = s'.bare) {start start' : MethodStart}
    (hstart : { start with comment := none } = { start' with comment := none }) :
    (s.startMethod cfg start).1.bare = (s'.startMethod cfg start').1.bare := by
  obtain ⟨name, parameters, decorators, isAsync, comment, line⟩ := start
  obtain ⟨name', parameters', decorators', isAsync', comment', line'⟩ := start'
  obtain ⟨rfl, rfl, rfl, rfl, -, rfl⟩ := MethodStart.mk.inj hstart
  -- the comment is in the draft, but not in the bare draft
  have added (comment : Option Text) (s : Assembly) :
      (s.modifyInnermost fun c => { c with methods := c.methods ++
          [(MethodStart.draft cfg ⟨name, parameters, decorators, isAsync, comment, line⟩).value] }).bare
        = s.bare.modifyInnermost fun c => { c with methods := c.methods ++
          [(MethodStart.draft cfg ⟨name, parameters, decorators, isAsync, none, line⟩).value] } := by
    refine bare_modifyInnermost (fun c => ?_) s
    unfold Class.bare
    rw [List.map_append]
    rfl
  have same := (added comment s).trans ((congrArg _ h).trans (added comment' s').symm)
  unfold startMethod
  rw [opened_eq_of_bare_eq h]
  split
  · exact h
  · obtain ⟨drafts, opened, -, definitions⟩ := Assembly.mk.inj same
    exact Assembly.mk.injEq .. ▸ ⟨drafts, opened, rfl, definitions⟩

theorem endMethod_alike (h : s.bare = s'.bare) (source source' : Text) :
    (s.endMethod source).bare = (s'.endMethod source').bare := by
  have closed : ({ s with method := none } : Assembly).bare
      = ({ s' with method := none } : Assembly).bare :=
    congrArg (fun a : Assembly => { a with method := none }) h
  unfold endMethod
  dsimp only
  rw [method_eq_of_bare_eq h]
  split
  · exact closed
  -- the source is in the method, but not in the bare method
  · refine (bare_modifyInnermost_of_hidden ?_ _).trans
      (closed.trans (bare_modifyInnermost_of_hidden ?_ _).symm)
    · exact bare_modifyLast_of_hidden (by intro _; rfl)
    · exact bare_modifyLast_of_hidden (by intro _; rfl)

/-- The innermost classes of assemblies that are the same when bare: both are there, of one
name, or neither is. -/
theorem innermost?_alike (h : s.bare = s'.bare) :
    (s.innermost? = none ∧ s'.innermost? = none)
      ∨ ∃ c c', s.innermost? = some c ∧ s'.innermost? = some c' ∧ c.name = c'.name := by
  have inner : s.innermost?.map Class.bare = s'.innermost?.map Class.bare := by
    rw [map_bare_innermost?, h, map_bare_innermost?]
  cases hs : s.innermost? with
  | none =>
      rw [hs] at inner
      exact .inl ⟨rfl, Option.map_eq_none_iff.1 inner.symm⟩
  | some c =>
      rw [hs] at inner
      obtain ⟨c', hc', hbare⟩ := Option.map_eq_some_iff.1 inner.symm
      exact .inr ⟨c, c', rfl, hc', (congrArg Class.name hbare).symm⟩

/-- New definitions and a change that a bare class shows as it is. -/
theorem define_alike (h : s.bare = s'.bare) {f : Class Deferred → Class Deferred}
    (hf : ∀ c, (f c).bare = f c.bare) (d : Definitions) :
    ({ s with definitions := d }.modifyInnermost f).bare
      = ({ s' with definitions := d }.modifyInnermost f).bare := by
  rw [bare_modifyInnermost hf, bare_modifyInnermost hf]
  exact congrArg (fun a : Assembly => { a with definitions := d }.modifyInnermost f) h

theorem assignClass_alike (cfg : Config) (h : s.bare = s'.bare) (a : AttributeAssignment) :
    (s.assignClass cfg a).1.bare = (s'.assignClass cfg a).1.bare := by
  unfold assignClass
  rcases innermost?_alike h with ⟨hs, hs'⟩ | ⟨c, c', hs, hs', hname⟩
  · rw [hs, hs']
    exact h
  · rw [hs, hs']
    dsimp only
    rw [hname, definitions_eq_of_bare_eq h]
    exact define_alike h (by intro _; rfl) _

theorem assignSelf_alike (cfg : Config) (h : s.bare = s'.bare) (a : AttributeAssignment) :
    (s.assignSelf cfg a).1.bare = (s'.assignSelf cfg a).1.bare := by
  have inner := innermost?_alike h
  obtain ⟨drafts, opened, method, definitions⟩ := s
  obtain ⟨drafts', opened', method', definitions'⟩ := s'
  obtain rfl : method = method' := method_eq_of_bare_eq h
  obtain rfl : definitions = definitions' := definitions_eq_of_bare_eq h
  unfold assignSelf
  rcases inner with ⟨hs, hs'⟩ | ⟨c, c', hs, hs', hname⟩
  · rw [hs, hs']
    exact h
  · rw [hs, hs']
    cases method with
    | none => exact h
    | some method =>
        dsimp only
        rw [hname]
        exact define_alike h (by intro _; rfl) _

theorem bare_document (text : Text) (s : Assembly) : (s.document text).bare = s.bare := by
  refine bare_modifyInnermost_of_hidden (fun c => ?_) s
  split
  · exact bare_modifyLast_of_hidden (by intro _; rfl) c
  · rfl

/-- An event without a bare form does not change the bare assembly. -/
theorem take_silent (cfg : Config) {e : Event} (he : e.bare? = none) (s : Assembly) :
    (s.take cfg e).1.bare = s.bare := by
  cases e with
  | decorator name line => rfl
  | ignored reason line => rfl
  | docstring text line => exact bare_document text s
  | _ => exact nomatch he

/-- **An event changes a bare assembly as its bare form does.** -/
theorem take_alike (cfg : Config) (h : s.bare = s'.bare) {e e' : Event} (he : e.bare? = some e') :
    (s.take cfg e).1.bare = (s'.take cfg e').1.bare := by
  cases e with
  | classStart start =>
      obtain rfl := Option.some.inj he
      exact startClass_alike h rfl
  | classEnd name =>
      obtain rfl := Option.some.inj he
      exact congrArg endClass h
  | methodStart start =>
      obtain rfl := Option.some.inj he
      exact startMethod_alike cfg h rfl
  | methodEnd name source =>
      obtain rfl := Option.some.inj he
      exact endMethod_alike h source []
  | classAssignment written =>
      obtain rfl := Option.some.inj he
      exact assignClass_alike cfg h written
  | selfAssignment written =>
      obtain rfl := Option.some.inj he
      exact assignSelf_alike cfg h written
  | moduleAssignment name value line =>
      obtain rfl := Option.some.inj he
      exact congrArg (fun a : Assembly => (a.assignModule name value line).1) h
  | decorator name line => exact nomatch he
  | docstring text line => exact nomatch he
  | ignored reason line => exact nomatch he

/-- Events change a bare assembly as the bare events do. -/
theorem takeAll_alike (cfg : Config) (es : List Event) (h : s.bare = s'.bare) :
    (takeAll cfg s es).1.bare = (takeAll cfg s' (bareEvents es)).1.bare := by
  induction es generalizing s s' with
  | nil => exact h
  | cons e es ih =>
      cases he : e.bare? with
      | none =>
          have events : bareEvents (e :: es) = bareEvents es := List.filterMap_cons_none he
          rw [events]
          exact ih ((take_silent cfg he s).trans h)
      | some e' =>
          have events : bareEvents (e :: es) = e' :: bareEvents es := List.filterMap_cons_some he
          rw [events]
          exact ih (take_alike cfg h he)

/-- The bare classes are those of the bare assembly. -/
theorem map_bare_finish (s : Assembly) : s.finish.map Class.bare = s.bare.finish := by
  have commute : Class.bare ∘ finishClass s.definitions
      = finishClass s.definitions ∘ Class.bare := by
    funext c
    exact Class.bare_map _ c
  have names (c : Class Value) : c.bare.name = c.name := rfl
  unfold finish
  rw [withoutReplaced_map names, List.map_map, commute, ← List.map_map]
  rfl

end Assembly

/-! ## §3. Sources that are equal but for mute bodies. -/

/-- The bare classes are those of the bare events. -/
theorem Class.bare_ofEvents {cfg : Config} {es es' : List Event}
    (h : bareEvents es = bareEvents es') :
    (Class.ofEvents cfg es).1.map Class.bare = (Class.ofEvents cfg es').1.map Class.bare := by
  have finals : (Assembly.takeAll cfg {} es).1.bare = (Assembly.takeAll cfg {} es').1.bare := by
    rw [Assembly.takeAll_alike cfg es rfl, h, ← Assembly.takeAll_alike cfg es' rfl]
  show ((Assembly.takeAll cfg {} es).1.finish).map Class.bare
    = ((Assembly.takeAll cfg {} es').1.finish).map Class.bare
  rw [Assembly.map_bare_finish, Assembly.map_bare_finish, finals]

end ClassOutline
