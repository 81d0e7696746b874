/-
  ClassOutline.Proofs.Outline.References
  ────────────────────────────────
  **AN OUTLINE REFERS ONLY TO CLASSES THAT ARE IN IT.**

  While events are taken, a class can be found from its start on, under its own
  name or an alias, and what is found is always the name of a draft
  (`Assembly.Closed`).  Drafts are never removed, so this stays true; when all
  of them are finished, every name of a draft is the name of a class that is
  kept, for of several of one name the last one is (`exists_mem_withoutReplaced`).
-/
import ClassOutline.Outline.OfSource
import ClassOutline.Proofs.Outline.Assembly
import ClassOutline.Proofs.Resolution.References

namespace ClassOutline

/-! ## §1. What a class holds. -/

section
variable {α β : Type}

/-- The defaults of a method's parameters. -/
def Method.defaults (m : Method α) : List α := m.parameters.filterMap Parameter.default

/-- What the attributes of a class hold, and the defaults of its methods. -/
def Class.contents (c : Class α) : List α :=
  c.classAttributes.map Attribute.value ++ c.instanceAttributes.map Attribute.value
    ++ c.methods.flatMap Method.defaults

theorem Method.defaults_map (f : α → β) (m : Method α) : (m.map f).defaults = m.defaults.map f := by
  unfold defaults
  show (m.parameters.map (Parameter.map f)).filterMap Parameter.default = _
  rw [List.filterMap_map, List.map_filterMap]
  rfl

theorem Class.contents_map (f : α → β) (c : Class α) : (c.map f).contents = c.contents.map f := by
  unfold contents
  have attributes (as : List (Attribute α)) :
      (as.map (Attribute.map f)).map Attribute.value = (as.map Attribute.value).map f := by
    rw [List.map_map, List.map_map]
    rfl
  have methods (ms : List (Method α)) :
      (ms.map (Method.map f)).flatMap Method.defaults = (ms.flatMap Method.defaults).map f := by
    rw [List.flatMap_map, List.map_flatMap]
    exact congrArg (ms.flatMap ·) (funext fun m => m.defaults_map f)
  rw [List.map_append, List.map_append, ← attributes, ← attributes, ← methods]
  rfl

/-- A further class attribute is all that is new. -/
theorem Class.contents_addClassAttribute {c : Class α} {a : Attribute α} {held : α}
    (h : held ∈ { c with classAttributes := c.classAttributes ++ [a] }.contents) :
    held ∈ c.contents ∨ held = a.value := by
  unfold contents at h ⊢
  simp only [List.map_append, List.map_singleton, List.mem_append, List.mem_singleton] at h ⊢
  rcases h with ((h | h) | h) | h
  · exact .inl (.inl (.inl h))
  · exact .inr h
  · exact .inl (.inl (.inr h))
  · exact .inl (.inr h)

theorem Class.contents_addInstanceAttribute {c : Class α} {a : Attribute α} {held : α}
    (h : held ∈ { c with instanceAttributes := c.instanceAttributes ++ [a] }.contents) :
    held ∈ c.contents ∨ held = a.value := by
  unfold contents at h ⊢
  simp only [List.map_append, List.map_singleton, List.mem_append, List.mem_singleton] at h ⊢
  rcases h with (h | h | h) | h
  · exact .inl (.inl (.inl h))
  · exact .inl (.inl (.inr h))
  · exact .inr h
  · exact .inl (.inr h)

theorem Class.contents_addMethod {c : Class α} {m : Method α} {held : α}
    (h : held ∈ { c with methods := c.methods ++ [m] }.contents) :
    held ∈ c.contents ∨ held ∈ m.defaults := by
  unfold contents at h ⊢
  simp only [List.flatMap_append, List.flatMap_singleton, List.mem_append] at h ⊢
  rcases h with h | h | h
  · exact .inl (.inl h)
  · exact .inl (.inr h)
  · exact .inr h

/-- Changing the last method without its parameters changes nothing of this. -/
theorem Class.contents_modifyLast {f : Method α → Method α}
    (hf : ∀ m, (f m).parameters = m.parameters) (c : Class α) :
    { c with methods := modifyLast f c.methods }.contents = c.contents := by
  have hdefaults : (modifyLast f c.methods).map Method.defaults
      = modifyLast (fun ds => ds) (c.methods.map Method.defaults) :=
    map_modifyLast (fun m => congrArg (List.filterMap Parameter.default) (hf m)) c.methods
  unfold contents
  show _ ++ (modifyLast f c.methods).flatMap Method.defaults = _
  rw [List.flatMap_def, hdefaults, modifyLast_id, ← List.flatMap_def]

end

/-- The classes that the values in an outline refer to. -/
def UnitOutline.references (u : UnitOutline) : List Text :=
  u.classes.flatMap fun c => c.contents.flatMap Value.references

/-! ## §2. Drafts that refer to one another. -/

namespace Assembly

/-- Whatever is found under a name is the name of a draft, and drafts hold no classes yet. -/
structure Closed (s : Assembly) : Prop where
  definitions : s.definitions.Within (· ∈ s.drafts.map Class.name)
  contents : ∀ c ∈ s.drafts, ∀ held ∈ c.contents, held.value.Plain

variable {cfg : Config} {s : Assembly}

theorem closed_empty : ({} : Assembly).Closed :=
  ⟨Definitions.within_empty _, fun _ hc => absurd hc List.not_mem_nil⟩

/-- The innermost class may be given what is plain. -/
theorem Closed.modifyInnermost (h : s.Closed) {f : Class Deferred → Class Deferred}
    (hname : ∀ c, (f c).name = c.name)
    (hcontents : ∀ c, ∀ held ∈ (f c).contents, held ∈ c.contents ∨ held.value.Plain) :
    (s.modifyInnermost f).Closed := by
  refine ⟨?_, ?_⟩
  · rw [names_modifyInnermost hname, definitions_modifyInnermost]
    exact h.definitions
  · intro c hc held hheld
    -- another draft, or the innermost class as it was changed
    rcases mem_drafts_modifyInnermost hc with hc | ⟨c', hc', rfl⟩
    · exact h.contents c hc held hheld
    · rcases hcontents c' held hheld with hheld | hplain
      · exact h.contents c' hc' held hheld
      · exact hplain

/-- Definitions may change, as long as they have no other classes. -/
theorem Closed.define (h : s.Closed) {d : Definitions}
    (hd : d.Within (· ∈ s.drafts.map Class.name)) : ({ s with definitions := d } : Assembly).Closed :=
  ⟨hd, h.contents⟩

/-- Neither the open classes nor the open method matter. -/
theorem Closed.reopen (h : s.Closed) (opened : List Nat) (method : Option OpenMethod) :
    ({ s with opened, method } : Assembly).Closed :=
  ⟨h.definitions, h.contents⟩

theorem Closed.startClass (h : s.Closed) (c : ClassStart) : (s.startClass c).1.Closed := by
  have names : (s.startClass c).1.drafts.map Class.name = s.drafts.map Class.name ++ [c.name] :=
    List.map_append
  -- bindings may be forgotten, classes are not
  have kept (b : Bool) : (if b then s.definitions.forget c.name else s.definitions).Within
      (· ∈ s.drafts.map Class.name) := by
    cases b with
    | true => exact h.definitions.forget c.name
    | false => exact h.definitions
  refine ⟨?_, ?_⟩
  · rw [names]
    refine Definitions.Within.addClass ?_ (List.mem_append_right _ (List.mem_singleton.2 rfl))
    exact (kept _).mono fun name hname => List.mem_append_left _ hname
  · intro d hd held hheld
    rcases List.mem_append.1 hd with hd | hd
    · exact h.contents d hd held hheld
    · -- the new draft is still empty
      rw [List.mem_singleton.1 hd] at hheld
      exact absurd hheld List.not_mem_nil

theorem draft_plain (m : MethodStart) : ∀ held ∈ (m.draft cfg).value.defaults, held.value.Plain := by
  intro held hheld
  obtain ⟨p, hp, hdefault⟩ := List.mem_filterMap.1 hheld
  obtain ⟨r, hr, rfl⟩ := List.mem_map.1 hp
  obtain ⟨w, -, rfl⟩ := List.mem_map.1 hr
  unfold WrittenParameter.draft at hdefault
  split at hdefault
  · cases hdefault
  · obtain rfl := Option.some.inj hdefault
    exact Text.classify_plain _

theorem Closed.startMethod (h : s.Closed) (m : MethodStart) : (s.startMethod cfg m).1.Closed := by
  unfold Assembly.startMethod
  split
  · exact h
  · have closed : (s.modifyInnermost fun c =>
        { c with methods := c.methods ++ [(m.draft cfg).value] }).Closed := by
      refine h.modifyInnermost (fun _ => rfl) ?_
      intro c held hheld
      exact (Class.contents_addMethod hheld).imp_right (draft_plain m held)
    exact closed.reopen _ _

theorem Closed.endMethod (h : s.Closed) (source : Text) : (s.endMethod source).Closed := by
  have closed : ({ s with method := none } : Assembly).Closed := h.reopen s.opened none
  unfold Assembly.endMethod
  dsimp only
  split
  · exact closed
  · refine closed.modifyInnermost (fun _ => rfl) ?_
    intro c held hheld
    have same := Class.contents_modifyLast (f := fun m => { m with source }) (fun _ => rfl) c
    exact .inl (same ▸ hheld)

theorem Closed.assignClass (h : s.Closed) (a : AttributeAssignment) :
    (s.assignClass cfg a).1.Closed := by
  have plain := Text.classify_plain a.value
  unfold Assembly.assignClass
  split
  · exact h
  · refine Closed.modifyInnermost (Closed.define h ?_) (fun _ => rfl) ?_
    · exact h.definitions.bind plain _ _
    · intro c held hheld
      refine (Class.contents_addClassAttribute hheld).imp_right ?_
      intro heq
      rw [heq]
      exact plain

/-- An attribute is also bound, unless the method has no self to bind it to. -/
theorem Closed.assignSelf (h : s.Closed) (a : AttributeAssignment) :
    (s.assignSelf cfg a).1.Closed := by
  have plain := Text.classify_plain a.value
  unfold Assembly.assignSelf
  split
  · dsimp only
    refine Closed.modifyInnermost (Closed.define h ?_) (fun _ => rfl) ?_
    · split
      · exact h.definitions.bind plain _ _
      · exact h.definitions
    · intro c held hheld
      refine (Class.contents_addInstanceAttribute hheld).imp_right ?_
      intro heq
      rw [heq]
      exact plain
  · exact h

theorem Closed.document (h : s.Closed) (text : Text) : (s.document text).Closed := by
  unfold Assembly.document
  refine h.modifyInnermost ?_ ?_
  · intro c
    split
    · rfl
    · rfl
  · intro c held hheld
    split at hheld
    · have same := Class.contents_modifyLast (f := fun m => { m with doc := some text }) (fun _ => rfl) c
      exact .inl (same ▸ hheld)
    · exact .inl hheld

/-- **ONE EVENT KEEPS THE DRAFTS CLOSED.** -/
theorem Closed.take (h : s.Closed) (e : Event) : (s.take cfg e).1.Closed := by
  cases e with
  | classStart c => exact h.startClass c
  | classEnd name => exact h.reopen s.opened.tail none
  | methodStart m => exact h.startMethod m
  | methodEnd name source => exact h.endMethod source
  | classAssignment a => exact h.assignClass a
  | selfAssignment a => exact h.assignSelf a
  | moduleAssignment name value line =>
      exact h.define (h.definitions.bind (Text.classify_plain value) name {})
  | docstring text line => exact h.document text
  | decorator | ignored => exact h

/-- All events keep them closed, in whatever order they come. -/
theorem Closed.takeAll (h : s.Closed) (es : List Event) : (s.takeAll cfg es).1.Closed := by
  induction es generalizing s with
  | nil => exact h
  | cons e es ih => exact ih (h.take e)

/-! ## §3. Finished classes. -/

/-- A finished class refers to names of drafts. -/
theorem Closed.finishClass (h : s.Closed) {c : Class Deferred} (hc : c ∈ s.drafts) :
    ∀ v ∈ (finishClass s.definitions c).contents, ∀ name ∈ v.references,
      name ∈ s.drafts.map Class.name := by
  intro v hv name hname
  unfold Assembly.finishClass at hv
  rw [Class.contents_map] at hv
  obtain ⟨held, hheld, rfl⟩ := List.mem_map.1 hv
  exact h.definitions.resolve_known _ (h.contents c hc held hheld) name hname

/-- The finished classes refer to one another only. -/
theorem Closed.finish (h : s.Closed) : ∀ c ∈ s.finish, ∀ v ∈ c.contents, ∀ name ∈ v.references,
    name ∈ s.finish.map Class.name := by
  intro c hc v hv name hname
  unfold Assembly.finish at hc ⊢
  obtain ⟨draft, hdraft, rfl⟩ := List.mem_map.1 (mem_of_mem_withoutReplaced hc)
  -- the name is that of a draft, and of its name one class is kept
  obtain ⟨named, hnamed, rfl⟩ := List.mem_map.1 (h.finishClass hdraft v hv name hname)
  obtain ⟨kept, hkept, heq⟩ := exists_mem_withoutReplaced
    (List.mem_map_of_mem (f := Assembly.finishClass s.definitions) hnamed)
  exact List.mem_map.2 ⟨kept, hkept, heq⟩

end Assembly

/-- **EVERY CLASS THAT AN OUTLINE REFERS TO IS IN IT**, wherever in a value or default the
reference stands and however it was found. -/
theorem UnitOutline.references_subset_classNames (cfg : Config) (unit source : Text) :
    (UnitOutline.ofSource cfg unit source).references
      ⊆ (UnitOutline.ofSource cfg unit source).classNames := by
  intro name hname
  obtain ⟨c, hc, hname⟩ := List.mem_flatMap.1 hname
  obtain ⟨v, hv, hname⟩ := List.mem_flatMap.1 hname
  exact (Assembly.closed_empty.takeAll _).finish c hc v hv name hname

/-- A class that is found by its last part, before it has started. -/
example :
    (UnitOutline.ofSource {} [] "class A:\n x = [B]\n class B: 1".toList).references
      = ["A.B".toList] := by
  decide +kernel

end ClassOutline
