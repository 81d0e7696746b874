/-
  ClassOutline.Proofs.Event.Nested
  ────────────────────────────────
  **THE EVENTS OF A SOURCE ARE PROPERLY NESTED AND SCOPED.**

  A class or method is a block of events, from its start to its end.  `Nested`
  is the grammar of such events: blocks stand inside one another or side by
  side, each start is matched by an end of the same name, and every event
  stands where its kind may stand (`Event.StandsIn`).

  The proof goes through the stack of open blocks.  `NestedFrom` reads events
  with a stack and needs no look-ahead; each move of a reader keeps it
  (`Move.continues`), for the open blocks are the class and method frames of
  its context.  What a stack accepts, the grammar derives (`NestedFrom.nested`).
-/
import ClassOutline.Proofs.Event.Move

namespace ClassOutline

/-! ## §1. Blocks and the grammar of events. -/

/-- A class or method between its start and its end. -/
inductive Block where
  | classBlock (name : Text)
  | methodBlock (name : Text)
  deriving DecidableEq, Repr

namespace Event

/-- The block that an event starts. -/
def starts? : Event → Option Block
  | classStart c => some (.classBlock c.name)
  | methodStart m => some (.methodBlock m.name)
  | _ => none

/-- The block that an event ends. -/
def ends? : Event → Option Block
  | classEnd name => some (.classBlock name)
  | methodEnd name _ => some (.methodBlock name)
  | _ => none

/-- An event may stand in a place, directly after another event.  The place is the innermost
open block, `none` outside all blocks.  Where an end stands is said by the block it ends. -/
def StandsIn (cfg : Config) (place : Option Block) (previous : Option Event) : Event → Prop
  | classStart c =>
    place = none ∨ ∃ outer name, place = some (.classBlock outer) ∧ Text.isName name = true
      ∧ c.name = outer ++ '.' :: name
  | methodStart _ | classAssignment _ | decorator .. => ∃ outer, place = some (.classBlock outer)
  | selfAssignment _ => place = some (.methodBlock cfg.constructorName)
  | moduleAssignment .. => place = none
  | docstring .. => ∃ start b, previous = some start ∧ start.starts? = some b
  | classEnd _ | methodEnd .. | ignored .. => True

/-- What a frame ends with is the end of a block. -/
theorem isSome_ends?_of_mem_ends {f : Frame} {e : Event} (h : e ∈ f.ends) :
    e.ends?.isSome = true := by
  unfold Frame.ends at h
  split at h
  · rw [List.mem_singleton.1 h]
    rfl
  · rw [List.mem_singleton.1 h]
    rfl
  · exact absurd h List.not_mem_nil
  · exact absurd h List.not_mem_nil

/-- Frames are closed by ends of blocks alone. -/
theorem isSome_ends?_of_mem_closeFrames {indent : Column} {fs : List Frame} {e : Event}
    (h : e ∈ (closeFrames indent fs).1) : e.ends?.isSome = true := by
  induction fs with
  | nil => exact absurd h List.not_mem_nil
  | cons f fs ih =>
      rw [closeFrames] at h
      split at h
      · exact (List.mem_append.1 h).elim isSome_ends?_of_mem_ends ih
      · exact absurd h List.not_mem_nil

end Event

/-- Events that stand in a place directly after another event, all blocks among them whole. -/
inductive Nested (cfg : Config) : Option Block → Option Event → List Event → Prop where
  | nil {place : Option Block} {previous : Option Event} : Nested cfg place previous []
  | single {place : Option Block} {previous : Option Event} {e : Event} {es : List Event}
      (noStart : e.starts? = none) (noEnd : e.ends? = none)
      (here : e.StandsIn cfg place previous) (rest : Nested cfg place (some e) es) :
      Nested cfg place previous (e :: es)
  /-- A block: its start, what is inside, and its end. -/
  | block {place : Option Block} {previous : Option Event} {start ending : Event} {b : Block}
      {body es : List Event} (starts : start.starts? = some b) (ends : ending.ends? = some b)
      (here : start.StandsIn cfg place previous) (inside : Nested cfg (some b) (some start) body)
      (rest : Nested cfg place (some ending) es) :
      Nested cfg place previous (start :: (body ++ ending :: es))

/-! ## §2. Reading events with a stack. -/

/-- Events that can follow when the given blocks are open, the innermost first, and that leave
none open. -/
def NestedFrom (cfg : Config) : List Block → Option Event → List Event → Prop
  | opened, _, [] => opened = []
  | opened, previous, e :: es =>
    e.StandsIn cfg opened.head? previous ∧
      match e.starts?, e.ends? with
      | some b, _ => NestedFrom cfg (b :: opened) (some e) es
      | none, some b => opened.head? = some b ∧ NestedFrom cfg opened.tail (some e) es
      | none, none => NestedFrom cfg opened (some e) es

/-- Events up to the end of the innermost open block are derived by the grammar; what follows
is read with the other blocks. -/
theorem NestedFrom.split {cfg : Config} (n : Nat) :
    ∀ {opened : List Block} {previous : Option Event} {es : List Event}, es.length ≤ n →
      NestedFrom cfg opened previous es →
      ∃ body rest, es = body ++ rest ∧ Nested cfg opened.head? previous body ∧
        match opened with
        | [] => rest = []
        | b :: outer => ∃ ending later, rest = ending :: later ∧ ending.ends? = some b
            ∧ NestedFrom cfg outer (some ending) later := by
  induction n with
  | zero =>
      intro opened previous es hlen h
      obtain rfl := List.length_eq_zero_iff.1 (Nat.le_zero.1 hlen)
      obtain rfl : opened = [] := h
      exact ⟨[], [], rfl, .nil, rfl⟩
  | succ n ih =>
      intro opened previous es hlen h
      cases es with
      | nil =>
          obtain rfl : opened = [] := h
          exact ⟨[], [], rfl, .nil, rfl⟩
      | cons e es =>
          have hes : es.length ≤ n := Nat.le_of_succ_le_succ hlen
          obtain ⟨here, h⟩ := h
          split at h
          -- A block starts: first its inside, then what follows its end.
          · next b hstart =>
            obtain ⟨inside, _, rfl, hinside, ending, later, rfl, hend, hlater⟩ := ih hes h
            have hshort : later.length ≤ n := by
              rw [List.length_append, List.length_cons] at hes
              omega
            obtain ⟨body, rest, rfl, hbody, hrest⟩ := ih hshort hlater
            refine ⟨e :: (inside ++ ending :: body), rest, ?_, ?_, hrest⟩
            · simp only [List.cons_append, List.append_assoc]
            · exact .block hstart hend here hinside hbody
          -- The innermost block ends: nothing more is inside it.
          · next b hstart hend =>
            obtain ⟨hhead, htail⟩ := h
            cases opened with
            | nil => contradiction
            | cons b' outer =>
                obtain rfl := Option.some.inj hhead
                exact ⟨[], e :: es, rfl, .nil, e, es, rfl, hend, htail⟩
          · next hstart hend =>
            obtain ⟨body, rest, rfl, hbody, hrest⟩ := ih hes h
            exact ⟨e :: body, rest, rfl, .single hstart hend here hbody, hrest⟩

/-- **What a stack accepts, the grammar derives.** -/
theorem NestedFrom.nested {cfg : Config} {previous : Option Event} {es : List Event}
    (h : NestedFrom cfg [] previous es) : Nested cfg none previous es := by
  obtain ⟨body, rest, rfl, hbody, rfl⟩ := NestedFrom.split es.length (Nat.le_refl _) h
  rw [List.append_nil]
  exact hbody

/-! ## §3. The blocks of a context. -/

/-- The block that a frame stands for. -/
def Frame.block? (f : Frame) : Option Block :=
  match f.kind with
  | .classBody name => some (.classBlock name)
  | .methodBody name _ _ _ => some (.methodBlock name)
  | .skipped | .block => none

/-- The open blocks, the innermost first. -/
def openBlocks (fs : List Frame) : List Block := fs.filterMap Frame.block?

/-- A method's frame knows whether the method is the constructor. -/
def Frame.NamesConstructor (cfg : Config) (f : Frame) : Prop :=
  match f.kind with
  | .methodBody name isConstructor _ _ => isConstructor = (name == cfg.constructorName)
  | .classBody _ | .skipped | .block => True

/-- A scope is what the open blocks say it is. -/
def Scope.Matches (cfg : Config) (opened : List Block) : Scope → Prop
  | .module => opened = []
  | .classBody name => opened.head? = some (.classBlock name)
  | .methodBody isConstructor _ =>
    ∃ name, opened.head? = some (.methodBlock name) ∧ isConstructor = (name == cfg.constructorName)
  | .skipped => True

theorem scopeOf_matches {cfg : Config} {fs : List Frame}
    (h : ∀ f ∈ fs, f.NamesConstructor cfg) : (scopeOf fs).Matches cfg (openBlocks fs) := by
  induction fs with
  | nil => exact rfl
  | cons f fs ih =>
      have later := ih fun g hg => h g (List.mem_cons_of_mem _ hg)
      have hf := h f List.mem_cons_self
      obtain ⟨kind, indent, bodySeen⟩ := f
      cases kind with
      | classBody name => exact rfl
      | methodBody name isConstructor selfName body => exact ⟨name, rfl, hf⟩
      | skipped => exact trivial
      | block => exact later

/-- Adding a line to a body is not seen by what ignores bodies. -/
theorem map_recordLine {α : Type} (g : Frame → α)
    (hg : ∀ name isConstructor selfName body body' indent bodySeen,
      g ⟨.methodBody name isConstructor selfName body, indent, bodySeen⟩
        = g ⟨.methodBody name isConstructor selfName body', indent, bodySeen⟩)
    (indent : Column) (text : Text) (fs : List Frame) :
    (recordLine indent text fs).map g = fs.map g := by
  induction fs with
  | nil => rfl
  | cons f fs ih =>
      obtain ⟨kind, column, bodySeen⟩ := f
      cases kind with
      | methodBody name isConstructor selfName body =>
          show g _ :: fs.map g = g _ :: fs.map g
          rw [hg _ _ _ _ body]
      | classBody name => exact congrArg (g _ :: ·) ih
      | skipped => exact congrArg (g _ :: ·) ih
      | block => exact congrArg (g _ :: ·) ih

theorem openBlocks_eq_of_map_eq {fs gs : List Frame}
    (h : fs.map Frame.block? = gs.map Frame.block?) : openBlocks fs = openBlocks gs := by
  have ids (fs : List Frame) : openBlocks fs = (fs.map Frame.block?).filterMap id := by
    rw [List.filterMap_map]
    rfl
  rw [ids, ids, h]

/-- The invariant that ties frames to the event made last: a body without a statement is the
innermost one, and has just been opened. -/
structure FramesFit (cfg : Config) (fs : List Frame) (previous : Option Event) : Prop where
  constructors : ∀ f ∈ fs, f.NamesConstructor cfg
  seen : ∀ f ∈ fs.tail, f.bodySeen = true
  fresh : fs.head?.any Frame.takesDocstring = true →
    ∃ start b, previous = some start ∧ start.starts? = some b

namespace FramesFit

variable {cfg : Config} {c : Context} {previous : Option Event}

/-- Nothing is required of the last event once the innermost body has a statement. -/
theorem of_seen {fs : List Frame} (constructors : ∀ f ∈ fs, f.NamesConstructor cfg)
    (seen : ∀ f ∈ fs, f.bodySeen = true) (previous : Option Event) :
    FramesFit cfg fs previous := by
  refine ⟨constructors, fun f hf => seen f (List.mem_of_mem_tail hf), ?_⟩
  intro h
  cases fs with
  | nil => contradiction
  | cons f fs =>
      have hseen := seen f List.mem_cons_self
      rw [List.head?_cons, Option.any_some, Frame.takesDocstring] at h
      split at h <;> simp [hseen] at h

/-- The frames that are left when the innermost one is closed. -/
theorem closed {f : Frame} {fs : List Frame} (h : FramesFit cfg (f :: fs) previous)
    (next : Option Event) : FramesFit cfg fs next :=
  of_seen (fun g hg => h.constructors g (List.mem_cons_of_mem _ hg)) h.seen next

theorem constructors_enterBody (h : FramesFit cfg c.frames previous) :
    ∀ f ∈ c.enterBody.frames, f.NamesConstructor cfg := by
  have hc := h.constructors
  unfold Context.enterBody
  dsimp only
  split
  · exact fun f hf => absurd hf List.not_mem_nil
  · next f fs hfs =>
    rw [hfs] at hc
    intro g hg
    rcases List.mem_cons.1 hg with rfl | hg
    · exact hc f List.mem_cons_self
    · exact hc g (List.mem_cons_of_mem _ hg)

theorem seen_enterBody (h : FramesFit cfg c.frames previous) :
    ∀ f ∈ c.enterBody.frames, f.bodySeen = true := by
  have hs := h.seen
  unfold Context.enterBody
  dsimp only
  split
  · exact fun f hf => absurd hf List.not_mem_nil
  · next f fs hfs =>
    rw [hfs] at hs
    intro g hg
    rcases List.mem_cons.1 hg with rfl | hg
    · rfl
    · exact hs g hg

/-- A statement that opens nothing. -/
theorem entered (h : FramesFit cfg c.frames previous) (next : Option Event) :
    FramesFit cfg c.enterBody.frames next :=
  of_seen h.constructors_enterBody h.seen_enterBody next

/-- A statement that opens a frame; if it is one of a block, the last event started it. -/
theorem pushed (h : FramesFit cfg c.frames previous) {f : Frame} {next : Option Event}
    (hf : f.NamesConstructor cfg)
    (hnext : f.takesDocstring = true → ∃ start b, next = some start ∧ start.starts? = some b) :
    FramesFit cfg (f :: c.enterBody.frames) next := by
  refine ⟨?_, h.seen_enterBody, hnext⟩
  intro g hg
  rcases List.mem_cons.1 hg with rfl | hg
  · exact hf
  · exact h.constructors_enterBody g hg

theorem recorded {fs : List Frame} (h : FramesFit cfg fs previous) (indent : Column)
    (text : Text) : FramesFit cfg (recordLine indent text fs) previous := by
  have constructors : (recordLine indent text fs).map (Frame.NamesConstructor cfg) = _ :=
    map_recordLine _ (fun _ _ _ _ _ _ _ => rfl) indent text fs
  have seen : (recordLine indent text fs).map Frame.bodySeen = _ :=
    map_recordLine _ (fun _ _ _ _ _ _ _ => rfl) indent text fs
  have first : (recordLine indent text fs).map Frame.takesDocstring = _ :=
    map_recordLine _ (fun _ _ _ _ _ _ _ => rfl) indent text fs
  refine ⟨?_, ?_, ?_⟩
  · have hc : ∀ p ∈ fs.map (Frame.NamesConstructor cfg), p :=
      List.forall_mem_map.2 h.constructors
    rw [← constructors] at hc
    exact fun f hf => hc _ (List.mem_map_of_mem hf)
  · have hs : ∀ b ∈ fs.tail.map Frame.bodySeen, b = true := List.forall_mem_map.2 h.seen
    rw [List.map_tail, ← seen, ← List.map_tail] at hs
    exact List.forall_mem_map.1 hs
  · have hf : (fs.map Frame.takesDocstring).head?.any id = true →
        ∃ start b, previous = some start ∧ start.starts? = some b := by
      rw [List.head?_map, Option.any_map]
      exact h.fresh
    rw [← first, List.head?_map, Option.any_map] at hf
    exact hf

end FramesFit

/-! ## §4. Every move keeps the nesting. -/

theorem openBlocks_enterBody (c : Context) : openBlocks c.enterBody.frames = openBlocks c.frames := by
  unfold Context.enterBody
  cases c.frames with
  | nil => rfl
  | cons f fs => rfl

theorem openBlocks_recordLine (indent : Column) (text : Text) (fs : List Frame) :
    openBlocks (recordLine indent text fs) = openBlocks fs :=
  openBlocks_eq_of_map_eq (map_recordLine _ (fun _ _ _ _ _ _ _ => rfl) indent text fs)

/-- The first statement of a body does not stand where nothing counts. -/
theorem scope_ne_skipped_of_isFirstInBody {c : Context} (h : c.isFirstInBody = true) :
    c.scope ≠ .skipped := by
  unfold Context.isFirstInBody at h
  unfold Context.scope
  cases hfs : c.frames with
  | nil => exact Scope.noConfusion
  | cons f fs =>
      obtain ⟨kind, indent, bodySeen⟩ := f
      rw [hfs] at h
      cases kind with
      | classBody name => exact Scope.noConfusion
      | methodBody name isConstructor selfName body => exact Scope.noConfusion
      | skipped => contradiction
      | block => contradiction

/-- An assignment starts and ends nothing. -/
theorem Scope.assign_quiet (scope : Scope) (line : Nat) (value : Text) (target : Target) :
    (scope.assign line value target).starts? = none
      ∧ (scope.assign line value target).ends? = none := by
  unfold Scope.assign
  split
  · split <;> exact ⟨rfl, rfl⟩
  · split <;> exact ⟨rfl, rfl⟩
  · split <;> exact ⟨rfl, rfl⟩
  · exact ⟨rfl, rfl⟩
  · exact ⟨rfl, rfl⟩

/-- The event of an assignment stands where its scope says. -/
theorem assign_standsIn {cfg : Config} {opened : List Block} {scope : Scope}
    (h : scope.Matches cfg opened) (line : Nat) (value : Text) (target : Target)
    (previous : Option Event) :
    (scope.assign line value target).StandsIn cfg opened.head? previous
      ∧ (scope.assign line value target).starts? = none
      ∧ (scope.assign line value target).ends? = none := by
  unfold Scope.assign
  split
  · obtain rfl : opened = [] := h
    split
    · exact ⟨rfl, rfl, rfl⟩
    · exact ⟨trivial, rfl, rfl⟩
  · next outer =>
    split
    · exact ⟨⟨outer, h⟩, rfl, rfl⟩
    · exact ⟨trivial, rfl, rfl⟩
  -- In the constructor the innermost block has the configured name.
  · obtain ⟨name, hhead, hname⟩ := h
    split
    · have hname : name = cfg.constructorName := by simpa using hname.symm
      rw [hname] at hhead
      exact ⟨hhead, rfl, rfl⟩
    · exact ⟨trivial, rfl, rfl⟩
  · exact ⟨trivial, rfl, rfl⟩
  · exact ⟨trivial, rfl, rfl⟩

/-- The open blocks after some frames have been closed, pushed or entered, and what may follow
them, if what may follow the frames before is known. -/
def Continues (cfg : Config) (before : List Frame) (previous : Option Event) (es : List Event)
    (after : List Frame) : Prop :=
  ∃ next, FramesFit cfg after next ∧ ∀ rest, NestedFrom cfg (openBlocks after) next rest →
    NestedFrom cfg (openBlocks before) previous (es ++ rest)

theorem Frame.close_continues {cfg : Config} {f : Frame} {fs : List Frame}
    {previous : Option Event} (h : FramesFit cfg (f :: fs) previous) :
    Continues cfg (f :: fs) previous f.ends fs := by
  obtain ⟨kind, indent, bodySeen⟩ := f
  cases kind with
  | classBody name =>
      exact ⟨some (.classEnd name), h.closed _, fun rest hr => ⟨trivial, rfl, hr⟩⟩
  | methodBody name isConstructor selfName body =>
      exact ⟨some (.methodEnd name (methodSource body)), h.closed _,
        fun rest hr => ⟨trivial, rfl, hr⟩⟩
  | skipped => exact ⟨previous, h.closed _, fun rest hr => hr⟩
  | block => exact ⟨previous, h.closed _, fun rest hr => hr⟩

/-- **Each move keeps the nesting**: what may follow its context may follow its events. -/
theorem Move.continues {cfg : Config} {c c' : Context} {es : List Event}
    {previous : Option Event} (move : Move cfg c es c') (h : FramesFit cfg c.frames previous) :
    Continues cfg c.frames previous es c'.frames := by
  have scopeMatches : c.scope.Matches cfg (openBlocks c.frames) := scopeOf_matches h.constructors
  -- One event that neither starts nor ends a block, by a statement that opens none.
  have one {e : Event} (here : e.StandsIn cfg (openBlocks c.frames).head? previous)
      (hstart : e.starts? = none) (hend : e.ends? = none) :
      Continues cfg c.frames previous [e] c.enterBody.frames := by
    refine ⟨some e, h.entered _, fun rest hr => ⟨here, ?_⟩⟩
    rw [openBlocks_enterBody] at hr
    rw [hstart, hend]
    exact hr
  -- A header that opens no block of events.
  have ignored (reason : IgnoreReason) (line : Nat) {f : Frame} (hf : f.block? = none)
      (hconstructor : f.NamesConstructor cfg) (hdoc : f.takesDocstring ≠ true) :
      Continues cfg c.frames previous [.ignored reason line] (f :: c.enterBody.frames) := by
    refine ⟨some (.ignored reason line), h.pushed hconstructor (fun hd => absurd hd hdoc),
      fun rest hr => ⟨trivial, ?_⟩⟩
    rw [openBlocks, List.filterMap_cons_none hf, ← openBlocks, openBlocks_enterBody] at hr
    exact hr
  cases move with
  | @close f fs hfs =>
      rw [hfs] at h ⊢
      exact Frame.close_continues h
  | record comments indent text =>
      refine ⟨previous, h.recorded indent text, fun rest hr => ?_⟩
      rw [← openBlocks_recordLine indent text c.frames]
      exact hr
  | skip line hs =>
      refine ⟨some (.ignored .functionBody line), ⟨h.constructors, h.seen, ?_⟩,
        fun rest hr => ⟨trivial, hr⟩⟩
      exact fun hf => absurd hs (scope_ne_skipped_of_isFirstInBody hf)
  | @decorate outer line name hs =>
      rw [hs] at scopeMatches
      exact one ⟨outer, scopeMatches⟩ rfl rfl
  | strayDecorator line hs => exact one trivial rfl rfl
  | malformed line indent => exact ignored _ line rfl trivial Bool.false_ne_true
  | @startOuter name line indent bases hs _ =>
      rw [hs] at scopeMatches
      refine ⟨some (.classStart ⟨name, bases, c.comment?, line⟩),
        h.pushed trivial fun _ => ⟨_, _, rfl, rfl⟩, fun rest hr => ⟨?_, ?_⟩⟩
      · exact .inl (congrArg List.head? scopeMatches)
      · rw [← openBlocks_enterBody]
        exact hr
  | @startInner outer name line indent bases hs hname =>
      rw [hs] at scopeMatches
      refine ⟨some (.classStart ⟨outer ++ '.' :: name, bases, c.comment?, line⟩),
        h.pushed trivial fun _ => ⟨_, _, rfl, rfl⟩, fun rest hr => ⟨?_, ?_⟩⟩
      · exact .inr ⟨outer, name, scopeMatches, hname, rfl⟩
      · rw [← openBlocks_enterBody]
        exact hr
  | @startMethod outer line indent name parameters isAsync hs =>
      rw [hs] at scopeMatches
      refine ⟨some (.methodStart ⟨name, parameters, c.decorators, isAsync, c.comment?, line⟩),
        h.pushed rfl fun _ => ⟨_, _, rfl, rfl⟩, fun rest hr => ⟨⟨outer, scopeMatches⟩, ?_⟩⟩
      rw [← openBlocks_enterBody]
      exact hr
  | skipBody reason line indent => exact ignored reason line rfl trivial Bool.false_ne_true
  | startBlock line indent => exact ignored _ line rfl trivial Bool.false_ne_true
  | docstring text line hf => exact one (h.fresh hf) rfl rfl
  | assign line value target =>
      obtain ⟨here, hstart, hend⟩ := assign_standsIn scopeMatches line value target previous
      exact one here hstart hend
  | pass reason line => exact one trivial rfl rfl

/-- A run of moves keeps the nesting. -/
theorem Moves.continues {cfg : Config} {c c' : Context} {es : List Event}
    (moves : Moves cfg c es c') : ∀ {previous : Option Event}, FramesFit cfg c.frames previous →
      Continues cfg c.frames previous es c'.frames := by
  induction moves with
  | refl c => exact fun h => ⟨_, h, fun rest hr => hr⟩
  | step move _ ih =>
      intro previous h
      obtain ⟨middle, hmiddle, first⟩ := move.continues h
      obtain ⟨last, hlast, later⟩ := ih hmiddle
      refine ⟨last, hlast, fun rest hr => ?_⟩
      rw [List.append_assoc]
      exact first _ (later rest hr)

/-! ## §5. The events of a source. -/

/-- The events of a source are read from the empty stack to the empty stack. -/
theorem Event.ofLines_nestedFrom (cfg : Config) (lines : List LogicalLine) :
    NestedFrom cfg [] none (Event.ofLines cfg lines).events := by
  obtain ⟨final, hfinal, moves⟩ := Event.ofLines_moves cfg lines
  have start : FramesFit cfg [] none :=
    .of_seen (fun f hf => absurd hf List.not_mem_nil) (fun f hf => absurd hf List.not_mem_nil) none
  obtain ⟨last, -, read⟩ : Continues cfg [] none _ final.frames := moves.continues start
  rw [hfinal] at read
  have h := read [] rfl
  rw [List.append_nil] at h
  exact h

/-- **THE EVENTS OF EVERY SOURCE ARE PROPERLY NESTED AND SCOPED**: every start is matched by a
later end of its name, the last one opened closes first, nothing stays open, and every event
stands in a place for its kind. -/
theorem Event.ofLines_nested (cfg : Config) (lines : List LogicalLine) :
    Nested cfg none none (Event.ofLines cfg lines).events :=
  (Event.ofLines_nestedFrom cfg lines).nested

end ClassOutline
