/-
  ClassOutline.Proofs.Checked.ShortLines
  ────────────────────────────────
  **NO RUN OVER SHORT LINES IS STOPPED.**

  Each line adds to the body of the method around it one row, and opens bodies with
  at most one row each, shorter than the line and as much further to the right.  So
  the room that lines take, added up, bounds the source of every method that is open
  behind them (`readLines_small`), and if it is less than a text has, all methods can
  be ended (`Checked.events_of_short`).

  Every value that a line gives to an attribute or a parameter is cut out of the
  line, so it can be classified if the brackets of the line can be counted
  (`Checked.classes_of_short`).
-/
import ClassOutline.Checked.Outlines
import ClassOutline.Proofs.Checked.Statements
import ClassOutline.Proofs.Nesting.Regrouping
import ClassOutline.Proofs.Text.Plain
import Mathlib.Algebra.GroupWithZero.Nat

namespace ClassOutline

/-! ## §1. Room for rows. -/

/-- What a row takes of the source of a method, at most: its blanks, its characters, of four bytes
at most, and the line break behind it. -/
def rowRoom (column : Nat) (text : Text) : Nat := column + 4 * text.length + 1

theorem add_lt_rowRoom (column : Nat) (text : Text) :
    column + 4 * text.length < rowRoom column text := Nat.lt_succ_self _

/-- The same for all rows of a body. -/
def bodyRoom (body : List (Column × Text)) : Nat := (body.map fun row => rowRoom row.1 row.2).sum

theorem Text.byteLength_le (t : Text) : t.byteLength ≤ 4 * t.length := by
  induction t with
  | nil => exact Nat.le_refl 0
  | cons c t ih =>
      have four := c.utf8Size_le_four
      rw [Text.byteLength_cons, List.length_cons]
      omega

/-- A source is as long as it is taken to be. -/
theorem byteLength_methodSource (body : List (Column × Text)) :
    (methodSource body).byteLength = sourceLength body := by
  have blanks (n : Nat) : Text.byteLength (List.replicate n ' ') = n := by
    induction n with
    | zero => rfl
    | succ n ih =>
        rw [List.replicate_succ, Text.byteLength_cons, ih, Nat.add_comm]
        rfl
  unfold methodSource sourceLength
  generalize (body.map Prod.fst).min?.getD 0 = margin
  dsimp only
  induction body with
  | nil => rfl
  | cons row body ih =>
      have padded : Text.byteLength (List.replicate (row.1 - margin) ' ' ++ row.2)
          = row.1 - margin + row.2.byteLength := by
        rw [Text.byteLength_append, blanks]
      cases body with
      | nil =>
          show Text.byteLength (_ ++ []) = _
          rw [List.append_nil, padded]
          rfl
      | cons next body =>
          -- one line break behind the row
          have whole (front behind : Text) : Text.byteLength (front ++ ("\n".toList ++ behind))
              = front.byteLength + (1 + behind.byteLength) := by
            rw [Text.byteLength_append, Text.byteLength_append]
            rfl
          rw [List.map_cons] at ih ⊢
          rw [List.map_cons, Text.join_cons_cons, whole, padded, ih, List.length_cons,
            List.length_cons, Nat.add_sub_cancel, Nat.add_sub_cancel, Nat.add_comm 1,
            Nat.add_assoc (paddedLength margin _), ← Nat.add_assoc]
          rfl

theorem paddedLength_le (margin : Nat) (body : List (Column × Text)) :
    paddedLength margin body + body.length ≤ bodyRoom body := by
  induction body with
  | nil => exact Nat.le_refl 0
  | cons row body ih =>
      have bytes := row.2.byteLength_le
      have padded : row.1 - margin ≤ row.1 := Nat.sub_le row.1 margin
      unfold bodyRoom rowRoom at ih ⊢
      rw [paddedLength, List.length_cons, List.map_cons, List.sum_cons]
      dsimp only [Column] at *
      omega

theorem sourceLength_le (body : List (Column × Text)) : sourceLength body ≤ bodyRoom body := by
  refine Nat.le_trans ?_ (paddedLength_le ((body.map Prod.fst).min?.getD 0) body)
  exact Nat.add_le_add_left (Nat.sub_le body.length 1) _

/-- The room of the body that a frame keeps. -/
def Frame.room (f : Frame) : Nat :=
  match f.kind with
  | .methodBody _ _ _ body => bodyRoom body
  | .classBody _ | .skipped | .block => 0

theorem Frame.endFits_of_room {f : Frame} (h : f.room < textLimit) : f.endFits = true := by
  obtain ⟨kind, indent, bodySeen⟩ := f
  cases kind with
  | methodBody name isConstructor selfName body =>
      exact decide_eq_true (Nat.lt_of_le_of_lt (sourceLength_le body) h)
  | classBody name => rfl
  | skipped => rfl
  | block => rfl

theorem closingFits_of_room {indent : Column} {fs : List Frame}
    (h : ∀ f ∈ fs, f.room < textLimit) : closingFits indent fs = true := by
  induction fs with
  | nil => rfl
  | cons f fs ih =>
      obtain ⟨first, later⟩ := List.forall_mem_cons.1 h
      rw [closingFits, Frame.endFits_of_room first, ih later]
      exact Bool.or_true _

/-- A line that is recorded takes room in one body. -/
theorem room_recordLine_le {used : Nat} {fs : List Frame} (h : ∀ f ∈ fs, f.room ≤ used)
    (indent : Nat) (text : Text) :
    ∀ f ∈ recordLine indent text fs, f.room ≤ used + rowRoom indent text := by
  induction fs with
  | nil => exact fun _ hf => absurd hf List.not_mem_nil
  | cons f fs ih =>
      obtain ⟨first, later⟩ := List.forall_mem_cons.1 h
      have more {g : Frame} (hg : g.room ≤ used) : g.room ≤ used + rowRoom indent text :=
        Nat.le_add_right_of_le hg
      obtain ⟨kind, column, bodySeen⟩ := f
      cases kind with
      | methodBody name isConstructor selfName body =>
          refine List.forall_mem_cons.2 ⟨?_, fun g hg => more (later g hg)⟩
          have whole :
              bodyRoom (body ++ [(indent, text)]) = bodyRoom body + rowRoom indent text := by
            unfold bodyRoom
            rw [List.map_append, List.sum_append, List.map_singleton, List.sum_singleton]
          show bodyRoom (body ++ [(indent, text)]) ≤ _
          rw [whole]
          exact Nat.add_le_add_right first _
      | classBody name => exact List.forall_mem_cons.2 ⟨more first, ih later⟩
      | skipped => exact List.forall_mem_cons.2 ⟨more first, ih later⟩
      | block => exact List.forall_mem_cons.2 ⟨more first, ih later⟩

/-! ## §2. Statements of a text of so many characters. -/

namespace Statement

theorem length_chain_le (value : Text) : (chain value).2.length ≤ value.length := by
  fun_induction chain value with
  | case1 value a ha hends => exact Nat.le_refl _
  | case2 value a ha hends targets last hchain ih =>
      have shorter := Text.length_value_lt_of_assignment? ha
      have trimmed := a.value.length_trim_le
      rw [hchain] at ih
      dsimp only at ih ⊢
      omega
  | case3 value ha => exact Nat.le_refl _

mutual

/-- The statement has the lengths that one of so many characters has: arguments, inline bodies and
values are parts of its text, and what is inside a header has fewer characters. -/
def Within : Statement → Nat → Prop
  | .classDef _ _ body, n => 0 < n ∧ body.Within (n - 1)
  | .functionDef header body, n =>
    header.arguments.length < n ∧ header.body.length < n ∧ body.Within (n - 1)
  | .block body, n => 0 < n ∧ body.Within (n - 1)
  | .sequence parts, n => AllWithin parts n
  | .assignment _ value, n => value.length ≤ n
  | _, _ => True

/-- `Within` for each of the statements. -/
def AllWithin : List Statement → Nat → Prop
  | [], _ => True
  | s :: rest, n => s.Within n ∧ AllWithin rest n

end

variable {inner : Text → Statement} {t : Text} {n : Nat}

theorem allWithin_map {ts : List Text} (h : ∀ s ∈ ts, (inner s).Within n) :
    AllWithin (ts.map inner) n := by
  induction ts with
  | nil => exact trivial
  | cons s ts ih =>
      obtain ⟨first, later⟩ := List.forall_mem_cons.1 h
      exact ⟨first, ih later⟩

theorem ofPlain_within (ht : t.length ≤ n) : (ofPlain t).Within n := by
  unfold ofPlain ofAssignment ofExpression
  split
  · exact trivial
  split
  · next a ha =>
    split
    · exact trivial
    · have shorter := Text.length_value_lt_of_assignment? ha
      have trimmed := a.value.length_trim_le
      have last := length_chain_le a.value.trim
      show (chain a.value.trim).2.length ≤ n
      omega
  · split
    · exact trivial
    split
    · exact trivial
    split
    · exact trivial
    split <;> exact trivial

theorem ofFunction_within (h : ∀ (s : Text) (m : Nat), s.length ≤ m → (inner s).Within m)
    {rest : Text} (hrest : rest.length ≤ n) (isAsync : Bool) :
    (ofFunction inner isAsync t rest).Within n := by
  unfold ofFunction
  split
  · next name arguments body hheader =>
    have inside : arguments.length < rest.length :=
      Text.length_arguments_lt_of_header? hheader rfl
    have shorter : body.length < rest.length := Text.length_body_lt_of_header? hheader
    exact ⟨Nat.lt_of_lt_of_le inside hrest, Nat.lt_of_lt_of_le shorter hrest, h _ _ (by omega)⟩
  · exact trivial

theorem parseForm_within (h : ∀ (s : Text) (m : Nat), s.length ≤ m → (inner s).Within m)
    (ht : t.length ≤ n) : (parseForm inner t).Within n := by
  unfold parseForm
  split
  · exact trivial
  split
  · exact trivial
  -- headers of classes and functions
  split
  · next rest hrest =>
    have behind := Text.length_afterKeyword?_lt (by decide) hrest
    unfold ofClass
    split
    · next x hx =>
      have shorter := Text.length_body_lt_of_header? hx
      exact ⟨by omega, h _ _ (by omega)⟩
    · exact trivial
  split
  · next rest hrest =>
    have behind := Text.length_afterKeyword?_lt (by decide) hrest
    exact ofFunction_within h (by omega) false
  split
  · next rest hrest =>
    obtain ⟨middle, hasync, hdef⟩ := Option.bind_eq_some_iff.1 hrest
    have behindAsync := Text.length_afterKeyword?_lt (by decide) hasync
    have behindDef := Text.length_afterKeyword?_lt (by decide) hdef
    exact ofFunction_within h (by omega) true
  -- blocks, rows and single statements
  split
  · next body hbody =>
    have shorter := Text.length_lt_of_blockBody? hbody
    exact ⟨by omega, h _ _ (by omega)⟩
  split
  · next hlen =>
    refine allWithin_map fun s hs => h s n ?_
    have shorter := Text.length_lt_of_mem_splitTopLevel hs hlen
    omega
  · exact ofPlain_within ht

/-- **The parts of a statement have the lengths of parts of its text.** -/
theorem parse_within (t : Text) : (parse t).Within t.length := by
  have within (layers : Nat) : ∀ (s : Text) (m : Nat), s.length ≤ m →
      (parseWithin layers s).Within m := by
    induction layers with
    | zero => exact fun _ _ _ => trivial
    | succ layers ih =>
        exact fun s m hs => parseForm_within ih (Nat.le_trans s.length_trim_le hs)
  exact within _ t _ (Nat.le_refl _)

end Statement

/-! ## §3. What statements leave. -/

/-- The values in the event have so many characters at most. -/
def Event.ValuesWithin (n : Nat) : Event → Prop
  | methodStart start => ∀ p ∈ start.parameters, ∀ d ∈ p.default, d.length ≤ n
  | classAssignment written | selfAssignment written => written.value.length ≤ n
  | moduleAssignment _ value _ => value.length ≤ n
  | classStart _ | classEnd _ | methodEnd .. | docstring .. | decorator .. | ignored .. => True

/-- So have those in all events of a list. -/
def ValuesWithin (n : Nat) (es : List Event) : Prop := ∀ e ∈ es, e.ValuesWithin n

namespace ValuesWithin

variable {n : Nat} {es es' : List Event}

theorem nil : ValuesWithin n [] := fun _ he => absurd he List.not_mem_nil

theorem single {e : Event} (he : e.ValuesWithin n) : ValuesWithin n [e] :=
  List.forall_mem_singleton.2 he

theorem append (h : ValuesWithin n es) (h' : ValuesWithin n es') : ValuesWithin n (es ++ es') :=
  fun e he => (List.mem_append.1 he).elim (h e) (h' e)

end ValuesWithin

namespace Text

/-- An item has no more characters than the text. -/
theorem length_le_of_mem_adjacentItems {t item : Text} (h : item ∈ t.adjacentItems) :
    item.length ≤ t.length := by
  obtain ⟨runs, flat, items, -⟩ := t.exists_runs_adjacentItems
  rw [items] at h
  obtain ⟨run, hrun, rfl⟩ := List.mem_map.1 h
  have all : (t.atomized.atoms.flatMap fun a => a.gap ++ a.text).length ≤ t.length := by
    have whole := congrArg List.length t.eq_atoms_append_trailing
    rw [List.length_append] at whole
    omega
  have part : (run.flatMap fun a => a.gap ++ a.text).length
      ≤ (t.atomized.atoms.flatMap fun a => a.gap ++ a.text).length := by
    rw [flat]
    exact ((List.sublist_flatten_of_mem hrun).flatMap _).length_le
  have cut : (runText run).length ≤ (run.flatMap fun a => a.gap ++ a.text).length := by
    cases run with
    | nil => exact Nat.le_refl 0
    | cons a as =>
        unfold runText
        rw [List.flatMap_cons, List.length_append, List.length_append, List.length_append]
        omega
  omega

/-- The default of a parameter is a part of what writes it. -/
theorem length_default_le {t : Text} {p : WrittenParameter} (h : t.parameter? = some p) {d : Text}
    (hd : d ∈ p.default) : d.length ≤ t.length := by
  rw [parameter?_eq, Option.ite_none_right_eq_some] at h
  obtain ⟨-, hp⟩ := h
  obtain rfl := Option.some.inj hp
  obtain ⟨hbehind, -⟩ := Option.filter_eq_some_iff.1 hd
  unfold behindSign? at hbehind
  split at hbehind
  · next a ha =>
    split at hbehind
    · exact nomatch hbehind
    · obtain rfl := Option.some.inj hbehind
      have shorter := length_value_lt_of_assignment? ha
      have trimmed := a.value.length_trim_le
      have whole := congrArg List.length t.stars_append_starred
      rw [List.length_append] at whole
      omega
  · exact nomatch hbehind

/-- So are the defaults of all parameters that a text lists. -/
theorem length_default_le_of_mem_parameters {t : Text} {p : WrittenParameter}
    (h : p ∈ t.parameters.value) {d : Text} (hd : d ∈ p.default) : d.length ≤ t.length := by
  obtain ⟨r, hr, hp⟩ := List.mem_flatMap.1 h
  obtain ⟨piece, hpiece, rfl⟩ := List.mem_map.1 hr
  obtain ⟨r', hr', hp⟩ := List.mem_flatMap.1 hp
  obtain ⟨part, hpart, rfl⟩ := List.mem_map.1 hr'
  have comma := length_add_le_of_mem_splitTopLevel (List.mem_filter.1 hpiece).1
  have several : 0 < (t.splitTopLevel ',').length :=
    List.length_pos_of_mem (List.mem_filter.1 hpiece).1
  have item := length_le_of_mem_adjacentItems hpart
  have value : d.length ≤ part.length := by
    unfold parameterItem at hp
    split at hp
    · exact absurd hp List.not_mem_nil
    split at hp
    · next q hq =>
      obtain rfl := List.mem_singleton.1 hp
      exact length_default_le hq hd
    · exact absurd hp List.not_mem_nil
  omega

end Text

namespace Context

/-- Each body that is kept in the context takes so much room at most. -/
def BodiesWithin (room : Nat) (c : Context) : Prop := ∀ f ∈ c.frames, f.room ≤ room

variable {room : Nat} {c : Context}

theorem BodiesWithin.enterBody (h : c.BodiesWithin room) : c.enterBody.BodiesWithin room := by
  obtain ⟨frames, decorators, comments, headerComments⟩ := c
  cases frames with
  | nil => exact h
  | cons f fs =>
      obtain ⟨first, later⟩ := List.forall_mem_cons.1 h
      exact List.forall_mem_cons.2 ⟨first, later⟩

/-- A frame that is opened, with an empty body if it keeps one. -/
theorem BodiesWithin.push (h : c.BodiesWithin room) {kind : FrameKind} {indent : Column}
    (hkind : Frame.room ⟨kind, indent, false⟩ = 0) : (c.push kind indent).BodiesWithin room :=
  List.forall_mem_cons.2 ⟨Nat.le_trans (Nat.le_of_eq hkind) (Nat.zero_le room), h⟩

end Context

/-- A result with bodies and values of limited lengths. -/
structure StaysSmall (room n : Nat) (r : Context × EventOutput) : Prop where
  bodies : r.1.BodiesWithin room
  values : ValuesWithin n r.2.events

namespace Context

variable (cfg : Config) (line indent : Nat) {room n : Nat} {c : Context}

theorem skipBody_small (h : c.BodiesWithin room) (reason : IgnoreReason) :
    StaysSmall room n (skipBody reason line indent c) :=
  ⟨h.push rfl, .single trivial⟩

theorem openClass_small (h : c.BodiesWithin room) (name : Text) (bases : List Text) :
    StaysSmall room n (c.openClass line indent name bases) := by
  have claimed : c.claimPending.BodiesWithin room := h
  unfold openClass
  dsimp only
  split
  · exact ⟨claimed.push rfl, .single trivial⟩
  · exact ⟨claimed.push rfl, .single trivial⟩
  · exact skipBody_small line indent claimed _
  · exact skipBody_small line indent claimed _

/-- The inline body of a method is the first row of its body. -/
theorem openFunction_small (h : c.BodiesWithin room) {header : FunctionHeader}
    (harguments : header.arguments.length ≤ n) (hbody : rowRoom (indent + 1) header.body ≤ room) :
    StaysSmall room n (c.openFunction cfg line indent header) := by
  have claimed : c.claimPending.BodiesWithin room := h
  have values : Event.ValuesWithin n (.methodStart ⟨header.name, header.arguments.parameters.value,
      c.decorators, header.isAsync, c.comment?, line⟩) := fun p hp d hd =>
    (Text.length_default_le_of_mem_parameters hp hd).trans harguments
  unfold openFunction
  dsimp only
  split
  · refine ⟨?_, .single values⟩
    split
    · exact claimed.push rfl
    · refine List.forall_mem_cons.2 ⟨?_, h⟩
      show bodyRoom [(indent + 1, header.body)] ≤ room
      unfold bodyRoom
      rwa [List.map_singleton, List.sum_singleton]
  · exact skipBody_small line indent claimed _
  · exact skipBody_small line indent claimed _
  · exact skipBody_small line indent claimed _

theorem noteDecorator_small (h : c.BodiesWithin room) (name : Text) :
    StaysSmall room n (c.noteDecorator line name) := by
  unfold noteDecorator
  dsimp only
  split
  · exact ⟨h, .single trivial⟩
  · exact ⟨h, .single trivial⟩

end Context

theorem Scope.valuesWithin_assign {n : Nat} {value : Text} (h : value.length ≤ n) (scope : Scope)
    (line : Nat) (target : Target) : (scope.assign line value target).ValuesWithin n := by
  unfold Scope.assign
  split
  · split
    · exact h
    · exact trivial
  · split
    · exact h
    · exact trivial
  · split
    · exact h
    · exact trivial
  · exact trivial
  · exact trivial

namespace Statement

variable (cfg : Config) (line : Nat) {room n : Nat}

theorem thenBody_small {header : Context × EventOutput} {act : Context → Context × EventOutput}
    (hheader : StaysSmall room n header) (hact : StaysSmall room n (act header.1)) :
    StaysSmall room n (thenBody header act) := by
  unfold thenBody
  split
  · exact hheader
  · exact ⟨hact.bodies, hheader.values.append hact.values⟩

theorem unlessSkipped_small {s : Statement} {act : Context → Context × EventOutput} {c : Context}
    (h : c.BodiesWithin room) (hact : StaysSmall room n (act c)) :
    StaysSmall room n (unlessSkipped line s act c) := by
  unfold unlessSkipped
  split
  · exact ⟨h, .nil⟩
  split
  · exact ⟨h, .single trivial⟩
  · exact hact

theorem docstringOr_values (contents : Text) (c : Context) :
    ValuesWithin n (docstringOr line contents c).events := by
  unfold docstringOr
  split <;> exact .single trivial

mutual

/-- **A STATEMENT OPENS NO BODY AND GIVES NO VALUE LONGER THAN ITSELF**: what is one column further
to the right has one character less at least. -/
theorem act_small (indent m : Nat) : ∀ (s : Statement) (c : Context), s.Within m → m ≤ n →
    indent + 4 * m < room → c.BodiesWithin room → StaysSmall room n (s.act cfg line indent c)
  | .empty, c, _, _, _, h => by
      rw [act]
      exact ⟨h, .nil⟩
  | .decorator name, c, _, _, _, h => by
      rw [act]
      exact Context.noteDecorator_small line h.enterBody name
  | .malformedHeader _ _, c, _, _, _, h => by
      have skipped : (c.enterBody.dropPending).BodiesWithin room := h.enterBody
      rw [act]
      exact ⟨skipped.push rfl, .single trivial⟩
  | .classDef name bases body, c, ⟨hm, hbody⟩, hn, hroom, h => by
      have opened : StaysSmall room n _ :=
        Context.openClass_small line indent h.enterBody name bases
      rw [act]
      exact thenBody_small opened
        (act_small (indent + 1) (m - 1) body _ hbody (by omega) (by omega) opened.bodies)
  | .functionDef header body, c, ⟨harguments, hinline, hbody⟩, hn, hroom, h => by
      have row : rowRoom (indent + 1) header.body ≤ room := by
        unfold rowRoom
        omega
      have opened := Context.openFunction_small cfg line indent h.enterBody
        (Nat.le_trans (Nat.le_of_lt harguments) hn) row
      rw [act]
      exact thenBody_small opened
        (act_small (indent + 1) (m - 1) body _ hbody (by omega) (by omega) opened.bodies)
  | .block body, c, ⟨hm, hbody⟩, hn, hroom, h => by
      have dropped : (c.enterBody.dropPending).BodiesWithin room := h.enterBody
      have opened : StaysSmall room n
          (c.enterBody.dropPending.push .block indent, .ignored .controlFlow line) :=
        ⟨dropped.push rfl, .single trivial⟩
      rw [act]
      exact thenBody_small opened
        (act_small (indent + 1) (m - 1) body _ hbody (by omega) (by omega) opened.bodies)
  | .sequence parts, c, hparts, hn, hroom, h => by
      rw [act]
      exact actAll_small indent m parts c hparts hn hroom h
  | .string contents, c, _, _, _, h => by
      rw [act]
      exact ⟨h.enterBody, docstringOr_values line contents c⟩
  | .assignment targets value, c, hvalue, hn, _, h => by
      rw [act]
      refine ⟨h.enterBody, List.forall_mem_map.2 fun target _ => ?_⟩
      exact c.scope.valuesWithin_assign (Nat.le_trans hvalue hn) line target
  | .inert reason, c, _, _, _, h => by
      rw [act]
      exact ⟨h.enterBody, .single trivial⟩
  | .unrecognized text, c, _, _, _, h => by
      rw [act]
      exact ⟨h.enterBody, .single trivial⟩

/-- Neither do several statements. -/
theorem actAll_small (indent m : Nat) : ∀ (ss : List Statement) (c : Context), AllWithin ss m →
    m ≤ n → indent + 4 * m < room → c.BodiesWithin room →
    StaysSmall room n (actAll cfg line indent ss c)
  | [], c, _, _, _, h => by
      rw [actAll]
      exact ⟨h, .nil⟩
  | s :: rest, c, ⟨hs, hrest⟩, hn, hroom, h => by
      have first := unlessSkipped_small line (s := s) h (act_small indent m s c hs hn hroom h)
      have later := actAll_small indent m rest _ hrest hn hroom first.bodies
      rw [actAll]
      exact ⟨later.bodies, first.values.append later.values⟩

end

end Statement

/-! ## §4. Short lines. -/

/-- The room that a line takes in the bodies of methods, at most. -/
def LogicalLine.room (l : LogicalLine) : Nat := rowRoom l.indent l.text

/-- **Lines that are short**: a word can count the brackets of each, and all of them together have
room in a text. -/
structure LogicalLine.AreShort (lines : List LogicalLine) : Prop where
  brackets : ∀ l ∈ lines, l.text.length < Nesting.countLimit
  room : (lines.map room).sum < textLimit

theorem closeFrames_suffix (indent : Column) (fs : List Frame) :
    (closeFrames indent fs).2 <:+ fs := by
  induction fs with
  | nil => exact List.suffix_rfl
  | cons f fs ih =>
      rw [closeFrames]
      split
      · exact ih.trans (List.suffix_cons f fs)
      · exact List.suffix_rfl

theorem closeFrames_values (n : Nat) (indent : Column) (fs : List Frame) :
    ValuesWithin n (closeFrames indent fs).1 := by
  have ends (f : Frame) : ValuesWithin n f.ends := by
    obtain ⟨kind, column, bodySeen⟩ := f
    cases kind with
    | methodBody name isConstructor selfName body => exact .single trivial
    | classBody name => exact .single trivial
    | skipped => exact .nil
    | block => exact .nil
  induction fs with
  | nil => exact .nil
  | cons f fs ih =>
      rw [closeFrames]
      split
      · exact (ends f).append ih
      · exact .nil

namespace Context

variable (cfg : Config) {used n : Nat} {c : Context} {l : LogicalLine} {ls : List LogicalLine}

/-- A line adds its room to that of the bodies around it, and opens none with more. -/
theorem readLine_small (h : c.BodiesWithin used) (hn : l.text.length ≤ n) :
    StaysSmall (used + l.room) n (c.readLine cfg l) := by
  have left : ∀ f ∈ (closeFrames l.indent c.frames).2, f.room ≤ used := fun f hf =>
    h f ((closeFrames_suffix l.indent c.frames).subset hf)
  have recorded : (c.before l).BodiesWithin (used + l.room) :=
    room_recordLine_le left l.indent l.text
  have ends : l.indent + 4 * l.text.length < used + l.room :=
    Nat.lt_add_left used (add_lt_rowRoom l.indent l.text)
  have performed := Statement.unlessSkipped_small l.line (s := Statement.parse l.text) recorded
    (Statement.act_small cfg l.line l.indent l.text.length (Statement.parse l.text) (c.before l)
      (Statement.parse_within l.text) hn ends recorded)
  rw [readLine_eq]
  exact ⟨performed.bodies, (closeFrames_values n l.indent c.frames).append performed.values⟩

/-- **LINES ADD THEIR ROOM UP.** -/
theorem readLines_small (h : c.BodiesWithin used) (hn : ∀ l ∈ ls, l.text.length ≤ n) :
    StaysSmall (used + (ls.map LogicalLine.room).sum) n (c.readLines cfg ls) := by
  induction ls generalizing used c with
  | nil => exact ⟨h, .nil⟩
  | cons l ls ih =>
      obtain ⟨first, later⟩ := List.forall_mem_cons.1 hn
      have next := readLine_small cfg h first
      have last := ih next.bodies later
      rw [List.map_cons, List.sum_cons, ← Nat.add_assoc]
      exact ⟨last.bodies, next.values.append last.values⟩

/-- Lines can be read, if they and the bodies that are open have room in a text. -/
theorem linesFit_of_room (h : c.BodiesWithin used)
    (hbrackets : ∀ l ∈ ls, l.text.length < Nesting.countLimit)
    (hroom : used + (ls.map LogicalLine.room).sum < textLimit) : c.linesFit cfg ls = true := by
  induction ls generalizing used c with
  | nil => rfl
  | cons l ls ih =>
      obtain ⟨first, later⟩ := List.forall_mem_cons.1 hbrackets
      rw [List.map_cons, List.sum_cons, ← Nat.add_assoc] at hroom
      have limits : textLimit ≤ columnLimit := by decide
      have ends : l.indent + l.text.length ≤ l.indent + 4 * l.text.length :=
        Nat.add_le_add_left (Nat.le_mul_of_pos_left _ (by decide)) _
      have line : l.indent + l.text.length < columnLimit := by
        have row : _ < l.room := Nat.lt_of_le_of_lt ends (add_lt_rowRoom l.indent l.text)
        exact Nat.lt_of_lt_of_le row (by omega)
      have closes : closingFits l.indent c.frames = true :=
        closingFits_of_room fun f hf => Nat.lt_of_le_of_lt (h f hf) (by omega)
      rw [linesFit, lineFits_of_length cfg first line, closes,
        ih (readLine_small cfg h (Nat.le_refl _)).bodies later hroom]
      rfl

end Context

theorem Context.bodiesWithin_nil : ({} : Context).BodiesWithin 0 :=
  fun _ hf => absurd hf List.not_mem_nil

/-- **NO RUN OVER SHORT LINES IS STOPPED.** -/
theorem Checked.events_of_short (cfg : Config) {lines : List LogicalLine}
    (h : LogicalLine.AreShort lines) :
    Checked.events cfg lines = some (Event.ofLines cfg lines) := by
  have room : 0 + (lines.map LogicalLine.room).sum < textLimit := by
    rw [Nat.zero_add]
    exact h.room
  have read := Context.linesFit_of_room cfg Context.bodiesWithin_nil h.brackets room
  have left := Context.readLines_small cfg Context.bodiesWithin_nil
    fun l hl => Nat.le_of_lt (h.brackets l hl)
  have closes : closingFits 0 (Context.readLines cfg {} lines).1.frames = true :=
    closingFits_of_room fun f hf => Nat.lt_of_le_of_lt (left.bodies f hf) room
  refine guarded_of_fits ?_
  unfold Event.linesFit
  rw [read, closes]
  rfl

/-! ## §5. Classes of short lines. -/

namespace Assembly

/-- Events can be taken if a word can count the brackets of each value in them. -/
theorem takeAllFits_of_values {cfg : Config} {n : Nat} {es : List Event} (h : ValuesWithin n es)
    (hn : n < Nesting.countLimit) (s : Assembly) : s.takeAllFits cfg es = true := by
  have value {t : Text} (ht : t.length ≤ n) : t.classifyFits = true :=
    Text.classifyFits_of_length (Nat.lt_of_le_of_lt ht hn)
  induction es generalizing s with
  | nil => rfl
  | cons e es ih =>
      obtain ⟨first, later⟩ := List.forall_mem_cons.1 h
      have taken : s.takeFits cfg e = true := by
        cases e with
        | methodStart start =>
            have defaults : start.draftFits cfg = true := by
              refine List.all_eq_true.2 fun p hp => (Option.all_eq_true _ _).2 fun d hd => ?_
              exact value (first p (List.mem_of_mem_drop hp) d hd)
            exact Bool.or_eq_true_iff.2 (.inr defaults)
        | classAssignment written => exact Bool.or_eq_true_iff.2 (.inr (value first))
        | selfAssignment written => exact Bool.or_eq_true_iff.2 (.inr (value first))
        | moduleAssignment name text line => exact value first
        | classStart _ => rfl
        | classEnd _ => rfl
        | methodEnd _ _ => rfl
        | docstring _ _ => rfl
        | decorator _ _ => rfl
        | ignored _ _ => rfl
      rw [takeAllFits, taken, ih later]
      rfl

end Assembly

/-- **No run over the events of short lines is stopped either.** -/
theorem Checked.classes_of_short (cfg : Config) {lines : List LogicalLine}
    (h : LogicalLine.AreShort lines) :
    Checked.classes cfg (Event.ofLines cfg lines).events
      = some (Class.ofEvents cfg (Event.ofLines cfg lines).events) := by
  have limit : 0 < Nesting.countLimit := by decide
  have read := Context.readLines_small cfg (n := Nesting.countLimit - 1)
    Context.bodiesWithin_nil fun l hl => Nat.le_sub_one_of_lt (h.brackets l hl)
  have values : ValuesWithin (Nesting.countLimit - 1) (Event.ofLines cfg lines).events :=
    read.values.append (closeFrames_values _ 0 _)
  exact guarded_of_fits (Assembly.takeAllFits_of_values values (by omega) {})

end ClassOutline
