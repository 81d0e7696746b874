/-
  ClassOutline.Proofs.Event.InlineBlocks
  ────────────────────────────────
  **A BLOCK ON ONE LINE MEANS WHAT IT MEANS ON TWO.**

  The header of a block ends at the first colon at top level.  A condition
  without one there and without an assignment is therefore passed over, however
  its brackets and strings are nested, and what stands behind the colon is the
  body (`Statement.parse_block`).

  A statement without a body of its own says the same wherever the block around
  it stands, for a block has no docstring and no scope of its own
  (`Statement.events_act_of_isSimple`).  So it makes the same events behind the
  colon and on a line of its own.
-/
import Mathlib.Data.List.Find
import ClassOutline.Proofs.Event.MuteBodies
import ClassOutline.Proofs.Nesting.Signs
import ClassOutline.Proofs.Statement.Single

namespace ClassOutline

/-! ## §1. Headers of blocks. -/

namespace Text

/-- What may stand between the keyword of a block and its colon: a text that closes what it opens,
with neither an assignment nor a colon at top level. -/
structure IsCondition (t : Text) : Prop where
  notBlank : t.trim ≠ []
  closes : (Nesting.closed.afterText t).isTopLevel = true
  noAssignment : t.assignment? = none
  noColon : t.hasTopLevel ':' = false

namespace IsCondition

variable {keyword condition : Text}

/-- The units of a header. -/
theorem lexemes_header (hkeyword : isName keyword = true) (condition : Text) :
    (keyword ++ ' ' :: condition).lexemes
      = keyword.lexemes ++ ⟨' ', [], .closed⟩ :: condition.lexemes := by
  have plain : Nesting.IsPlain ' ' := isPlain_of_isBlank rfl
  rw [(keeps_of_isName (c := ':') hkeyword (by decide)).lexemes_append_cons plain.1,
    lexemes_cons_of_isPlain plain]

/-- A character that no name has is not found in a keyword. -/
theorem matchesTop_keyword (hkeyword : isName keyword = true) {c : Char}
    (hc : isNameChar c = false) : ∀ l ∈ keyword.lexemes, l.matchesTop (· == c) = false :=
  fun _ hl => (keeps_of_isName hkeyword hc).matchesTop_eq_false (fun _ h => h) hl

/-- A condition leaves nothing open behind its keyword either. -/
theorem afterText_header (h : condition.IsCondition) (hkeyword : isName keyword = true) :
    Nesting.closed.afterText (keyword ++ ' ' :: condition) = .closed := by
  have kept := (keeps_of_isName (c := ':') hkeyword (by decide) .closed rfl).1
  rw [Nesting.afterText_append_blank rfl, kept]
  exact Nesting.eq_closed h.closes

/-- Nothing is assigned in the header. -/
theorem assignment?_header (h : condition.IsCondition) (hkeyword : isName keyword = true) :
    (keyword ++ ' ' :: condition).assignment? = none := by
  have noSign := matchesTop_keyword (c := '=') hkeyword (by decide)
  unfold assignment?
  rw [lexemes_header hkeyword, inUnits?_append [] noSign, Assignment.inUnits?]
  exact (Assignment.inUnits?_append_blank rfl _ _).2 h.noAssignment

/-- **The header ends at the first colon behind the condition.** -/
theorem breakTopLevel?_header (h : condition.IsCondition) (hkeyword : isName keyword = true)
    (rest : Text) :
    breakTopLevel? (· == ':') (keyword ++ ' ' :: condition ++ ':' :: rest)
      = some ⟨keyword ++ ' ' :: condition, ':', rest⟩ := by
  have closed := h.afterText_header hkeyword
  have noMark : ¬ Quote.IsMark ':' := by decide
  have units := (Nesting.lexemes_append_cons noMark (n := .closed)
    (a := keyword ++ ' ' :: condition) (by rw [closed]; rfl) rest).1
  have notFound : ∀ l ∈ (keyword ++ ' ' :: condition).lexemes, l.matchesTop (· == ':') = false := by
    rw [lexemes_header hkeyword]
    intro l hl
    rcases List.mem_append.1 hl with hl | hl
    · exact matchesTop_keyword hkeyword (by decide) l hl
    · rcases List.mem_cons.1 hl with rfl | hl
      · rfl
      · exact matchesTop_of_hasTopLevel_eq_false h.noColon hl
  have colon : Lexeme.matchesTop (· == ':') ⟨':', [], .closed⟩ = true := rfl
  rw [closed] at units
  have units : lexemes (keyword ++ ' ' :: condition ++ ':' :: rest)
      = lexemes (keyword ++ ' ' :: condition) ++ lexemes (':' :: rest) := units
  unfold breakTopLevel?
  rw [units, breakUnits?_append notFound, lexemes_cons_of_isPlain (isPlain_of_not_mem (by decide)),
    breakUnits?, if_pos colon, Option.map_some, concat_lexemes, concat_lexemes, List.append_nil]
  rfl

end IsCondition

/-- Each keyword of a block is found by its spelling. -/
theorem find?_blockKeywords :
    ∀ entry ∈ blockKeywords, isName entry.1 = true
      ∧ blockKeywords.find? (fun found => found.1 == entry.1) = some entry := by
  decide +kernel

/-- The keyword in front of a blank is the one that is found. -/
theorem find?_afterKeyword? {keyword : Text} {alone : Bool}
    (hkeyword : (keyword, alone) ∈ blockKeywords) (rest : Text) :
    (blockKeywords.find? fun (found, _) => (afterKeyword? (keyword ++ ' ' :: rest) found).isSome)
      = some (keyword, alone) := by
  obtain ⟨hname, hfind⟩ := find?_blockKeywords _ hkeyword
  rw [← hfind]
  refine List.find?_congr fun entry hentry => ?_
  show (afterKeyword? (keyword ++ ' ' :: rest) entry.1).isSome = _
  rw [isSome_afterKeyword? (all_isNameChar (find?_blockKeywords entry hentry).1),
    takeWhile_append_space, takeWhile_of_isName hname]

/-- **What follows the colon is the body of the block.** -/
theorem blockBody?_header {keyword condition : Text} {alone : Bool}
    (hkeyword : (keyword, alone) ∈ blockKeywords) (h : condition.IsCondition) (rest : Text) :
    blockBody? (keyword ++ ' ' :: condition ++ ':' :: rest) = some rest.trim := by
  have hname := (find?_blockKeywords _ hkeyword).1
  have found := find?_afterKeyword? hkeyword (condition ++ ':' :: rest)
  rw [← List.cons_append, ← List.append_assoc] at found
  have notBlank : (trim ((keyword ++ ' ' :: condition).drop keyword.length)).isEmpty = false := by
    rw [List.drop_left, trim_space_cons]
    exact Bool.eq_false_iff.2 fun hempty => h.notBlank (List.isEmpty_iff.1 hempty)
  unfold blockBody?
  rw [found, h.breakTopLevel?_header hname]
  simp only [Option.bind_eq_bind, Option.bind_some]
  rw [if_neg, if_neg]
  · rw [h.assignment?_header hname]
    exact Bool.false_ne_true
  · rw [notBlank]
    exact fun h => Bool.false_ne_true h.1

end Text

/-! ## §2. Blocks are read. -/

namespace Statement

/-- Blanks around a text do not change what it says. -/
theorem parse_trim (t : Text) : parse t.trim = parse t := by
  rw [parse_eq, parse_eq t, Text.trim_trim]

/-- **THE BODY OF A BLOCK STANDS BEHIND ITS CONDITION.**  An `async` alone starts no block. -/
theorem parse_block {keyword condition : Text} {alone : Bool}
    (hkeyword : (keyword, alone) ∈ Text.blockKeywords) (hasync : keyword ≠ "async".toList)
    (h : condition.IsCondition) (rest : Text) :
    parse (keyword ++ ' ' :: condition ++ ':' :: rest) = .block (parse rest) := by
  have names : ∀ entry ∈ Text.blockKeywords, entry.1 ≠ "class".toList ∧ entry.1 ≠ "def".toList
      ∧ '@' ∉ entry.1 := by decide +kernel
  obtain ⟨hclass, hdef, hat⟩ := names _ hkeyword
  obtain ⟨hname, -⟩ := Text.find?_blockKeywords _ hkeyword
  -- the keyword has a first character, which is none of a blank and an `@`
  obtain ⟨first, letters, hstart⟩ : ∃ first letters, keyword = first :: letters :=
    List.exists_cons_of_ne_nil fun hnil => by rw [hnil] at hname; cases hname
  have hfirst := Text.isNameChar_of_mem hname (hstart ▸ List.mem_cons_self)
  -- the keyword is no other one
  have other {word : Text} (hword : Text.isName word = true) (hne : keyword ≠ word) (u : Text) :
      Text.afterKeyword? (keyword ++ ' ' :: condition ++ ':' :: u) word = none := by
    rw [List.append_assoc, ← Option.not_isSome_iff_eq_none, List.cons_append,
      Text.isSome_afterKeyword? (Text.all_isNameChar hword), Text.takeWhile_append_space,
      Text.takeWhile_of_isName hname]
    exact fun heq => hne (eq_of_beq heq).symm
  have trimmed : Text.trim (keyword ++ ' ' :: condition ++ ':' :: rest)
      = keyword ++ ' ' :: condition ++ ':' :: rest.trimEnd := by
    have front : Text.trimStart (keyword ++ ' ' :: condition ++ ':' :: rest)
        = keyword ++ ' ' :: condition ++ ':' :: rest := by
      refine Text.trimStart_eq_self fun c hc => ?_
      rw [hstart] at hc
      exact Option.some.inj hc ▸ Text.not_isBlank_of_isNameChar hfirst
    unfold Text.trim
    rw [front, Text.trimEnd_append_cons (by decide)]
  rw [parse_eq, trimmed, parseForm, if_neg, if_neg, other rfl hclass, other rfl hdef]
  · unfold afterAsyncDef?
    rw [other rfl hasync, Text.blockBody?_header hkeyword h]
    show Statement.block (parse rest.trimEnd.trim) = _
    rw [Text.trim_trimEnd, parse_trim]
  · rw [hstart]
    intro heq
    have heq : first = '@' := Option.some.inj heq
    rw [hstart, heq] at hat
    exact hat List.mem_cons_self
  · rw [hstart]
    exact Bool.false_ne_true

end Statement

/-! ## §3. Statements without a body. -/

/-- The event as it would be on another line. -/
def Event.onLine (line : Nat) : Event → Event
  | classStart start => .classStart { start with line }
  | methodStart start => .methodStart { start with line }
  | classAssignment written => .classAssignment { written with line }
  | selfAssignment written => .selfAssignment { written with line }
  | moduleAssignment name value _ => .moduleAssignment name value line
  | decorator name _ => .decorator name line
  | docstring text _ => .docstring text line
  | ignored reason _ => .ignored reason line
  | classEnd name => .classEnd name
  | methodEnd name source => .methodEnd name source

/-- An assignment means the same on each line. -/
theorem Scope.onLine_assign (scope : Scope) (line line' : Nat) (value : Text) (target : Target) :
    (scope.assign line value target).onLine line' = scope.assign line' value target := by
  unfold Scope.assign
  split
  · split <;> rfl
  · split <;> rfl
  · split <;> rfl
  · rfl
  · rfl

namespace Statement

/-- One statement that is neither a header nor a decorator. -/
def isSimple : Statement → Bool
  | .string _ | .assignment .. | .inert _ | .unrecognized _ => true
  | _ => false

section Simple

variable {s : Statement} {cfg : Config} {line : Nat} {indent : Column} {c : Context}

theorem isEmpty_eq_false_of_isSimple (h : s.isSimple = true) : s.isEmpty = false := by
  cases s with
  | empty => exact nomatch h
  | _ => rfl

/-- **What a simple statement says depends on its scope alone**, where it cannot be a docstring. -/
theorem events_act_of_isSimple (h : s.isSimple = true) (hfirst : c.isFirstInBody = false)
    {d : Context} (hfirst' : d.isFirstInBody = false) (hscope : d.scope = c.scope) (line' : Nat)
    (indent' : Column) :
    (s.act cfg line indent c).2.events
      = (s.act cfg line' indent' d).2.events.map (Event.onLine line) := by
  have noDocstring {e : Context} (he : e.isFirstInBody = false) (n : Nat) (contents : Text) :
      (docstringOr n contents e).events = [.ignored .expression n] := by
    unfold docstringOr
    rw [he]
    rfl
  cases s with
  | string contents =>
      rw [act, act]
      show (docstringOr line contents c).events = (docstringOr line' contents d).events.map _
      rw [noDocstring hfirst, noDocstring hfirst']
      rfl
  | assignment targets value =>
      rw [act, act]
      show targets.map (c.scope.assign line value)
        = (targets.map (d.scope.assign line' value)).map (Event.onLine line)
      rw [List.map_map, hscope]
      exact List.map_congr_left fun target _ =>
        (Scope.onLine_assign c.scope line' line value target).symm
  | inert reason => rw [act, act]; rfl
  | unrecognized text => rw [act, act]; rfl
  | _ => exact nomatch h

end Simple

end Statement

/-! ## §4. One line and two. -/

namespace Context

variable {cfg : Config} {c : Context}

/-- Behind the header of a block. -/
def enterBlock (indent : Column) (c : Context) : Context :=
  c.enterBody.dropPending.push .block indent

/-- A block belongs to the scope around it. -/
theorem scope_enterBlock (indent : Column) (c : Context) :
    (c.enterBlock indent).scope = c.scope := scope_enterBody c

/-- A block is performed in the scope around it. -/
theorem perform_block (hscope : c.scope ≠ .skipped) (line : Nat) (indent : Column)
    (body : Statement) :
    (Statement.block body).perform cfg line indent c
      = ((body.act cfg line (indent + 1) (c.enterBlock indent)).1,
         .ignored .controlFlow line ++ (body.act cfg line (indent + 1) (c.enterBlock indent)).2) := by
  have opened : (c.enterBlock indent).scope ≠ .skipped := by rwa [scope_enterBlock]
  rw [Statement.perform_eq_act rfl hscope, Statement.act]
  exact if_neg opened

/-- Behind a header that stands alone its body is read in the block. -/
theorem readLine_header {keyword condition : Text} {alone : Bool} {header : LogicalLine}
    (hkeyword : (keyword, alone) ∈ Text.blockKeywords) (hasync : keyword ≠ "async".toList)
    (hcondition : condition.IsCondition) (hscope : c.scopeAt header.indent ≠ .skipped)
    (htext : header.text = keyword ++ ' ' :: condition ++ [':']) :
    (c.readLine cfg header).1 = (c.before header).enterBlock header.indent := by
  rw [← scope_before] at hscope
  rw [readLine_eq, htext, Statement.parse_block hkeyword hasync hcondition, perform_block hscope]
  rfl

/-- A line further to the right closes no block, and is no first statement there. -/
theorem before_enterBlock {column : Column} {l : LogicalLine} (hdeeper : column < l.indent)
    (c : Context) :
    closeFrames l.indent (c.enterBlock column).frames = ([], (c.enterBlock column).frames)
      ∧ ((c.enterBlock column).before l).isFirstInBody = false := by
  have stays : closeFrames l.indent (c.enterBlock column).frames
      = ([], (c.enterBlock column).frames) := if_neg (Nat.not_le.2 hdeeper)
  refine ⟨stays, ?_⟩
  unfold before
  rw [stays]
  rfl

/-- **A BLOCK ON ONE LINE MEANS WHAT IT MEANS ON TWO.**  A simple statement behind the colon of a
block makes the events that it makes on a line of its own below the header, and an assignment
stays in the scope around the block. -/
theorem readLine_inlineBlock {keyword condition s : Text} {alone : Bool}
    {inline header body : LogicalLine}
    (hkeyword : (keyword, alone) ∈ Text.blockKeywords) (hasync : keyword ≠ "async".toList)
    (hcondition : condition.IsCondition) (hsimple : (Statement.parse s).isSimple = true)
    (hscope : c.scopeAt inline.indent ≠ .skipped)
    (hinline : inline.text = keyword ++ ' ' :: condition ++ ':' :: ' ' :: s)
    (hheader : header.text = keyword ++ ' ' :: condition ++ [':'])
    (hindent : header.indent = inline.indent) (hbody : body.text = s)
    (hdeeper : header.indent < body.indent) :
    (c.readLine cfg inline).2.events = (closeFrames inline.indent c.frames).1
        ++ .ignored .controlFlow inline.line
          :: ((c.readLine cfg header).1.readLine cfg body).2.events.map (Event.onLine inline.line)
      ∧ ∀ targets value, Statement.parse s = .assignment targets value →
          ((c.readLine cfg header).1.readLine cfg body).2.events
            = targets.map ((c.scopeAt inline.indent).assign body.line value) := by
  -- the line as a whole, up to the statement behind the colon
  have hscopeInline : (c.before inline).scope = c.scopeAt inline.indent := scope_before inline c
  have onOne : (c.readLine cfg inline).2.events = (closeFrames inline.indent c.frames).1
      ++ .ignored .controlFlow inline.line :: ((Statement.parse s).act cfg inline.line
        (inline.indent + 1) ((c.before inline).enterBlock inline.indent)).2.events := by
    have counts : (c.before inline).scope ≠ .skipped := by rwa [hscopeInline]
    have behind : Statement.parse (' ' :: s) = Statement.parse s := by
      rw [← Statement.parse_trim, Text.trim_space_cons, Statement.parse_trim]
    rw [readLine_eq, hinline, Statement.parse_block hkeyword hasync hcondition,
      perform_block counts, behind]
    rfl
  -- the two lines, the second one in the block that the first has opened
  have hscopeHeader : (c.before header).scope = c.scopeAt inline.indent := by
    rw [scope_before, hindent]
  have opened : (c.readLine cfg header).1 = (c.before header).enterBlock header.indent :=
    readLine_header hkeyword hasync hcondition (by rwa [hindent]) hheader
  obtain ⟨stays, notFirst⟩ := before_enterBlock hdeeper (c.before header)
  have hscopeBody :
      (((c.before header).enterBlock header.indent).before body).scope = c.scopeAt inline.indent := by
    rw [scope_before, scopeAt, stays]
    exact (scope_enterBlock header.indent _).trans hscopeHeader
  have onTwo : ((c.readLine cfg header).1.readLine cfg body).2.events
      = ((Statement.parse s).act cfg body.line body.indent
          (((c.before header).enterBlock header.indent).before body)).2.events := by
    have written := Statement.isEmpty_eq_false_of_isSimple hsimple
    rw [opened, readLine_eq, stays, hbody,
      Statement.perform_eq_act written (by rwa [hscopeBody])]
    rfl
  refine ⟨?_, fun targets value hassign => ?_⟩
  · have scopeBlock := (scope_enterBlock inline.indent (c.before inline)).trans hscopeInline
    rw [onOne, onTwo, Statement.events_act_of_isSimple hsimple rfl notFirst
      (hscopeBody.trans scopeBlock.symm)]
  · rw [onTwo, hassign, Statement.act, hscopeBody]

/-- An assignment behind a condition with a colon in a string and a comparison in brackets is one
in the class around the block. -/
theorem readLine_inlineBlock_in_class :
    let c : Context := ⟨[⟨.classBody "A".toList, 0, true⟩], [], [], []⟩
    (c.readLine {} ⟨2, 2, 4, "if f[':'] <= (y := 0): x = 1".toList, true, []⟩).2.events
      = [.ignored .controlFlow 2, .classAssignment ⟨"x".toList, none, "1".toList, 2⟩] := by
  intro c
  let inline : LogicalLine := ⟨2, 2, 4, "if f[':'] <= (y := 0): x = 1".toList, true, []⟩
  let header : LogicalLine := ⟨2, 2, 4, "if f[':'] <= (y := 0):".toList, true, []⟩
  let body : LogicalLine := ⟨3, 3, 8, "x = 1".toList, true, []⟩
  have keyword : ("if".toList, false) ∈ Text.blockKeywords := List.mem_cons_self
  have condition : Text.IsCondition "f[':'] <= (y := 0)".toList :=
    ⟨by decide +kernel, by decide +kernel, by decide +kernel, by decide +kernel⟩
  have simple : (Statement.parse "x = 1".toList).isSimple = true := by decide +kernel
  have scope : c.scopeAt inline.indent ≠ .skipped := by decide +kernel
  have deeper : header.indent < body.indent := by decide
  have apart := (@readLine_inlineBlock {} c _ _ _ _ inline header body keyword (by decide) condition
    simple scope rfl rfl rfl rfl deeper).1
  rw [apart]
  decide +kernel

/-- **A walrus at top level breaks this.**  Its colon is taken for the end of the header, so the
assignment behind the condition is lost. -/
theorem assignment_lost_behind_walrus :
    let condition : Text := "n := f()".toList
    (condition.trim ≠ [] ∧ (Nesting.closed.afterText condition).isTopLevel = true
        ∧ condition.assignment? = none ∧ condition.hasTopLevel ';' = false
        ∧ (Statement.parse "y = 1".toList).isSimple = true)
      ∧ (readLine {} ⟨1, 1, 0, "if n := f(): y = 1".toList, true, []⟩ {}).2.events
        = [.ignored .controlFlow 1, .ignored .unsupportedTarget 1]
      ∧ ((readLine {} ⟨1, 1, 0, "if n := f():".toList, true, []⟩ {}).1.readLine {}
          ⟨2, 2, 4, "y = 1".toList, true, []⟩).2.events
        = [.moduleAssignment "y".toList "1".toList 2] := by
  decide +kernel

end Context

end ClassOutline
