/-
  ClassOutline.Statement.Basic
  ────────────────────────────────
  **STATEMENTS AND HOW THEY ARE READ FROM A LINE.**

  What a line says does not depend on where it stands: `Statement.parse` reads
  it into a tree, with the inline body of a header and the parts between
  semicolons as subtrees.  What the tree means for the classes of the source is
  decided later, scope by scope.

  `parseForm` reads one layer, given a way to read what is inside, and
  `parse_eq` says that `parse` is that layer all the way down.
-/
import ClassOutline.Event.Basic
import ClassOutline.Initializer.Basic
import ClassOutline.Statement.Header

namespace ClassOutline

/-! ## §1. Statements. -/

/-- A function header as written. -/
structure FunctionHeader where
  name : Text
  /-- What stands between the parentheses. -/
  arguments : Text
  isAsync : Bool
  /-- The text of the inline body, possibly empty. -/
  body : Text
  deriving DecidableEq, Repr

/-- What a line, or a part of it, says. -/
inductive Statement where
  | empty
  | decorator (name : Text)
  /-- The statement that `keyword` starts has not the form of a header. -/
  | malformedHeader (keyword text : Text)
  | classDef (name : Text) (bases : List Text) (body : Statement)
  | functionDef (header : FunctionHeader) (body : Statement)
  /-- A control-flow block. -/
  | block (body : Statement)
  /-- Statements with semicolons between them. -/
  | sequence (parts : List Statement)
  /-- A string literal alone. -/
  | string (contents : Text)
  | assignment (targets : List Target) (value : Text)
  /-- A statement that is passed over wherever it stands. -/
  | inert (reason : IgnoreReason)
  | unrecognized (text : Text)
  deriving Repr

namespace Statement

/-- Nothing is written. -/
def isEmpty : Statement → Bool
  | empty => true
  | _ => false

/-! ## §2. Statements without a body. -/

/-- The targets in front of a value, for a chain of assignments: as long as the value is
itself a plain assignment to a dotted name, its target is one more.  The value stays last. -/
def chain (value : Text) : List Text × Text :=
  match _h : value.assignment? with
  | some a =>
    if a.isAugmented || !Text.isDottedName a.target.trim.target.name then ([], value)
    else
      let (targets, last) := chain a.value.trim
      (a.target.trim :: targets, last)
  | none => ([], value)
termination_by value.length
decreasing_by
  have := Text.length_value_lt_of_assignment? _h
  have := Text.length_trim_le a.value
  omega

/-- The statement that an assignment makes. -/
def ofAssignment (a : Assignment) : Statement :=
  if a.isAugmented then .inert .augmentedAssignment
  else
    let (targets, value) := chain a.value.trim
    .assignment ((a.target.trim :: targets).map Text.target) value

/-- Keywords that start a statement without structure. -/
def simpleKeywords : List Text :=
  ["pass".toList, "return".toList, "import".toList, "from".toList, "raise".toList,
   "assert".toList, "del".toList, "global".toList, "nonlocal".toList, "yield".toList,
   "break".toList, "continue".toList, "await".toList, "print".toList, "exec".toList]

/-- A call of a dotted name: its first top-level parenthesis follows the name, and it ends
in one. -/
def isCall (t : Text) : Bool :=
  match t.breakTopLevel? (· == '(') with
  | none => false
  | some b => Text.lastIs (· == ')') t && Text.isDottedName b.before.trim

/-- The statement that a text makes which neither assigns nor is a header or a string. -/
def ofExpression (t : Text) : Statement :=
  if simpleKeywords.contains (t.takeWhile Text.isNameChar) then .inert .simpleStatement
  else if t.target.name ≠ t ∧ Text.isName t.target.name then .inert .annotationOnly
  else if isCall t then .inert .call
  else if t.adjacentItems.length = 1 then .inert .expression
  else .unrecognized t

/-- The statement of a text that is neither a header nor several statements. -/
def ofPlain (t : Text) : Statement :=
  if let some contents := t.stringValue? then .string contents
  else if let some a := t.assignment? then ofAssignment a
  else ofExpression t

/-! ## §3. Statements with a body. -/

/-- A class statement, given what follows the keyword. -/
def ofClass (inner : Text → Statement) (t rest : Text) : Statement :=
  match rest.header? with
  | some h =>
    .classDef h.name ((h.arguments.map Text.commaItems).getD [] |>.map Text.squash) (inner h.body)
  | none => .malformedHeader "class".toList t

/-- A function statement, given what follows the keyword.  Without parentheses it is
malformed. -/
def ofFunction (inner : Text → Statement) (isAsync : Bool) (t rest : Text) : Statement :=
  match rest.header? with
  | some ⟨name, some arguments, body⟩ =>
    .functionDef ⟨name, arguments, isAsync, body⟩ (inner body)
  | _ => .malformedHeader "def".toList t

/-- What follows `async def`. -/
def afterAsyncDef? (t : Text) : Option Text :=
  (t.afterKeyword? "async".toList).bind fun rest => rest.afterKeyword? "def".toList

/-- The statement of a trimmed text, what is inside it read by `inner`. -/
def parseForm (inner : Text → Statement) (t : Text) : Statement :=
  if t.isEmpty then .empty
  else if t.head? = some '@' then
    .decorator (Text.squash ((t.drop 1).takeWhile (· != '(')))
  else if let some rest := t.afterKeyword? "class".toList then ofClass inner t rest
  else if let some rest := t.afterKeyword? "def".toList then ofFunction inner false t rest
  else if let some rest := afterAsyncDef? t then ofFunction inner true t rest
  else if let some body := t.blockBody? then .block (inner body)
  else if 1 < (t.splitTopLevel ';').length then .sequence ((t.splitTopLevel ';').map inner)
  else ofPlain t

/-- Read a text of which at most so many layers are left. -/
def parseWithin : Nat → Text → Statement
  | 0, _ => .empty
  | layers + 1, t => parseForm (parseWithin layers) t.trim

/-- The statement that a text makes.  Each layer is shorter than the one around it, so the
text has fewer layers than characters, an empty one counted. -/
def parse (t : Text) : Statement := parseWithin (t.length + 1) t

/-! ## §4. The layers of a statement. -/

/-- A layer asks for nothing but shorter texts. -/
theorem parseForm_congr {f g : Text → Statement} {t : Text}
    (h : ∀ s : Text, s.length < t.length → f s = g s) : parseForm f t = parseForm g t := by
  have header (keyword : Text) (hk : keyword ≠ []) (rest : Text)
      (hr : t.afterKeyword? keyword = some rest) (x : Header) (hx : rest.header? = some x) :
      f x.body = g x.body := by
    have := Text.length_afterKeyword?_lt hk hr
    have := Text.length_body_lt_of_header? hx
    exact h _ (by omega)
  have function (isAsync : Bool) (rest : Text)
      (hb : ∀ x, rest.header? = some x → f x.body = g x.body) :
      ofFunction f isAsync t rest = ofFunction g isAsync t rest := by
    unfold ofFunction
    split
    · next name arguments body hx => rw [hb _ hx]
    · rfl
  unfold parseForm
  -- Empty texts and decorators have nothing inside.
  split; · rfl
  split; · rfl
  -- Headers of classes and functions: the inline body.
  split
  · next rest hr =>
    unfold ofClass
    split
    · next x hx => rw [header _ (by decide) rest hr x hx]
    · rfl
  split
  · next rest hr => exact function _ _ fun x hx => header _ (by decide) rest hr x hx
  split
  · next rest hr =>
    refine function _ _ fun x hx => ?_
    obtain ⟨middle, h1, h2⟩ := Option.bind_eq_some_iff.1 hr
    have := Text.length_afterKeyword?_lt (by decide) h1
    have := Text.length_afterKeyword?_lt (by decide) h2
    have := Text.length_body_lt_of_header? hx
    exact h _ (by omega)
  -- A block: its inline body.
  split
  · next body hb => rw [h _ (Text.length_lt_of_blockBody? hb)]
  -- Several statements: each piece.
  split
  · next hlen =>
    rw [List.map_congr_left fun s hs => h s (Text.length_lt_of_mem_splitTopLevel hs hlen)]
  · rfl

/-- With more layers than characters, their number does not matter. -/
theorem parseWithin_congr {m n : Nat} {t : Text} (hm : t.length < m) (hn : t.length < n) :
    parseWithin m t = parseWithin n t := by
  induction m generalizing n t with
  | zero => omega
  | succ m ih =>
    obtain ⟨n, rfl⟩ := Nat.exists_eq_add_one_of_ne_zero (Nat.ne_of_gt (Nat.zero_lt_of_lt hn))
    have := Text.length_trim_le t
    exact parseForm_congr fun s hs => ih (by omega) (by omega)

/-- **A statement is one layer around statements.** -/
theorem parse_eq (t : Text) : parse t = parseForm parse t.trim := by
  have := Text.length_trim_le t
  exact parseForm_congr fun s hs => parseWithin_congr (by omega) (by omega)

end Statement

end ClassOutline
