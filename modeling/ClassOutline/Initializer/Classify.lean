/-
  ClassOutline.Initializer.Classify
  ────────────────────────────────
  **CLASSIFYING AN EXPRESSION.**

  The form of an expression is decided in a fixed order: a comma at top level
  makes a tuple; then constants, numbers and strings; then what square
  brackets, braces or parentheses enclose; then a dotted name, called or not.
  Anything else is kept as written and reported.

  Where a comma is missing between elements, entries or arguments, the parts
  are told apart and the omission is reported.

  `Text.classifyForm` is one step of this: it classifies with a given way to classify
  what is inside.  `Text.classifyWithin` ties the knot, once per level, and gives up
  below a fixed number of levels.
-/
import ClassOutline.Initializer.Basic
import ClassOutline.Nesting.Assignment
import ClassOutline.Nesting.DictEntry

namespace ClassOutline

/-- A way to classify an expression. -/
abbrev Classifier := Text → Reported Initializer

namespace Text

/-! ## §1. One level. -/

/-- Classify the items between the commas of `t`, each after `select` has cut it to what
counts; report items with only blanks between them. -/
def classifyItems (inner : Classifier) (kind : ItemKind) (select : Text → Text) (t : Text) :
    Reported (List Initializer) :=
  Reported.concat (t.commaItems.map fun piece =>
    let parts := piece.adjacentItems
    let missing := if 1 < parts.length then [Cause.missingComma kind parts] else []
    (Reported.all (parts.map fun part => inner (select part))).since missing)

/-- The value of a call argument: what follows the `=` of a keyword argument. -/
def argumentValue (part : Text) : Text :=
  match part.assignment? with
  | some a => if !a.isAugmented && isName a.target.trim then a.value else part
  | none => part

/-- Classify the entries in one piece between the commas of a dict. -/
def classifyEntries (inner : Classifier) (piece : Text) :
    Reported (List (Initializer × Initializer)) :=
  if piece.startsWith ['*', '*'] then ⟨[], [.dictUnpacking piece]⟩
  else
    let found := piece.dictEntries
    if found.entries.isEmpty then ⟨[], [.entryWithoutColon piece]⟩
    else
      let missing :=
        if found.recovered then [Cause.missingEntryComma (found.entries.map DictEntry.key)] else []
      (Reported.all (found.entries.map fun e =>
        let key := inner e.key
        let value := inner e.value
        ⟨(key.value, value.value), key.causes ++ value.causes⟩)).since missing

/-- What is enclosed is a comprehension: one of its atoms is the keyword `for`. -/
def isComprehension (enclosed : Text) : Bool := enclosed.atoms.contains "for".toList

/-- The constants, as values. -/
def constant? (t : Text) : Option Value :=
  if t = "True".toList then some (.bool true)
  else if t = "False".toList then some (.bool false)
  else if t = "None".toList then some .nothing
  else none

/-- Keep `t` as written, for a reason. -/
def unclassified (t : Text) (cause : Cause) : Reported Initializer :=
  ⟨.unrecognized t, [cause]⟩

/-- Classify `t`, which brackets enclose: a comprehension is kept as written, blanks alone are
`empty`, and anything else is `filled`. -/
def classifyEnclosed (empty : Value) (filled : Reported Initializer) (t enclosed : Text) :
    Reported Initializer :=
  if isComprehension enclosed then unclassified t (.comprehension t)
  else if enclosed.trim.isEmpty then ⟨.literal empty, []⟩
  else filled

/-- Classify `t`, which square brackets enclose. -/
def classifyList (inner : Classifier) (t enclosed : Text) : Reported Initializer :=
  classifyEnclosed .emptyList ((classifyItems inner .listElements id enclosed).map .list) t enclosed

/-- Classify `t`, which braces enclose. -/
def classifyDict (inner : Classifier) (t enclosed : Text) : Reported Initializer :=
  let entries :=
    if !enclosed.hasTopLevel ':' then unclassified t (.setLiteral t)
    else (Reported.concat (enclosed.commaItems.map (classifyEntries inner))).map .dict
  classifyEnclosed .emptyDict entries t enclosed

/-- Classify `t`, which parentheses enclose: a tuple also without a comma. -/
def classifyTuple (inner : Classifier) (t enclosed : Text) : Reported Initializer :=
  classifyEnclosed .emptyTuple ((classifyItems inner .tupleElements id enclosed).map .tuple) t
    enclosed

/-- Classify `t` as a dotted name, called if a parenthesis follows that closes at the very
end. -/
def classifyName? (inner : Classifier) (t : Text) : Option (Reported Initializer) :=
  match t.breakTopLevel? (· == '(') with
  | none => if isDottedName t then some ⟨.name (dottedParts t), []⟩ else none
  | some b =>
    match enclosed? '(' ')' (b.char :: b.after) with
    | none => none
    | some arguments =>
      if isDottedName b.before.trim then
        some ((classifyItems inner .callArguments argumentValue arguments).map
          (.call (dottedParts b.before.trim)))
      else none

/-- Classify a trimmed text, what is inside it by `inner`. -/
def classifyForm (inner : Classifier) (t : Text) : Reported Initializer :=
  if t.isEmpty then unclassified t .emptyExpression
  else if t.hasTopLevel ',' then (classifyItems inner .tupleElements id t).map .tuple
  else if let some v := constant? t then ⟨.literal v, []⟩
  else if let some r := numberValue? t then r.map .literal
  else if let some s := stringValue? t then ⟨.literal (.string s), []⟩
  else if let some enclosed := enclosed? '[' ']' t then classifyList inner t enclosed
  else if let some enclosed := enclosed? '{' '}' t then classifyDict inner t enclosed
  else if let some enclosed := enclosed? '(' ')' t then classifyTuple inner t enclosed
  else (classifyName? inner t).getD (unclassified t (.unrecognizedExpression t))

/-! ## §2. All levels. -/

/-- How many expressions may stand inside one another. -/
def levelLimit : Nat := 256

/-- Classify an expression with so many levels left. -/
def classifyWithin : Nat → Classifier
  | 0, t => unclassified t.trim (.nestingTooDeep levelLimit)
  | levels + 1, t => classifyForm (classifyWithin levels) t.trim

/-- Classify an expression. -/
def classify (t : Text) : Reported Initializer := classifyWithin (levelLimit + 1) t

end Text

end ClassOutline
