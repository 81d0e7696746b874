/-
  ClassOutline.Proofs.Initializer.Layer
  ────────────────────────────────
  **ONE LEVEL OF AN EXPRESSION, AS WRITTEN.**

  What stands inside an expression does not decide its form.  So one level of
  it can be read apart from the others: its layer has the parts as they are
  written (`Text.layer`), and a way to classify those gives the value
  (`classifyForm_value`).

  The expressions in a text are the text itself, its parts, their parts, and so
  on down to the last level that is read (`Text.expressions`).  What is kept as
  written has no parts.
-/
import ClassOutline.Initializer.Classify
import ClassOutline.Proofs.Initializer.Forms

namespace ClassOutline

/-! ## §1. Layers. -/

/-- The form of an expression, with what is inside it as written. -/
inductive Layer where
  /-- A literal, or a text that is kept as it is. -/
  | literal (v : Value)
  | list (parts : List Text)
  | dict (entries : List DictEntry)
  | tuple (parts : List Text)
  /-- A dotted name. -/
  | name (path : List Text)
  /-- A dotted name called with arguments. -/
  | call (path : List Text) (args : List Text)
  deriving Repr

namespace Layer

/-- The expressions inside, keys and values alike. -/
def parts : Layer → List Text
  | literal _ | name _ => []
  | list parts | tuple parts | call _ parts => parts
  | dict entries => entries.flatMap fun e => [e.key, e.value]

/-- The expression, given what is read in its parts. -/
def build (inner : Text → Initializer) : Layer → Initializer
  | literal v => .literal v
  | list parts => .list (parts.map inner)
  | dict entries => .dict (entries.map fun e => (inner e.key, inner e.value))
  | tuple parts => .tuple (parts.map inner)
  | name path => .name path
  | call path args => .call path (args.map inner)

end Layer

namespace Text

/-- The layer of a text in brackets, if it is `filled` and no comprehension. -/
def enclosedLayer (empty : Value) (filled : Layer) (t enclosed : Text) : Layer :=
  if isComprehension enclosed then .literal (.unrecognized t)
  else if enclosed.trim.isEmpty then .literal empty
  else filled

/-- The layer of a text in square brackets. -/
def listLayer (t enclosed : Text) : Layer :=
  enclosedLayer .emptyList (.list enclosed.items) t enclosed

/-- The layer of a text in braces. -/
def dictLayer (t enclosed : Text) : Layer :=
  enclosedLayer .emptyDict
    (if !enclosed.hasTopLevel ':' then .literal (.unrecognized t) else .dict enclosed.entries)
    t enclosed

/-- The layer of a text in parentheses. -/
def tupleLayer (t enclosed : Text) : Layer :=
  enclosedLayer .emptyTuple (.tuple enclosed.items) t enclosed

/-- The layer of a dotted name, called or not. -/
def nameLayer? (t : Text) : Option Layer :=
  match t.breakTopLevel? (· == '(') with
  | none => if isDottedName t then some (.name (dottedParts t)) else none
  | some b =>
    match enclosed? '(' ')' (b.char :: b.after) with
    | none => none
    | some arguments =>
      if isDottedName b.before.trim then
        some (.call (dottedParts b.before.trim) (arguments.items.map argumentValue))
      else none

/-- The layer of a trimmed text. -/
def layer (t : Text) : Layer :=
  if t.isEmpty then .literal (.unrecognized t)
  else if t.hasTopLevel ',' then .tuple t.items
  else if let some v := constant? t then .literal v
  else if let some r := numberValue? t then .literal r.value
  else if let some s := stringValue? t then .literal (.string s)
  else if let some enclosed := enclosed? '[' ']' t then listLayer t enclosed
  else if let some enclosed := enclosed? '{' '}' t then dictLayer t enclosed
  else if let some enclosed := enclosed? '(' ')' t then tupleLayer t enclosed
  else (nameLayer? t).getD (.literal (.unrecognized t))

/-! ## §2. The value of a layer. -/

variable {inner : Classifier}

/-- The items are classified one by one. -/
theorem classifyItems_value (kind : ItemKind) (select : Text → Text) (t : Text) :
    (classifyItems inner kind select t).value
      = t.items.map fun part => (inner (select part)).value := by
  unfold classifyItems items Reported.concat
  dsimp only
  rw [List.flatMap_map, List.map_flatMap]
  refine List.flatMap_congr fun piece _ => ?_
  show (piece.adjacentItems.map fun part => inner (select part)).map Reported.value = _
  rw [List.map_map]
  rfl

theorem classifyEntries_value (piece : Text) :
    (classifyEntries inner piece).value
      = (entriesOf piece).map fun e => ((inner e.key).value, (inner e.value).value) := by
  unfold classifyEntries entriesOf
  split
  · rfl
  · dsimp only
    split
    · next hempty =>
      rw [List.isEmpty_iff.1 hempty]
      rfl
    · show ((piece.dictEntries.entries.map _).map Reported.value) = _
      rw [List.map_map]
      rfl

/-- Brackets have a layer where they are filled with one. -/
theorem classifyEnclosed_value {empty : Value} {filled : Reported Initializer} {l : Layer}
    (h : filled.value = l.build fun s => (inner s).value) (t enclosed : Text) :
    (classifyEnclosed empty filled t enclosed).value
      = (enclosedLayer empty l t enclosed).build fun s => (inner s).value := by
  unfold classifyEnclosed enclosedLayer
  split
  · rfl
  · split
    · rfl
    · exact h

theorem classifyList_value (t enclosed : Text) :
    (classifyList inner t enclosed).value
      = (listLayer t enclosed).build fun s => (inner s).value :=
  classifyEnclosed_value (congrArg Initializer.list (classifyItems_value _ _ enclosed)) t enclosed

theorem classifyTuple_value (t enclosed : Text) :
    (classifyTuple inner t enclosed).value
      = (tupleLayer t enclosed).build fun s => (inner s).value :=
  classifyEnclosed_value (congrArg Initializer.tuple (classifyItems_value _ _ enclosed)) t enclosed

theorem classifyDict_value (t enclosed : Text) :
    (classifyDict inner t enclosed).value
      = (dictLayer t enclosed).build fun s => (inner s).value := by
  refine classifyEnclosed_value ?_ t enclosed
  split
  · rfl
  · refine congrArg Initializer.dict ?_
    unfold entries Reported.concat
    dsimp only
    rw [List.flatMap_map, List.map_flatMap]
    exact List.flatMap_congr fun piece _ => classifyEntries_value piece

/-- A name has a layer where it is classified. -/
theorem classifyName?_value (t : Text) :
    (classifyName? inner t).map Reported.value
      = (nameLayer? t).map (Layer.build fun s => (inner s).value) := by
  unfold classifyName? nameLayer?
  cases t.breakTopLevel? (· == '(') with
  | none =>
      dsimp only
      split
      · rfl
      · rfl
  | some b =>
      dsimp only
      cases enclosed? '(' ')' (b.char :: b.after) with
      | none => rfl
      | some arguments =>
          dsimp only
          split
          · refine congrArg (fun args => some (Initializer.call _ args)) ?_
            rw [classifyItems_value, List.map_map]
            rfl
          · rfl

theorem classifyName?_getD_value (t : Text) :
    ((classifyName? inner t).getD (unclassified t (.unrecognizedExpression t))).value
      = ((nameLayer? t).getD (.literal (.unrecognized t))).build fun s => (inner s).value := by
  have named : (classifyName? inner t).map Reported.value = _ := classifyName?_value t
  cases hname : classifyName? inner t with
  | none =>
      rw [hname] at named
      rw [Option.map_eq_none_iff.1 named.symm]
      rfl
  | some r =>
      rw [hname] at named
      obtain ⟨l, hl, hvalue⟩ := Option.map_eq_some_iff.1 named.symm
      rw [hl]
      exact hvalue.symm

/-- **THE FORM OF AN EXPRESSION DOES NOT DEPEND ON WHAT IS INSIDE.** -/
theorem classifyForm_value (t : Text) :
    (classifyForm inner t).value = t.layer.build fun s => (inner s).value := by
  unfold classifyForm layer
  split
  · rfl
  · split
    · exact congrArg Initializer.tuple (classifyItems_value _ _ t)
    · -- literals, then brackets of each kind, then names
      cases constant? t with
      | some v => rfl
      | none =>
          cases numberValue? t with
          | some r => rfl
          | none =>
              cases stringValue? t with
              | some s => rfl
              | none =>
                  cases enclosed? '[' ']' t with
                  | some enclosed => exact classifyList_value t enclosed
                  | none =>
                      cases enclosed? '{' '}' t with
                      | some enclosed => exact classifyDict_value t enclosed
                      | none =>
                          cases enclosed? '(' ')' t with
                          | some enclosed => exact classifyTuple_value t enclosed
                          | none => exact classifyName?_getD_value t

/-! ## §3. Which layer a text has. -/

/-- Commas at top level come before anything else. -/
theorem layer_of_hasTopLevel {t : Text} (h : t.hasTopLevel ',' = true) :
    t.layer = .tuple t.items := by
  have nonempty : ¬ t.isEmpty = true := by
    intro hempty
    rw [List.isEmpty_iff.1 hempty] at h
    unfold hasTopLevel lexemes at h
    rw [Nesting.lexemes_nil] at h
    exact nomatch h
  unfold layer
  rw [if_neg nonempty, if_pos h]

section
variable {t enclosed : Text}

/-- What brackets enclose has no comma at top level and is no literal. -/
theorem layer_of_enclosed? {opener closer : Char} (hpair : BracketPair opener closer)
    (h : enclosed? opener closer t = some enclosed) :
    t.layer
      = if let some enclosed := enclosed? '[' ']' t then listLayer t enclosed
        else if let some enclosed := enclosed? '{' '}' t then dictLayer t enclosed
        else if let some enclosed := enclosed? '(' ')' t then tupleLayer t enclosed
        else (nameLayer? t).getD (.literal (.unrecognized t)) := by
  have notComma : opener ≠ ',' := by
    rcases hpair with ⟨rfl, -⟩ | ⟨rfl, -⟩ | ⟨rfl, -⟩ <;> decide
  have no := noLiteral_of_enclosed? hpair h
  have nonempty : ¬ t.isEmpty = true := by
    rw [(eq_of_enclosed? h).1]
    exact Bool.false_ne_true
  unfold layer
  rw [if_neg nonempty, hasTopLevel_of_enclosed? h notComma, if_neg Bool.false_ne_true, no.constant,
    no.number, no.string]

theorem layer_of_square (h : enclosed? '[' ']' t = some enclosed) :
    t.layer = listLayer t enclosed := by
  rw [layer_of_enclosed? (.inr (.inl ⟨rfl, rfl⟩)) h, h]

theorem layer_of_braces (h : enclosed? '{' '}' t = some enclosed) :
    t.layer = dictLayer t enclosed := by
  have square : enclosed? '[' ']' t = none := by
    rw [(eq_of_enclosed? h).1]
    exact enclosed?_cons_of_ne (by decide) _
  rw [layer_of_enclosed? (.inr (.inr ⟨rfl, rfl⟩)) h, square, h]

theorem layer_of_parentheses (h : enclosed? '(' ')' t = some enclosed) :
    t.layer = tupleLayer t enclosed := by
  have square : enclosed? '[' ']' t = none := by
    rw [(eq_of_enclosed? h).1]
    exact enclosed?_cons_of_ne (by decide) _
  have braces : enclosed? '{' '}' t = none := by
    rw [(eq_of_enclosed? h).1]
    exact enclosed?_cons_of_ne (by decide) _
  rw [layer_of_enclosed? (.inl ⟨rfl, rfl⟩) h, square, braces, h]

end

/-- The layers there are, each with what makes a text have it. -/
inductive HasLayer (t : Text) : Layer → Prop where
  | literal (v : Value) : HasLayer t (.literal v)
  | items (h : t.hasTopLevel ',' = true) : HasLayer t (.tuple t.items)
  | square {enclosed : Text} (h : enclosed? '[' ']' t = some enclosed)
      (hblank : enclosed.trim ≠ []) : HasLayer t (.list enclosed.items)
  | braces {enclosed : Text} (h : enclosed? '{' '}' t = some enclosed)
      (hcomprehension : isComprehension enclosed = false)
      (hcolon : enclosed.hasTopLevel ':' = true) : HasLayer t (.dict enclosed.entries)
  | parentheses {enclosed : Text} (h : enclosed? '(' ')' t = some enclosed)
      (hblank : enclosed.trim ≠ []) : HasLayer t (.tuple enclosed.items)
  | name (path : List Text) : HasLayer t (.name path)
  | call (path args : List Text) : HasLayer t (.call path args)

section
variable {t enclosed : Text}

theorem HasLayer.enclosedLayer {empty : Value} {l : Layer}
    (h : isComprehension enclosed = false → enclosed.trim ≠ [] → HasLayer t l) :
    HasLayer t (enclosedLayer empty l t enclosed) := by
  unfold Text.enclosedLayer
  split
  · exact .literal _
  · next hcomprehension =>
    split
    · exact .literal _
    · next hblank =>
      exact h (Bool.eq_false_iff.2 hcomprehension) fun hnil => hblank (List.isEmpty_iff.2 hnil)

theorem HasLayer.listLayer (h : enclosed? '[' ']' t = some enclosed) :
    HasLayer t (listLayer t enclosed) :=
  .enclosedLayer fun _ hblank => .square h hblank

theorem HasLayer.dictLayer (h : enclosed? '{' '}' t = some enclosed) :
    HasLayer t (dictLayer t enclosed) := by
  refine .enclosedLayer fun hcomprehension _ => ?_
  split
  · exact .literal _
  · next hcolon => exact .braces h hcomprehension (by simpa using hcolon)

theorem HasLayer.tupleLayer (h : enclosed? '(' ')' t = some enclosed) :
    HasLayer t (tupleLayer t enclosed) :=
  .enclosedLayer fun _ hblank => .parentheses h hblank

theorem HasLayer.nameLayer {l : Layer} (h : nameLayer? t = some l) : HasLayer t l := by
  unfold nameLayer? at h
  split at h
  · split at h
    · obtain rfl := Option.some.inj h
      exact .name _
    · cases h
  · split at h
    · cases h
    · split at h
      · obtain rfl := Option.some.inj h
        exact .call _ _
      · cases h

end

/-- **A TEXT HAS ONE OF THESE LAYERS.** -/
theorem hasLayer (t : Text) : t.HasLayer t.layer := by
  unfold layer
  split
  · exact .literal _
  · split
    · next hcomma => exact .items hcomma
    · -- literals, then brackets of each kind, then names
      split
      · exact .literal _
      · split
        · exact .literal _
        · split
          · exact .literal _
          · split
            · next h => exact .listLayer h
            · split
              · next h => exact .dictLayer h
              · split
                · next h => exact .tupleLayer h
                · cases hname : nameLayer? t with
                  | none => exact .literal _
                  | some l => exact .nameLayer hname

/-! ## §4. All levels. -/

/-- The expressions in a text, from the outside in, each trimmed, down so many levels. -/
def expressionsWithin : Nat → Text → List Text
  | 0, _ => []
  | levels + 1, t => t.trim :: t.trim.layer.parts.flatMap (expressionsWithin levels)

/-- The expressions in a text that are read. -/
def expressions (t : Text) : List Text := expressionsWithin (levelLimit + 1) t

/-- An item behind a missing comma is an expression too; the text of a comprehension is one. -/
example :
    expressions "[1 f(x), {a: [y for y in z]}]".toList
      = ["[1 f(x), {a: [y for y in z]}]".toList, "1".toList, "f(x)".toList, "x".toList,
         "{a: [y for y in z]}".toList, "a".toList, "[y for y in z]".toList] := by
  decide +kernel

end Text

end ClassOutline
