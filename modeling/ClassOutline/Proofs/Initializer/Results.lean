/-
  ClassOutline.Proofs.Initializer.Results
  ────────────────────────────────
  **WHAT ONE LEVEL OF A CLASSIFICATION CAN RESULT IN.**

  The forms of an expression are tried one after the other, but there are few
  ways for one level to end: a literal, a name, a text that is kept as it is and
  reported, or parts that are put together, each with what is reported of it
  (`Text.LevelResult`).  What holds of all of these, if it holds inside, holds of
  a classification.
-/
import ClassOutline.Initializer.Classify

namespace ClassOutline

/-- A literal of a known form: nothing is inside it, and it stands for no class. -/
def Value.isLiteral : Value → Bool
  | bool _ | int _ | float _ | string _ | nothing | emptyList | emptyDict | emptyTuple => true
  | _ => false

namespace Text

/-- The ways in which one level of a classification can end. -/
inductive LevelResult (inner : Classifier) : Reported Initializer → Prop where
  | literal {v : Value} (h : v.isLiteral = true) : LevelResult inner ⟨.literal v, []⟩
  /-- The text is kept, and that its form is not known is reported. -/
  | kept (t : Text) {cause : Cause} (h : cause.kind = .unclassifiableLiteral) :
      LevelResult inner (unclassified t cause)
  | name (path : List Text) : LevelResult inner ⟨.name path, []⟩
  | list (t : Text) : LevelResult inner ((classifyItems inner .listElements id t).map .list)
  | dict (t : Text) :
      LevelResult inner ((Reported.concat (t.commaItems.map (classifyEntries inner))).map .dict)
  | tuple (t : Text) : LevelResult inner ((classifyItems inner .tupleElements id t).map .tuple)
  | call (path : List Text) (t : Text) :
      LevelResult inner ((classifyItems inner .callArguments argumentValue t).map (.call path))

variable {inner : Classifier}

theorem isLiteral_of_constant? {t : Text} {v : Value} (h : constant? t = some v) :
    v.isLiteral = true := by
  unfold constant? at h
  split at h
  · cases h; rfl
  · split at h
    · cases h; rfl
    · split at h
      · cases h; rfl
      · cases h

/-- A number is a literal unless it is an integer out of range. -/
theorem numberValue?_result {t : Text} {r : Reported Value} (h : numberValue? t = some r) :
    LevelResult inner (r.map .literal) := by
  unfold numberValue? at h
  dsimp only at h
  split at h
  · cases h
  · split at h
    · obtain rfl := Option.some.inj h
      unfold integerValue
      extract_lets n
      split
      · exact .literal rfl
      · exact .kept t rfl
    · obtain rfl := Option.some.inj h
      exact .literal rfl
    · cases h

theorem classifyEnclosed_result {empty : Value} {filled : Reported Initializer}
    (hempty : empty.isLiteral = true) (h : LevelResult inner filled) (t enclosed : Text) :
    LevelResult inner (classifyEnclosed empty filled t enclosed) := by
  unfold classifyEnclosed
  split
  · exact .kept t rfl
  · split
    · exact .literal hempty
    · exact h

theorem classifyDict_result (t enclosed : Text) :
    LevelResult inner (classifyDict inner t enclosed) := by
  refine classifyEnclosed_result rfl ?_ t enclosed
  split
  · exact .kept t rfl
  · exact .dict enclosed

theorem classifyName?_result {t : Text} {r : Reported Initializer}
    (h : classifyName? inner t = some r) : LevelResult inner r := by
  unfold classifyName? at h
  split at h
  · split at h
    · obtain rfl := Option.some.inj h
      exact .name _
    · cases h
  · split at h
    · cases h
    · split at h
      · obtain rfl := Option.some.inj h
        exact .call _ _
      · cases h

/-- **ONE LEVEL ENDS IN ONE OF THESE WAYS.** -/
theorem classifyForm_result (inner : Classifier) (t : Text) :
    LevelResult inner (classifyForm inner t) := by
  unfold classifyForm
  split
  · exact .kept t rfl
  · split
    · exact .tuple t
    · -- literals
      split
      · next hconstant => exact .literal (isLiteral_of_constant? hconstant)
      · split
        · next hnumber => exact numberValue?_result hnumber
        · split
          · exact .literal rfl
          · -- brackets of each kind, then names
            split
            · exact classifyEnclosed_result rfl (.list _) t _
            · split
              · exact classifyDict_result t _
              · split
                · exact classifyEnclosed_result rfl (.tuple _) t _
                · cases hname : classifyName? inner t with
                  | none => exact .kept t rfl
                  | some r => exact classifyName?_result hname

end Text

end ClassOutline
