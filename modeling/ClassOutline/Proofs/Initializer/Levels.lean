/-
  ClassOutline.Proofs.Initializer.Levels
  ────────────────────────────────
  **WHAT STANDS TOO DEEP IS CUT OFF, KEPT AND REPORTED.**

  A place in an expression is a path: which part, which part of that, and so on
  (`Text.partAt?`).  A classification has the value of each part at the part's own
  place (`partAt?_classifyWithin`).  Where no level is left, the text that stands
  there is kept, and each of these places is reported once, in the order of the
  text (`tooDeep_classifyWithin`).

  So the value is no higher than the levels (`height_classifyWithin_le`), whatever the
  text.  Each of the three is an induction on the levels; one level hands all of
  its parts to the level below, items, keys, values and arguments alike.
-/
import Mathlib.Data.List.Nodup
import ClassOutline.Proofs.Initializer.Layer
import ClassOutline.Proofs.Initializer.Rendered
import ClassOutline.Proofs.Initializer.Results

namespace ClassOutline

/-! ## §1. Heights. -/

theorem Value.height_of_isLiteral {v : Value} (h : v.isLiteral = true) : v.height = 0 := by
  cases v with
  | bool | int | float | string | nothing | emptyList | emptyDict | emptyTuple => rfl
  | _ => exact nomatch h

namespace Initializer

mutual

/-- How many expressions stand inside one another: a container, and a name with arguments, is
one higher than what is in it. -/
def height : Initializer → Nat
  | literal v => v.height
  | name _ => 0
  | list items | tuple items | call _ items => heightAmong items + 1
  | dict entries => heightAmongEntries entries + 1

/-- The greatest height of the expressions. -/
def heightAmong : List Initializer → Nat
  | [] => 0
  | i :: is => max i.height (heightAmong is)

/-- The greatest height of the keys and values. -/
def heightAmongEntries : List (Initializer × Initializer) → Nat
  | [] => 0
  | (k, v) :: rest => max (max k.height v.height) (heightAmongEntries rest)

end

/-- The expressions directly inside an expression, keys and values alike. -/
def children : Initializer → List Initializer
  | literal _ | name _ => []
  | list items | tuple items | call _ items => items
  | dict entries => entries.flatMap fun e => [e.1, e.2]

theorem heightAmong_le {n : Nat} {is : List Initializer} (h : ∀ i ∈ is, i.height ≤ n) :
    heightAmong is ≤ n := by
  induction is with
  | nil => exact Nat.zero_le n
  | cons i is ih =>
      obtain ⟨first, others⟩ := List.forall_mem_cons.1 h
      exact Nat.max_le.2 ⟨first, ih others⟩

theorem heightAmongEntries_le {n : Nat} {es : List (Initializer × Initializer)}
    (h : ∀ i ∈ es.flatMap fun e => [e.1, e.2], i.height ≤ n) : heightAmongEntries es ≤ n := by
  induction es with
  | nil => exact Nat.zero_le n
  | cons e es ih =>
      obtain ⟨key, h⟩ := List.forall_mem_cons.1 h
      obtain ⟨value, others⟩ := List.forall_mem_cons.1 h
      exact Nat.max_le.2 ⟨Nat.max_le.2 ⟨key, value⟩, ih others⟩

/-- An expression is at most one higher than what is in it. -/
theorem height_le_succ {n : Nat} {i : Initializer} (hliteral : ∀ v, i = literal v → v.height = 0)
    (h : ∀ c ∈ i.children, c.height ≤ n) : i.height ≤ n + 1 := by
  cases i with
  | literal v =>
      show v.height ≤ n + 1
      rw [hliteral v rfl]
      exact Nat.zero_le _
  | name => exact Nat.zero_le _
  | list | tuple | call => exact Nat.succ_le_succ (heightAmong_le h)
  | dict => exact Nat.succ_le_succ (heightAmongEntries_le h)

end Initializer

/-- What is read inside a layer are its parts, in order. -/
theorem Layer.children_build (inner : Text → Initializer) (l : Layer) :
    (l.build inner).children = l.parts.map inner := by
  cases l with
  | literal | name | list | tuple | call => rfl
  | dict entries =>
      show (entries.map _).flatMap _ = (entries.flatMap _).map inner
      rw [List.flatMap_map, List.map_flatMap]
      rfl

namespace Text

variable {inner : Classifier}

/-- A literal has nothing inside. -/
theorem LevelResult.height_eq_zero {r : Reported Initializer} (h : LevelResult inner r) {v : Value}
    (hv : r.value = .literal v) : v.height = 0 := by
  cases h with
  | literal h =>
      obtain rfl := Initializer.literal.inj hv
      exact Value.height_of_isLiteral h
  | kept =>
      obtain rfl := Initializer.literal.inj hv
      rfl
  | name | list | dict | tuple | call => exact nomatch hv

/-- One level hands each of its parts to the level below. -/
theorem children_classifyWithin_succ (levels : Nat) (t : Text) :
    (classifyWithin (levels + 1) t).value.children
      = t.trim.layer.parts.map fun s => (classifyWithin levels s).value := by
  show (classifyForm (classifyWithin levels) t.trim).value.children = _
  rw [classifyForm_value, Layer.children_build]

/-- **A VALUE IS NO HIGHER THAN THE LEVELS.** -/
theorem height_classifyWithin_le (levels : Nat) (t : Text) :
    (classifyWithin levels t).value.height ≤ levels := by
  induction levels generalizing t with
  | zero => exact Nat.le_refl 0
  | succ levels ih =>
      refine Initializer.height_le_succ
        (fun v hv => (classifyForm_result _ t.trim).height_eq_zero hv) fun c hc => ?_
      rw [children_classifyWithin_succ] at hc
      obtain ⟨s, -, rfl⟩ := List.mem_map.1 hc
      exact ih s

end Text

/-! ## §2. Places. -/

/-- What stands at a place in an expression, if there is such a place. -/
def Initializer.partAt? : List Nat → Initializer → Option Initializer
  | [], i => some i
  | k :: path, i => i.children[k]?.bind (partAt? path)

theorem Initializer.partAt?_cons (k : Nat) (path : List Nat) (i : Initializer) :
    i.partAt? (k :: path) = i.children[k]?.bind (partAt? path) := rfl

namespace Text

/-- What is written at a place in an expression, if there is such a place. -/
def partAt? : List Nat → Text → Option Text
  | [], t => some t
  | k :: path, t => t.trim.layer.parts[k]?.bind (partAt? path)

theorem partAt?_cons (k : Nat) (path : List Nat) (t : Text) :
    t.partAt? (k :: path) = t.trim.layer.parts[k]?.bind (partAt? path) := rfl

theorem isSome_partAt?_cons_iff {k : Nat} {path : List Nat} {t : Text} :
    (t.partAt? (k :: path)).isSome
      ↔ ∃ s, t.trim.layer.parts[k]? = some s ∧ (s.partAt? path).isSome := by
  rw [partAt?_cons]
  cases t.trim.layer.parts[k]? with
  | none => exact iff_of_false Bool.false_ne_true fun ⟨_, hs, _⟩ => nomatch hs
  | some s =>
      constructor
      · exact fun hpart => ⟨s, rfl, hpart⟩
      · rintro ⟨s, ⟨⟩, hpart⟩
        exact hpart

/-- **EACH PART IS CLASSIFIED WHERE IT STANDS**, with the levels that are left there. -/
theorem partAt?_classifyWithin {levels : Nat} {path : List Nat} (t : Text)
    (h : path.length ≤ levels) :
    (classifyWithin levels t).value.partAt? path
      = (t.partAt? path).map fun s => (classifyWithin (levels - path.length) s).value := by
  induction path generalizing levels t with
  | nil => rfl
  | cons k path ih =>
      cases levels with
      | zero => exact absurd h (Nat.not_succ_le_zero _)
      | succ levels =>
          rw [Initializer.partAt?_cons, children_classifyWithin_succ, List.getElem?_map,
            partAt?_cons, List.length_cons, Nat.add_sub_add_right]
          cases t.trim.layer.parts[k]? with
          | none => rfl
          | some s => exact ih s (Nat.le_of_succ_le_succ h)

/-- The places at a depth, in the order of the text. -/
def placesAt : Nat → Text → List (List Nat)
  | 0, _ => [[]]
  | depth + 1, t =>
      t.trim.layer.parts.zipIdx.flatMap fun s => (placesAt depth s.1).map (s.2 :: ·)

/-- These are the paths of that length to which something stands. -/
theorem mem_placesAt {depth : Nat} {t : Text} {path : List Nat} :
    path ∈ t.placesAt depth ↔ path.length = depth ∧ (t.partAt? path).isSome := by
  induction depth generalizing t path with
  | zero =>
      show path ∈ [[]] ↔ _
      rw [List.mem_singleton, List.length_eq_zero_iff]
      constructor
      · rintro rfl
        exact ⟨rfl, rfl⟩
      · exact And.left
  | succ depth ih =>
      unfold placesAt
      simp only [List.mem_flatMap, List.mem_map, List.mem_zipIdx_iff_getElem?, ih]
      constructor
      · rintro ⟨s, hs, path, ⟨hlength, hpart⟩, rfl⟩
        exact ⟨congrArg (· + 1) hlength, isSome_partAt?_cons_iff.2 ⟨s.1, hs, hpart⟩⟩
      · rintro ⟨hlength, hpart⟩
        cases path with
        | nil => exact nomatch hlength
        | cons k path =>
            obtain ⟨s, hs, hpart⟩ := isSome_partAt?_cons_iff.1 hpart
            exact ⟨(s, k), hs, path, ⟨Nat.succ.inj hlength, hpart⟩, rfl⟩

/-- No place is listed twice. -/
theorem nodup_placesAt (depth : Nat) (t : Text) : (t.placesAt depth).Nodup := by
  induction depth generalizing t with
  | zero => exact List.nodup_singleton []
  | succ depth ih =>
      refine List.nodup_flatMap.2 ⟨fun s _ => (ih s.1).map List.cons_injective, ?_⟩
      -- paths through different parts differ in their first step
      have numbers : (t.trim.layer.parts.zipIdx.map Prod.snd).Nodup := by
        rw [List.zipIdx_map_snd]
        exact List.nodup_range'
      refine (List.pairwise_map.1 numbers).imp fun {s u} hne path hs hu => ?_
      obtain ⟨below, -, rfl⟩ := List.mem_map.1 hs
      obtain ⟨below', -, hpath⟩ := List.mem_map.1 hu
      exact hne (List.cons.inj hpath).1.symm

end Text

/-! ## §3. Reports. -/

/-- The cause is that an expression stands inside too many others. -/
def Cause.isTooDeep : Cause → Bool
  | nestingTooDeep _ => true
  | _ => false

namespace Reported

section
variable {α : Type}

/-- What is reported about expressions that stand too deep. -/
def tooDeep (r : Reported α) : List Cause := r.causes.filter Cause.isTooDeep

theorem tooDeep_all (rs : List (Reported α)) : (all rs).tooDeep = rs.flatMap tooDeep :=
  List.filter_flatMap

theorem tooDeep_concat (rs : List (Reported (List α))) :
    (concat rs).tooDeep = rs.flatMap tooDeep := List.filter_flatMap

/-- A cause of another sort that came before. -/
theorem tooDeep_since {earlier : List Cause} (h : ∀ c ∈ earlier, c.isTooDeep = false)
    (r : Reported α) : (r.since earlier).tooDeep = r.tooDeep := by
  show (earlier ++ r.causes).filter Cause.isTooDeep = _
  rw [List.filter_append, List.filter_eq_nil_iff.2 fun c hc => Bool.eq_false_iff.1 (h c hc)]
  rfl

end

end Reported

namespace Text

variable {inner : Classifier}

/-- What one level says of depth is what is said of the items. -/
theorem tooDeep_classifyItems (kind : ItemKind) (select : Text → Text) (t : Text) :
    (classifyItems inner kind select t).tooDeep
      = t.items.flatMap fun part => (inner (select part)).tooDeep := by
  unfold classifyItems items
  rw [Reported.tooDeep_concat, List.flatMap_map, List.flatMap_assoc]
  refine List.flatMap_congr fun piece _ => ?_
  dsimp only
  rw [Reported.tooDeep_since, Reported.tooDeep_all, List.flatMap_map]
  -- a missing comma is no matter of depth
  split
  · exact List.forall_mem_singleton.2 rfl
  · exact fun c hc => absurd hc List.not_mem_nil

theorem tooDeep_classifyEntries (piece : Text) :
    (classifyEntries inner piece).tooDeep
      = (entriesOf piece).flatMap fun e => (inner e.key).tooDeep ++ (inner e.value).tooDeep := by
  unfold classifyEntries entriesOf
  split
  · rfl
  · dsimp only
    split
    · next hempty =>
      rw [List.isEmpty_iff.1 hempty]
      rfl
    · rw [Reported.tooDeep_since, Reported.tooDeep_all, List.flatMap_map]
      · exact List.flatMap_congr fun e _ => List.filter_append _ _
      · split
        · exact List.forall_mem_singleton.2 rfl
        · exact fun c hc => absurd hc List.not_mem_nil

theorem tooDeep_classifyEnclosed {empty : Value} {filled : Reported Initializer} {l : Layer}
    (h : filled.tooDeep = l.parts.flatMap fun s => (inner s).tooDeep) (t enclosed : Text) :
    (classifyEnclosed empty filled t enclosed).tooDeep
      = (enclosedLayer empty l t enclosed).parts.flatMap fun s => (inner s).tooDeep := by
  unfold classifyEnclosed enclosedLayer
  split
  · rfl
  · split
    · rfl
    · exact h

theorem tooDeep_classifyDict (t enclosed : Text) :
    (classifyDict inner t enclosed).tooDeep
      = (dictLayer t enclosed).parts.flatMap fun s => (inner s).tooDeep := by
  refine tooDeep_classifyEnclosed ?_ t enclosed
  split
  · rfl
  · show (Reported.concat (enclosed.commaItems.map (classifyEntries inner))).tooDeep
      = (enclosed.entries.flatMap fun e => [e.key, e.value]).flatMap _
    unfold entries
    rw [Reported.tooDeep_concat, List.flatMap_map, List.flatMap_assoc, List.flatMap_assoc]
    refine List.flatMap_congr fun piece _ => ?_
    rw [tooDeep_classifyEntries]
    refine List.flatMap_congr fun e _ => ?_
    show _ = _ ++ (_ ++ [])
    rw [List.append_nil]

theorem tooDeep_classifyName?_getD (t : Text) :
    ((classifyName? inner t).getD (unclassified t (.unrecognizedExpression t))).tooDeep
      = ((nameLayer? t).getD (.literal (.unrecognized t))).parts.flatMap
          fun s => (inner s).tooDeep := by
  unfold classifyName? nameLayer?
  cases t.breakTopLevel? (· == '(') with
  | none =>
      dsimp only
      split
      · rfl
      · rfl
  | some b =>
      dsimp only
      cases enclosed? '(' ')' (b.char :: b.after) with
      | none => rfl
      | some arguments =>
          dsimp only
          split
          · show (classifyItems inner _ _ _).tooDeep = (List.map _ _).flatMap _
            rw [tooDeep_classifyItems, List.flatMap_map]
          · rfl

theorem tooDeep_numberValue? {t : Text} {r : Reported Value} (h : numberValue? t = some r) :
    r.tooDeep = [] := by
  unfold numberValue? at h
  dsimp only at h
  split at h
  · cases h
  · split at h
    · obtain rfl := Option.some.inj h
      unfold integerValue
      extract_lets n
      split
      · rfl
      · rfl
    · obtain rfl := Option.some.inj h
      rfl
    · cases h

/-- **ONE LEVEL SAYS NOTHING OF DEPTH BUT WHAT IS SAID OF ITS PARTS.** -/
theorem tooDeep_classifyForm (t : Text) :
    (classifyForm inner t).tooDeep = t.layer.parts.flatMap fun s => (inner s).tooDeep := by
  unfold classifyForm layer
  split
  · rfl
  · split
    · exact tooDeep_classifyItems _ _ t
    · -- literals, then brackets of each kind, then names
      cases constant? t with
      | some v => rfl
      | none =>
          cases hnumber : numberValue? t with
          | some r => exact tooDeep_numberValue? hnumber
          | none =>
              cases stringValue? t with
              | some s => rfl
              | none =>
                  cases enclosed? '[' ']' t with
                  | some enclosed =>
                      exact tooDeep_classifyEnclosed (tooDeep_classifyItems _ _ enclosed) t enclosed
                  | none =>
                      cases enclosed? '{' '}' t with
                      | some enclosed => exact tooDeep_classifyDict t enclosed
                      | none =>
                          cases enclosed? '(' ')' t with
                          | some enclosed =>
                              exact tooDeep_classifyEnclosed (tooDeep_classifyItems _ _ enclosed) t
                                enclosed
                          | none => exact tooDeep_classifyName?_getD t

/-- **EACH PLACE BELOW THE LAST LEVEL IS REPORTED ONCE.** -/
theorem tooDeep_classifyWithin (levels : Nat) (t : Text) :
    (classifyWithin levels t).tooDeep
      = (t.placesAt levels).map fun _ => .nestingTooDeep levelLimit := by
  induction levels generalizing t with
  | zero => rfl
  | succ levels ih =>
      show (classifyForm (classifyWithin levels) t.trim).tooDeep = (List.flatMap _ _).map _
      rw [tooDeep_classifyForm, List.map_flatMap]
      simp only [ih, List.map_map]
      -- the number of a part does not show in what is reported
      conv_lhs => rw [← List.zipIdx_map_fst 0 t.trim.layer.parts]
      rw [List.flatMap_map]
      rfl

/-! ## §4. Brackets inside brackets. -/

/-- A text in so many square brackets. -/
def bracketed : Nat → Text → Text
  | 0, t => t
  | n + 1, t => '[' :: (bracketed n t ++ [']'])

/-- A solid text is one item. -/
theorem Solid.items_eq {t : Text} (h : Solid t) : t.items = [t] := by
  have pieces : (join ", " [t]).commaItems = [t] :=
    commaItems_join (List.forall_mem_singleton.2 ⟨h.avoids rfl, h.trimmed, h.nonempty⟩)
  rw [join_singleton] at pieces
  unfold items
  rw [pieces, List.flatMap_singleton, h.adjacentItems_eq]

section Bracketed

variable {t : Text} (h : Solid t) (hfor : t ≠ "for".toList)

include hfor in
theorem bracketed_ne_for (n : Nat) : bracketed n t ≠ "for".toList := by
  cases n with
  | zero => exact hfor
  | succ n => exact fun hword => absurd (List.cons.inj hword).1 (by decide)

include h

theorem solid_bracketed (n : Nat) : Solid (bracketed n t) := by
  induction n with
  | zero => exact h
  | succ n ih => exact .of_brackets (.inr (.inl ⟨rfl, rfl⟩)) ih.keeps_inside

include hfor

/-- A pair of brackets is a list of what they enclose. -/
theorem layer_bracketed_succ (n : Nat) :
    (bracketed (n + 1) t).layer = .list [bracketed n t] := by
  have solid := solid_bracketed h n
  have enclosed : enclosed? '[' ']' (bracketed (n + 1) t) = some (bracketed n t) :=
    enclosed?_of_brackets (.inr (.inl ⟨rfl, rfl⟩)) solid.keeps_inside
  have noComprehension : isComprehension (bracketed n t) = false := by
    unfold isComprehension
    rw [solid.atoms_eq]
    exact Bool.eq_false_iff.2 fun hmem => bracketed_ne_for hfor n
      (List.mem_singleton.1 (List.contains_iff_mem.1 hmem)).symm
  have nonblank : (bracketed n t).trim.isEmpty = false := by
    have nonblank := solid.isEmpty_trim_append []
    rwa [List.append_nil] at nonblank
  rw [layer_of_square enclosed, listLayer, enclosedLayer, noComprehension, nonblank, solid.items_eq]
  rfl

/-- Inside some of the brackets the text stands in the others. -/
theorem partAt?_bracketed (n m : Nat) :
    (bracketed (n + m) t).partAt? (List.replicate n 0) = some (bracketed m t) := by
  induction n with
  | zero => rw [Nat.zero_add]; rfl
  | succ n ih =>
      rw [Nat.succ_add, List.replicate_succ, partAt?_cons,
        (solid_bracketed h (n + m + 1)).trimmed, layer_bracketed_succ h hfor]
      exact ih

end Bracketed

/-! ## §5. All levels. -/

/-- **WHAT IS READ HAS BOUNDED HEIGHT, AND WHAT IS CUT OFF IS KEPT AND REPORTED.**  A value is at
most one higher than the limit.  At each place below the last level the trimmed text is kept;
there is one report for each of these places, and no place is listed twice. -/
theorem classify_bounds_height_and_reports_cuts (t : Text) :
    t.classify.value.height ≤ levelLimit + 1
      ∧ (∀ path, path.length = levelLimit + 1 →
          t.classify.value.partAt? path
            = (t.partAt? path).map fun s => Initializer.unrecognized s.trim)
      ∧ (t.placesAt (levelLimit + 1)).Nodup
      ∧ (∀ path, path ∈ t.placesAt (levelLimit + 1)
          ↔ path.length = levelLimit + 1 ∧ (t.partAt? path).isSome)
      ∧ t.classify.tooDeep
          = (t.placesAt (levelLimit + 1)).map (fun _ => Cause.nestingTooDeep levelLimit)
      ∧ (Cause.nestingTooDeep levelLimit).kind = .unclassifiableLiteral
      ∧ (Cause.nestingTooDeep levelLimit).message
          = "nesting deeper than 256 levels".toList := by
  refine ⟨height_classifyWithin_le _ t, fun path hlength => ?_, nodup_placesAt _ t,
    fun path => mem_placesAt, tooDeep_classifyWithin _ t, rfl, by decide⟩
  have none_left : levelLimit + 1 - path.length = 0 := by
    rw [hlength, Nat.sub_self]
  unfold classify
  rw [partAt?_classifyWithin t hlength.le, none_left]
  rfl

/-- Inside too many brackets a name is cut off with a pair of brackets around it. -/
theorem classify_cuts_bracketed_name :
    (List.replicate (levelLimit + 1) 0).length = levelLimit + 1
      ∧ (bracketed (levelLimit + 2) "x".toList).partAt? (List.replicate (levelLimit + 1) 0)
        = some "[x]".toList
      ∧ (bracketed (levelLimit + 2) "x".toList).classify.value.partAt?
          (List.replicate (levelLimit + 1) 0) = some (.unrecognized "[x]".toList)
      ∧ .nestingTooDeep levelLimit ∈ (bracketed (levelLimit + 2) "x".toList).classify.causes := by
  have length : (List.replicate (levelLimit + 1) 0).length = levelLimit + 1 :=
    List.length_replicate
  have part : (bracketed (levelLimit + 2) "x".toList).partAt? (List.replicate (levelLimit + 1) 0)
      = some "[x]".toList :=
    partAt?_bracketed (solid_of_isName (by decide)) (by decide) (levelLimit + 1) 1
  obtain ⟨-, kept, -, places, reports, -⟩ :=
    classify_bounds_height_and_reports_cuts (bracketed (levelLimit + 2) "x".toList)
  refine ⟨length, part, ?_, ?_⟩
  · rw [kept _ length, part]
    rfl
  · have place := (places (List.replicate (levelLimit + 1) 0)).2
      ⟨length, Option.isSome_iff_exists.2 ⟨_, part⟩⟩
    refine List.mem_of_mem_filter (p := Cause.isTooDeep) ?_
    show _ ∈ Reported.tooDeep _
    rw [reports]
    exact List.mem_map.2 ⟨_, place, rfl⟩

end Text

end ClassOutline
