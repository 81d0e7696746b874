/-
  ClassOutline.Proofs.Initializer.Rendered
  ────────────────────────────────
  **CLASSIFYING A WRITTEN VALUE GIVES THE VALUE BACK.**

  Before names are looked up a value is an initializer (`Value.initializer`):
  literals as they are, containers element by element, references as the names
  they are made of.  Classifying the written form of a readable value gives that
  initializer and reports nothing, at every depth that is read at all
  (`classify_display`).

  The written form is solid, so between its brackets every comma and colon that
  is seen was put there by writing it.  One level of the classifier reads one level
  of the value (`classifyForm_display`), and the induction is on the levels.
-/
import ClassOutline.Proofs.Initializer.Runs
import ClassOutline.Proofs.Value.Display

namespace ClassOutline

/-! ## §1. What a value is before its names are looked up. -/

namespace Value

mutual

/-- The value as it is classified. -/
def initializer : Value → Initializer
  | list items => .list (initializers items)
  | dict entries => .dict (entryInitializers entries)
  | tuple items => .tuple (initializers items)
  | classReference name => .name (Text.fields '.' name)
  | construction name args => .call (Text.fields '.' name) (initializers args)
  | external path => .name path
  | v => .literal v

/-- The values as they are classified. -/
def initializers : List Value → List Initializer
  | [] => []
  | v :: vs => v.initializer :: initializers vs

/-- The keys and values of entries as they are classified. -/
def entryInitializers : List (Value × Value) → List (Initializer × Initializer)
  | [] => []
  | (k, v) :: rest => (k.initializer, v.initializer) :: entryInitializers rest

end

mutual

/-- How many values stand inside one another; a value with none inside has height zero. -/
def height : Value → Nat
  | list items | tuple items | construction _ items => heightOver items
  | dict entries => heightOverEntries entries
  | _ => 0

/-- One more than the greatest height of the values. -/
def heightOver : List Value → Nat
  | [] => 0
  | v :: vs => max (v.height + 1) (heightOver vs)

/-- One more than the greatest height of the keys and values. -/
def heightOverEntries : List (Value × Value) → Nat
  | [] => 0
  | (k, v) :: rest => max (max (k.height + 1) (v.height + 1)) (heightOverEntries rest)

end

theorem initializers_eq_map (vs : List Value) : initializers vs = vs.map initializer := by
  induction vs with
  | nil => rfl
  | cons v vs ih => rw [initializers, ih, List.map_cons]

theorem entryInitializers_eq_map (entries : List (Value × Value)) :
    entryInitializers entries = entries.map fun e => (e.1.initializer, e.2.initializer) := by
  induction entries with
  | nil => rfl
  | cons e rest ih => rw [entryInitializers, ih, List.map_cons]

end Value

/-! ## §2. Values side by side. -/

namespace Text

variable {inner : Classifier}

/-- Results without causes, put together. -/
theorem concat_map_single {α β : Type} (f : α → β) (xs : List α) :
    Reported.concat (xs.map fun x => ⟨[f x], []⟩) = ⟨xs.map f, []⟩ := by
  induction xs with
  | nil => rfl
  | cons x xs ih =>
      have values := congrArg Reported.value ih
      have causes := congrArg Reported.causes ih
      unfold Reported.concat at values causes ⊢
      rw [List.map_cons, List.flatMap_cons, List.flatMap_cons]
      dsimp only at values causes ⊢
      rw [values, causes]
      rfl

/-- The items of written values are classified as the values, if each of them is. -/
theorem classifyItems_of_solid {kind : ItemKind} {select : Text → Text} {t : Text}
    {vs : List Value} (hitems : t.commaItems = vs.map Value.display)
    (hsolid : ∀ v ∈ vs, v.display.Solid)
    (hinner : ∀ v ∈ vs, inner (select v.display) = ⟨v.initializer, []⟩) :
    classifyItems inner kind select t = ⟨vs.map Value.initializer, []⟩ := by
  unfold classifyItems
  rw [hitems, List.map_map, ← concat_map_single Value.initializer vs]
  refine congrArg Reported.concat (List.map_congr_left fun v hv => ?_)
  simp only [Function.comp_apply]
  rw [(hsolid v hv).adjacentItems_eq, List.map_singleton, hinner v hv]
  rfl

/-- The pieces of written values are the written values. -/
theorem commaItems_displayAll {vs : List Value} (h : ∀ v ∈ vs, v.display.Solid) :
    (join ", " (vs.map Value.display)).commaItems = vs.map Value.display := by
  refine commaItems_join fun t ht => ?_
  obtain ⟨v, hv, rfl⟩ := List.mem_map.1 ht
  exact ⟨(h v hv).avoids rfl, (h v hv).trimmed, (h v hv).nonempty⟩

end Text

/-! ## §3. Classifying what was written. -/

namespace Value

/-- The values directly inside a value. -/
def children : Value → List Value
  | list items | tuple items | construction _ items => items
  | dict entries => entries.flatMap fun e => [e.1, e.2]
  | _ => []

theorem isReadable_of_mem {vs : List Value} (h : allReadable vs = true) {v : Value} (hv : v ∈ vs) :
    v.isReadable = true := by
  induction vs with
  | nil => exact absurd hv List.not_mem_nil
  | cons w vs ih =>
      obtain ⟨hw, hvs⟩ := Bool.and_eq_true_iff.1 h
      rcases List.mem_cons.1 hv with rfl | hv
      · exact hw
      · exact ih hvs hv

theorem isReadable_of_mem_entries {entries : List (Value × Value)}
    (h : allEntriesReadable entries = true) {e : Value × Value} (he : e ∈ entries) :
    e.1.isReadable = true ∧ e.2.isReadable = true := by
  induction entries with
  | nil => exact absurd he List.not_mem_nil
  | cons d rest ih =>
      obtain ⟨hd, hrest⟩ := Bool.and_eq_true_iff.1 h
      rcases List.mem_cons.1 he with rfl | he
      · exact Bool.and_eq_true_iff.1 hd
      · exact ih hrest he

theorem height_lt_heightOver {vs : List Value} {v : Value} (hv : v ∈ vs) :
    v.height < heightOver vs := by
  induction vs with
  | nil => exact absurd hv List.not_mem_nil
  | cons w vs ih =>
      rw [heightOver]
      rcases List.mem_cons.1 hv with rfl | hv
      · omega
      · have := ih hv
        omega

theorem height_lt_heightOverEntries {entries : List (Value × Value)} {e : Value × Value}
    (he : e ∈ entries) :
    e.1.height < heightOverEntries entries ∧ e.2.height < heightOverEntries entries := by
  induction entries with
  | nil => exact absurd he List.not_mem_nil
  | cons d rest ih =>
      obtain ⟨k, v⟩ := d
      rw [heightOverEntries]
      rcases List.mem_cons.1 he with rfl | he
      · dsimp only
        omega
      · have := ih he
        omega

/-- What stands inside a readable value is readable, and less high. -/
theorem children_readable {v : Value} (h : v.isReadable = true) {w : Value} (hw : w ∈ v.children) :
    w.isReadable = true ∧ w.height < v.height := by
  cases v with
  | list items =>
      exact ⟨isReadable_of_mem (Bool.and_eq_true_iff.1 h).2 hw, height_lt_heightOver hw⟩
  | tuple items =>
      exact ⟨isReadable_of_mem (Bool.and_eq_true_iff.1 h).2 hw, height_lt_heightOver hw⟩
  | construction name args =>
      exact ⟨isReadable_of_mem (Bool.and_eq_true_iff.1 h).2 hw, height_lt_heightOver hw⟩
  | dict entries =>
      obtain ⟨e, he, hw⟩ := List.mem_flatMap.1 hw
      obtain ⟨hkey, hvalue⟩ := isReadable_of_mem_entries (Bool.and_eq_true_iff.1 h).2 he
      obtain ⟨keyHeight, valueHeight⟩ := height_lt_heightOverEntries he
      simp only [List.mem_cons, List.not_mem_nil, or_false] at hw
      rcases hw with rfl | rfl
      · exact ⟨hkey, keyHeight⟩
      · exact ⟨hvalue, valueHeight⟩
  | _ => exact absurd hw List.not_mem_nil

variable {inner : Classifier}

theorem keeps_displayAll {vs : List Value} (h : ∀ v ∈ vs, v.display.Solid) :
    Text.Keeps (fun _ => false) (Text.join ", " (vs.map display)) := by
  refine Text.keeps_join_comma rfl rfl fun t ht => ?_
  obtain ⟨v, hv, rfl⟩ := List.mem_map.1 ht
  exact (h v hv).keeps_inside

section

variable {vs : List Value} (h : ∀ v ∈ vs, v.isReadable = true)
include h

theorem undivided_displayAll : ∀ t ∈ vs.map display, t.Undivided :=
  List.forall_mem_map.2 fun v hv => (display_solid v (h v hv)).undivided

theorem for_not_mem_displayAll : "for".toList ∉ vs.map display := by
  intro hmem
  obtain ⟨v, hv, heq⟩ := List.mem_map.1 hmem
  exact (display_not_keyword v (h v hv)).1 heq

end

/-- Written values that are classified as the values give these, and report nothing. -/
theorem classified_displayAll {vs : List Value}
    (hinner : ∀ v ∈ vs, inner v.display = ⟨v.initializer, []⟩) :
    ((vs.map display).map fun t => (inner t).value) = vs.map initializer
      ∧ ((vs.map display).flatMap fun t => (inner t).causes) = [] := by
  rw [List.map_map, List.flatMap_map]
  refine ⟨List.map_congr_left fun v hv => ?_, List.flatMap_eq_nil_iff.2 fun v hv => ?_⟩
  · rw [Function.comp_apply, hinner v hv]
  · rw [hinner v hv]

theorem isComprehension_nil : Text.isComprehension [] = false := by
  unfold Text.isComprehension
  rw [Text.atoms_nil]
  rfl

/-- Empty brackets are classified as what they stand for. -/
theorem classifyForm_emptyList :
    Text.classifyForm inner emptyList.display = ⟨emptyList.initializer, []⟩ := by
  have form : Text.classifyForm inner emptyList.display = Text.classifyList inner _ [] :=
    Text.classifyForm_of_square .nil
  rw [form]
  unfold Text.classifyList Text.classifyEnclosed
  rw [isComprehension_nil]
  rfl

theorem classifyForm_emptyDict :
    Text.classifyForm inner emptyDict.display = ⟨emptyDict.initializer, []⟩ := by
  have form : Text.classifyForm inner emptyDict.display = Text.classifyDict inner _ [] :=
    Text.classifyForm_of_braces .nil
  rw [form]
  unfold Text.classifyDict Text.classifyEnclosed
  rw [isComprehension_nil]
  rfl

theorem classifyForm_emptyTuple :
    Text.classifyForm inner emptyTuple.display = ⟨emptyTuple.initializer, []⟩ := by
  have form : Text.classifyForm inner emptyTuple.display = Text.classifyTuple inner _ [] :=
    Text.classifyForm_of_parentheses .nil
  rw [form]
  unfold Text.classifyTuple Text.classifyEnclosed
  rw [isComprehension_nil]
  rfl

/-- A list is classified by its elements. -/
theorem classifyForm_list {items : List Value} (hne : items ≠ [])
    (h : ∀ v ∈ items, v.isReadable = true)
    (hinner : ∀ v ∈ items, inner v.display = ⟨v.initializer, []⟩) :
    Text.classifyForm inner (list items).display = ⟨(list items).initializer, []⟩ := by
  obtain ⟨values, causes⟩ := classified_displayAll hinner
  rw [display, displayAll_eq_map, List.cons_append, Text.classifyForm_join (by simpa using hne)
    (undivided_displayAll h) (for_not_mem_displayAll h) .list, values, causes, initializer,
    initializers_eq_map]

/-- A tuple of several is classified by its elements. -/
theorem classifyForm_tuple {u w : Value} {vs : List Value}
    (h : ∀ v ∈ u :: w :: vs, v.isReadable = true)
    (hinner : ∀ v ∈ u :: w :: vs, inner v.display = ⟨v.initializer, []⟩) :
    Text.classifyForm inner (tuple (u :: w :: vs)).display
      = ⟨(tuple (u :: w :: vs)).initializer, []⟩ := by
  obtain ⟨values, causes⟩ := classified_displayAll hinner
  have written : (tuple (u :: w :: vs)).display
      = '(' :: (Text.join ", " ((u :: w :: vs).map display) ++ [')']) := by
    rw [← displayAll_eq_map]
    rfl
  rw [written, Text.classifyForm_join (by simp) (undivided_displayAll h)
    (for_not_mem_displayAll h) .tuple, values, causes, initializer, initializers_eq_map]

/-- A tuple of one is written with a comma behind its element, and classified by that. -/
theorem classifyForm_single {v : Value} (h : v.isReadable = true)
    (hinner : inner v.display = ⟨v.initializer, []⟩) :
    Text.classifyForm inner (tuple [v]).display = ⟨(tuple [v]).initializer, []⟩ := by
  have solid := display_solid v h
  have inside : Text.Keeps (fun _ => false) (v.display ++ [',']) :=
    solid.keeps_inside.append_cons Text.isPlain_comma.1 (.cons Text.isPlain_comma rfl .nil)
  have written : (tuple [v]).display = '(' :: ((v.display ++ [',']) ++ [')']) := by
    rw [List.append_assoc]
    rfl
  have noComprehension : Text.isComprehension (v.display ++ [',']) = false := by
    unfold Text.isComprehension
    rw [solid.atoms_sign Text.isPlain_comma rfl]
    refine Bool.eq_false_iff.2 fun hfor => ?_
    have hfor := List.mem_singleton.1 (List.contains_iff_mem.1 hfor)
    exact Text.ne_append_sign (by decide) v.display hfor
  -- the empty piece behind the comma does not count
  have items : Text.commaItems (v.display ++ [',']) = [v].map display :=
    solid.commaItems_append_comma
  rw [written, Text.classifyForm_of_parentheses inside, initializer, initializers_eq_map]
  unfold Text.classifyTuple Text.classifyEnclosed
  rw [noComprehension, solid.isEmpty_trim_append [','],
    Text.classifyItems_of_solid items (fun w hw => List.mem_singleton.1 hw ▸ solid)
      fun w hw => List.mem_singleton.1 hw ▸ hinner]
  rfl

/-- A call is classified by its arguments. -/
theorem classifyForm_construction {name : Text} {args : List Value} (hname : name.isPath = true)
    (h : ∀ v ∈ args, v.isReadable = true)
    (hinner : ∀ v ∈ args, inner v.display = ⟨v.initializer, []⟩) :
    Text.classifyForm inner (construction name args).display
      = ⟨(construction name args).initializer, []⟩ := by
  have solid (v : Value) (hv : v ∈ args) := display_solid v (h v hv)
  -- no argument is a keyword argument, for none has an equals sign at top level
  have values : ∀ v ∈ args, inner (Text.argumentValue v.display) = ⟨v.initializer, []⟩ := by
    intro v hv
    unfold Text.argumentValue
    rw [(solid v hv).keeps.assignment?_eq_none rfl]
    exact hinner v hv
  rw [display, displayAll_eq_map, List.append_assoc, List.cons_append,
    Text.classifyForm_of_call hname (keeps_displayAll solid),
    Text.classifyItems_of_solid (Text.commaItems_displayAll solid) solid values, initializer,
    initializers_eq_map]
  rfl

/-- The written form of an entry. -/
def displayEntry (e : Value × Value) : Text := e.1.display ++ (':' :: ' ' :: e.2.display)

/-- Written entries are made of written keys and values. -/
theorem map_displayEntry (entries : List (Value × Value)) :
    entries.map displayEntry
      = (entries.map fun e => DictEntry.mk e.1.display e.2.display).map DictEntry.written := by
  rw [List.map_map]
  rfl

/-- A written key does not begin with the stars of an unpacking. -/
theorem startsWith_display {v : Value} (h : v.isReadable = true) :
    Text.startsWith v.display ['*', '*'] = false := by
  obtain ⟨c, rest, htext, hc⟩ := (display_solid v h).not_isSeparator_head []
  rw [List.append_nil] at htext
  have noStar : ('*' == c) = false := by
    refine Bool.eq_false_iff.2 fun hstar => ?_
    obtain rfl := eq_of_beq hstar
    exact absurd hc (by decide)
  rw [htext]
  show (('*' == c) && _) = false
  rw [noStar, Bool.false_and]

theorem isSide_display {v : Value} (h : v.isReadable = true) : v.display.IsSide :=
  { (display_solid v h).undivided with
    colon := (display_solid v h).avoids rfl
    notLambda := (display_not_keyword v h).2 }

/-- **A WRITTEN ENTRY IS TOLD FROM ITS NEIGHBOURS.** -/
theorem isApart_displayEntry {e : Value × Value}
    (h : e.1.isReadable = true ∧ e.2.isReadable = true) :
    DictEntry.IsApart ⟨e.1.display, e.2.display⟩ :=
  { key := isSide_display h.1
    value := isSide_display h.2
    notUnpacking := startsWith_display h.1
    notFor := (display_not_keyword e.2 h.2).1 }

/-- A dict is classified by its keys and values. -/
theorem classifyForm_dict {entries : List (Value × Value)} (hne : entries ≠ [])
    (h : ∀ e ∈ entries, e.1.isReadable = true ∧ e.2.isReadable = true)
    (hinner : ∀ e ∈ entries, inner e.1.display = ⟨e.1.initializer, []⟩
      ∧ inner e.2.display = ⟨e.2.initializer, []⟩) :
    Text.classifyForm inner (dict entries).display = ⟨(dict entries).initializer, []⟩ := by
  have written : (dict entries).display
      = '{' :: (Text.join ", " (entries.map displayEntry) ++ ['}']) := by
    rw [display, displayEntries_eq_map]
    rfl
  rw [written, map_displayEntry, DictEntry.classifyForm_dict_join (by simpa using hne)
    (List.forall_mem_map.2 fun e he => isApart_displayEntry (h e he)), initializer,
    entryInitializers_eq_map, List.map_map, List.flatMap_map]
  -- each key and each value is classified as it is, and none reports anything
  have values : (entries.map fun e => ((inner e.1.display).value, (inner e.2.display).value))
      = entries.map fun e => (e.1.initializer, e.2.initializer) := by
    refine List.map_congr_left fun e he => ?_
    rw [(hinner e he).1, (hinner e he).2]
  have causes : (entries.flatMap fun e => (inner e.1.display).causes ++ (inner e.2.display).causes)
      = [] := by
    refine List.flatMap_eq_nil_iff.2 fun e he => ?_
    rw [(hinner e he).1, (hinner e he).2]
    rfl
  rw [causes]
  exact congrArg (fun es => Reported.mk (Initializer.dict es) []) values

/-- **ONE LEVEL**: a readable value is classified as it is, if what stands inside it is. -/
theorem classifyForm_display {v : Value} (h : v.isReadable = true)
    (hinner : ∀ w ∈ v.children, inner w.display = ⟨w.initializer, []⟩) :
    Text.classifyForm inner v.display = ⟨v.initializer, []⟩ := by
  have readable := fun w hw => (children_readable h (w := w) hw).1
  cases v with
  | bool b =>
      rw [Text.classifyForm_of_solid (display_solid _ h)]
      cases b with
      | true => rfl
      | false => rfl
  | nothing => rw [Text.classifyForm_of_solid (display_solid _ h)]; rfl
  | int n =>
      obtain ⟨hlow, hhigh⟩ := Bool.and_eq_true_iff.1 h
      have number := Text.numberValue?_ofInt (of_decide_eq_true hlow) (of_decide_eq_true hhigh)
      rw [Text.classifyForm_of_solid (display_solid _ h), display,
        Text.constant?_eq_none (Text.ofInt_not_keyword n), number]
      rfl
  | string s =>
      rw [Text.classifyForm_of_solid (display_solid _ h), display, List.cons_append,
        Text.constant?_eq_none (Text.not_keyword_of_mem List.mem_cons_self (by decide)),
        Text.numberValue?_eq_none (by decide) (by decide), Text.stringValue?_of_isQuotable h]
      rfl
  | emptyList => exact classifyForm_emptyList
  | emptyDict => exact classifyForm_emptyDict
  | emptyTuple => exact classifyForm_emptyTuple
  | list items =>
      have hne : items ≠ [] := by
        rintro rfl
        exact absurd h Bool.false_ne_true
      exact classifyForm_list hne readable hinner
  | tuple items =>
      cases items with
      | nil => exact absurd h Bool.false_ne_true
      | cons v vs =>
          cases vs with
          | nil => exact classifyForm_single (readable v List.mem_cons_self) (hinner v List.mem_cons_self)
          | cons w vs => exact classifyForm_tuple readable hinner
  | dict entries =>
      have hne : entries ≠ [] := by
        rintro rfl
        exact absurd h Bool.false_ne_true
      have inside (e : Value × Value) (he : e ∈ entries) :
          e.1 ∈ (dict entries).children ∧ e.2 ∈ (dict entries).children :=
        ⟨List.mem_flatMap.2 ⟨e, he, List.mem_cons_self⟩,
          List.mem_flatMap.2 ⟨e, he, List.mem_cons_of_mem _ List.mem_cons_self⟩⟩
      exact classifyForm_dict hne
        (fun e he => ⟨readable _ (inside e he).1, readable _ (inside e he).2⟩)
        (fun e he => ⟨hinner _ (inside e he).1, hinner _ (inside e he).2⟩)
  | classReference name => exact Text.classifyForm_of_isPath h
  | construction name args =>
      exact classifyForm_construction (Bool.and_eq_true_iff.1 h).1 readable hinner
  | external path =>
      obtain ⟨hne, hpath⟩ := path_of_isReadable h
      have fields := Text.fields_join hne fun s hs =>
        Text.dot_not_mem_of_isName (Text.isName_of_isSegment (hpath s hs))
      rw [display, Text.classifyForm_of_isPath (Text.isPath_join hne hpath), fields]
      rfl
  | float x => exact absurd h Bool.false_ne_true
  | unrecognized t => exact absurd h Bool.false_ne_true

/-- With a level left for each level of the value, it is classified as it is. -/
theorem classifyWithin_display {levels : Nat} {v : Value} (h : v.isReadable = true)
    (hheight : v.height ≤ levels) :
    Text.classifyWithin (levels + 1) v.display = ⟨v.initializer, []⟩ := by
  -- on the level of the height; a value on the last level has none inside
  induction levels generalizing v with
  | zero =>
      rw [Text.classifyWithin, (display_solid v h).trimmed]
      refine classifyForm_display h fun w hw => ?_
      have lower := (children_readable h hw).2
      omega
  | succ levels ih =>
      rw [Text.classifyWithin, (display_solid v h).trimmed]
      refine classifyForm_display h fun w hw => ?_
      obtain ⟨readable, lower⟩ := children_readable h hw
      exact ih readable (by omega)

/-- **CLASSIFYING THE WRITTEN FORM OF A READABLE VALUE GIVES THE VALUE BACK**, and reports
nothing. -/
theorem classify_display {v : Value} (h : v.isReadable = true)
    (hheight : v.height ≤ Text.levelLimit) : v.display.classify = ⟨v.initializer, []⟩ :=
  classifyWithin_display h hheight

theorem classify_display_of_nested :
    (list [tuple [int (-9223372036854775808)], string "it\\'s, \x7ba: b\x7d".toList,
        dict [(external ["os".toList, "sep".toList], construction "A.B".toList [nothing, emptyDict])]]
      ).display.classify
      = ⟨.list [.tuple [.literal (int (-9223372036854775808))],
          .literal (string "it\\'s, \x7ba: b\x7d".toList),
          .dict [(.name ["os".toList, "sep".toList],
            .call ["A".toList, "B".toList] [.literal nothing, .literal emptyDict])]], []⟩ :=
  classify_display (by decide) (by decide)

end Value

end ClassOutline
