/-
  ClassOutline.Proofs.Text.Dotted
  ────────────────────────────────
  **NAMES AND KEYS WITH DOTS IN THEM.**

  A nested class has the name of the class around it before its own, and a
  binding has the name of its class before that of what is bound.  So what
  belongs to a class is what lies *below* its name (`IsBelow`), and a name of
  one part, which has no dot, can be told from every other one by its keys.
-/
import ClassOutline.Text.Name

namespace ClassOutline.Text

/-! ## §1. A name of one part. -/

theorem isNameChar_of_isNameStart {c : Char} (h : isNameStart c = true) : isNameChar c = true := by
  unfold isNameStart at h
  unfold isNameChar
  rcases Bool.or_eq_true_iff.1 h with h | h
  · rw [h, Bool.true_or, Bool.true_or]
  · rw [h, Bool.or_true]

theorem isNameChar_of_mem {t : Text} (h : isName t = true) {c : Char} (hc : c ∈ t) :
    isNameChar c = true := by
  cases t with
  | nil => exact nomatch h
  | cons d t =>
      obtain ⟨hstart, hrest⟩ := Bool.and_eq_true_iff.1 h
      rcases List.mem_cons.1 hc with rfl | hc
      · exact isNameChar_of_isNameStart hstart
      · exact List.all_eq_true.1 hrest c hc

theorem all_isNameChar {t : Text} (h : isName t = true) : t.all isNameChar = true :=
  List.all_eq_true.2 fun _ hc => isNameChar_of_mem h hc

theorem dot_not_mem_of_isName {t : Text} (h : isName t = true) : '.' ∉ t :=
  fun hdot => absurd (isNameChar_of_mem h hdot) (by decide)

/-- A path of one part is written as that part. -/
theorem dotted_singleton (t : Text) : dotted [t] = t := List.append_nil t

/-! ## §2. Keys below a name. -/

/-- `key` continues `name` behind a dot. -/
def IsBelow (name key : Text) : Prop := (name ++ ['.']) <+: key

instance (name key : Text) : Decidable (IsBelow name key) :=
  inferInstanceAs (Decidable ((name ++ ['.']) <+: key))

theorem startsWith_dot_iff {name key : Text} :
    key.startsWith (name ++ ['.']) = true ↔ IsBelow name key :=
  List.isPrefixOf_iff_prefix

theorem isBelow_iff {name key : Text} : IsBelow name key ↔ ∃ rest, key = name ++ '.' :: rest := by
  constructor
  · rintro ⟨rest, rfl⟩
    exact ⟨rest, by simp⟩
  · rintro ⟨rest, rfl⟩
    exact ⟨rest, by simp⟩

theorem isBelow_append_cons_self (name rest : Text) : IsBelow name (name ++ '.' :: rest) :=
  isBelow_iff.2 ⟨rest, rfl⟩

theorem IsBelow.append {name key : Text} (h : IsBelow name key) (rest : Text) :
    IsBelow name (key ++ rest) :=
  h.trans (List.prefix_append key rest)

theorem dot_mem_of_isBelow {name key : Text} (h : IsBelow name key) : '.' ∈ key :=
  h.subset (List.mem_append_right name List.mem_cons_self)

theorem IsBelow.ne {name key : Text} (h : IsBelow name key) : key ≠ name := by
  intro heq
  have hlen := h.length_le
  rw [heq, List.length_append, List.length_singleton] at hlen
  omega

/-- One of two dots comes first: what stands before them is the same, or one of the two goes
on behind the dot of the other. -/
theorem append_dot_cases {a b s t : Text} (h : a ++ '.' :: s = b ++ '.' :: t) :
    (a = b ∧ s = t) ∨ (∃ c, b = a ++ '.' :: c ∧ s = c ++ '.' :: t)
      ∨ ∃ c, a = b ++ '.' :: c ∧ t = c ++ '.' :: s := by
  rcases List.append_eq_append_iff.1 h with ⟨c, rfl, hs⟩ | ⟨c, rfl, ht⟩
  · cases c with
    | nil => simp_all
    | cons x c =>
        obtain ⟨rfl, rfl⟩ := List.cons.inj hs
        exact .inr (.inl ⟨c, rfl, rfl⟩)
  · cases c with
    | nil => simp_all
    | cons x c =>
        obtain ⟨rfl, rfl⟩ := List.cons.inj ht
        exact .inr (.inr ⟨c, rfl, rfl⟩)

/-- The dot before a last part without dots is the last one. -/
theorem append_dot_inj {a b s t : Text} (hs : '.' ∉ s) (ht : '.' ∉ t)
    (h : a ++ '.' :: s = b ++ '.' :: t) : a = b ∧ s = t := by
  rcases append_dot_cases h with h | ⟨c, -, rfl⟩ | ⟨c, -, rfl⟩
  · exact h
  · simp at hs
  · simp at ht

/-- What a key with one part more lies below. -/
theorem isBelow_append_cons_iff {name owner last : Text} (hlast : '.' ∉ last) :
    IsBelow name (owner ++ '.' :: last) ↔ name = owner ∨ IsBelow name owner := by
  constructor
  · intro h
    obtain ⟨rest, hrest⟩ := isBelow_iff.1 h
    rcases append_dot_cases hrest with ⟨rfl, -⟩ | ⟨c, -, rfl⟩ | ⟨c, rfl, -⟩
    · exact .inl rfl
    · simp at hlast
    · exact .inr (isBelow_append_cons_self name c)
  · rintro (rfl | h)
    · exact isBelow_append_cons_self name last
    · exact h.append _

/-- A key has one first part only. -/
theorem IsBelow.eq_of_dotless {a b key : Text} (ha : '.' ∉ a) (hb : '.' ∉ b)
    (h : IsBelow a key) (h' : IsBelow b key) : a = b := by
  obtain ⟨s, rfl⟩ := isBelow_iff.1 h
  obtain ⟨t, heq⟩ := isBelow_iff.1 h'
  rcases append_dot_cases heq with ⟨rfl, -⟩ | ⟨c, rfl, -⟩ | ⟨c, rfl, -⟩
  · rfl
  · simp at hb
  · simp at ha

/-! ## §3. Names in a class. -/

/-- `name` is that of a class, or below it. -/
def IsWithin (top name : Text) : Prop := name = top ∨ IsBelow top name

theorem IsWithin.below {top name key : Text} (h : IsWithin top name) (hkey : IsBelow name key) :
    IsBelow top key := by
  rcases h with rfl | h
  · exact hkey
  · obtain ⟨rest, rfl⟩ := isBelow_iff.1 hkey
    exact h.append _

/-- A name is within one class of the module only. -/
theorem IsWithin.eq_of_dotless {a b name : Text} (ha : '.' ∉ a) (hb : '.' ∉ b)
    (h : IsWithin a name) (h' : IsWithin b name) : a = b := by
  rcases h with rfl | h
  · rcases h' with rfl | h'
    · rfl
    · exact absurd (dot_mem_of_isBelow h') ha
  · rcases h' with rfl | h'
    · exact absurd (dot_mem_of_isBelow h) hb
    · exact h.eq_of_dotless ha hb h'

/-! ## §4. The last part of a name. -/

theorem eq_of_cutAt? {sep : Char} {t before after : Text}
    (h : t.cutAt? sep = some (before, after)) : t = before ++ sep :: after := by
  induction t generalizing before with
  | nil => cases h
  | cons c t ih =>
      rw [cutAt?] at h
      split at h
      · next hc =>
        obtain ⟨rfl, rfl⟩ := Prod.mk.inj (Option.some.inj h)
        rw [hc, List.nil_append]
      · obtain ⟨⟨b, a⟩, hcut, heq⟩ := Option.map_eq_some_iff.1 h
        obtain ⟨rfl, rfl⟩ := Prod.mk.inj heq
        rw [ih hcut, List.cons_append]

/-- A text is cut at its first separator. -/
theorem cutAt?_append_cons {sep : Char} {before : Text} (h : sep ∉ before) (after : Text) :
    cutAt? sep (before ++ sep :: after) = some (before, after) := by
  induction before with
  | nil => exact if_pos rfl
  | cons c before ih =>
      have hc : ¬ c = sep := fun heq => h (heq ▸ List.mem_cons_self)
      rw [List.cons_append, cutAt?, if_neg hc, ih fun hmem => h (List.mem_cons_of_mem c hmem)]
      rfl

/-- The last part of a name with several. -/
def shortName? (name : Text) : Option Text := (name.cutAtLast? '.').map Prod.snd

theorem exists_of_shortName? {name short : Text} (h : shortName? name = some short) :
    ∃ outer, name = outer ++ '.' :: short := by
  obtain ⟨⟨outer, s⟩, hlast, rfl⟩ := Option.map_eq_some_iff.1 h
  -- the last dot is the first one from behind
  obtain ⟨⟨after, before⟩, hcut, heq⟩ := Option.map_eq_some_iff.1 hlast
  obtain ⟨rfl, rfl⟩ := Prod.mk.inj heq
  have hname := congrArg List.reverse (eq_of_cutAt? hcut)
  rw [List.reverse_reverse, List.reverse_append, List.reverse_cons, List.append_assoc] at hname
  exact ⟨before.reverse, hname⟩

/-- A last part without dots is the short name. -/
theorem shortName?_append_cons {last : Text} (h : '.' ∉ last) (outer : Text) :
    shortName? (outer ++ '.' :: last) = some last := by
  have cut := cutAt?_append_cons (fun hmem => h (List.mem_reverse.1 hmem)) outer.reverse
  unfold shortName? cutAtLast?
  rw [List.reverse_append, List.reverse_cons, List.append_assoc, List.singleton_append, cut,
    Option.map_some, Option.map_some]
  exact congrArg some (List.reverse_reverse last)

/-- A name with dots has a last part. -/
theorem exists_last_part {name : Text} (h : '.' ∈ name) :
    ∃ outer last, name = outer ++ '.' :: last ∧ '.' ∉ last := by
  obtain ⟨last, outer, heq, hlast⟩ := List.eq_append_cons_of_mem (List.mem_reverse.2 h)
  refine ⟨outer.reverse, last.reverse, ?_, fun hmem => hlast (List.mem_reverse.1 hmem)⟩
  rw [← List.reverse_reverse name, heq, List.reverse_append, List.reverse_cons, List.append_assoc]
  rfl

theorem shortName?_ne_self (name : Text) : shortName? name ≠ some name := by
  intro h
  obtain ⟨outer, heq⟩ := exists_of_shortName? h
  have := congrArg List.length heq
  simp only [List.length_append, List.length_cons] at this
  omega

/-- A name of one part has no other name. -/
theorem shortName?_of_dotless {name : Text} (h : '.' ∉ name) : shortName? name = none := by
  cases hshort : shortName? name with
  | none => rfl
  | some short =>
      obtain ⟨outer, rfl⟩ := exists_of_shortName? hshort
      simp at h

end ClassOutline.Text
