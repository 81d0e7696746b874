/-
  ClassOutline.Proofs.Event.Chains
  ────────────────────────────────
  **A CHAIN OF ASSIGNMENTS BINDS EVERY TARGET TO ITS VALUE.**

  A chain is written target by target, each with a sign behind it, and its value
  last (`chained`).  The first sign of such a text is the one behind the first
  target, for a target has none, and what stands behind that sign is the rest of
  the chain (`assignment?_chained`).  So targets are peeled off until only the
  value is left, which does not assign (`Statement.chain_chained`).

  Before that the text is offered to everything else that a statement can be.
  Its first word is no keyword of a header; a colon in it stands behind a sign,
  so it ends no block header; and a target is no string.  What the value looks like
  takes no part in any of this (`Statement.parse_chained`).
-/
import Mathlib.Data.List.Forall2
import ClassOutline.Proofs.Event.MuteBodies
import ClassOutline.Proofs.Initializer.Literals
import ClassOutline.Proofs.Nesting.Signs
import ClassOutline.Proofs.Nesting.Solid
import ClassOutline.Proofs.Nesting.Tails

namespace ClassOutline

/-! ## §1. Chains as they are written. -/

/-- A chain of assignments: the targets, each with a sign between spaces behind it, and the
value. -/
def chained (targets : List Text) (value : Text) : Text :=
  targets.foldr (fun target rest => target ++ ' ' :: '=' :: ' ' :: rest) value

/-- The keywords that start a class or function header.  No other one has to be kept off: what
starts a block elsewhere is a name in front of a sign. -/
def headerKeywords : List Text := ["class".toList, "def".toList, "async".toList]

namespace Text

/-- What can be a target: a dotted name without blanks that starts no header. -/
structure IsBindable (t : Text) : Prop where
  dotted : isDottedName t = true
  chars : ∀ c ∈ t, isNameChar c = true ∨ c = '.'
  word : t.takeWhile isNameChar ∉ headerKeywords

/-- A name that starts no header. -/
theorem IsBindable.of_isName {name : Text} (h : isName name = true)
    (hword : name ∉ headerKeywords) : IsBindable name where
  dotted := by
    have one := fields_of_not_mem (dot_not_mem_of_isName h)
    unfold isDottedName
    rw [one, List.all_cons, trim_of_isName h, h]
    rfl
  chars := fun _ hc => .inl (isNameChar_of_mem h hc)
  word := by rwa [takeWhile_of_isName h]

/-- An attribute of such a name. -/
theorem IsBindable.attribute {self attr : Text} (hself : isName self = true)
    (hword : self ∉ headerKeywords) (hattr : isName attr = true) :
    IsBindable (self ++ '.' :: attr) where
  dotted := by
    have two := fields_append_cons '.' self attr
    rw [fields_of_not_mem (dot_not_mem_of_isName hself),
      fields_of_not_mem (dot_not_mem_of_isName hattr)] at two
    unfold isDottedName
    rw [two]
    simp [trim_of_isName hself, trim_of_isName hattr, hself, hattr]
  chars := by
    intro c hc
    rcases List.mem_append.1 hc with hc | hc
    · exact .inl (isNameChar_of_mem hself hc)
    · rcases List.mem_cons.1 hc with rfl | hc
      · exact .inr rfl
      · exact .inl (isNameChar_of_mem hattr hc)
  word := by
    have dot : ∀ c ∈ List.head? ('.' :: attr), isNameChar c = false :=
      fun _ hc => Option.some.inj hc ▸ rfl
    rwa [(span_isNameChar_append (fun _ hc => isNameChar_of_mem hself hc) dot).1]

namespace IsBindable

variable {t : Text}

theorem isPlain (h : t.IsBindable) : ∀ c ∈ t, Nesting.IsPlain c := by
  intro c hc
  rcases h.chars c hc with hname | rfl
  · exact isPlain_of_isNameChar hname
  · exact isPlain_of_not_mem (by decide)

/-- A target avoids all but the characters of names and the dot. -/
theorem avoids (h : t.IsBindable) {c : Char} (hname : isNameChar c = false) (hdot : c ≠ '.') :
    Keeps (· == c) t := by
  refine .of_plain fun d hd => ⟨h.isPlain d hd, beq_false_of_ne ?_⟩
  rintro rfl
  rcases h.chars d hd with h | h
  · rw [hname] at h
    exact nomatch h
  · exact hdot h

/-- A target is cut at no separator. -/
theorem solid (h : t.IsBindable) : t.Solid := by
  have noSeparator : isSeparator '.' = false := by decide
  refine .of_plain ?_ fun c hc => ⟨h.isPlain c hc, ?_⟩
  · rintro rfl
    exact nomatch h.dotted
  · rcases h.chars c hc with hname | rfl
    · have others : c ∉ [',', ':', '=', '*'] := not_mem_of_isNameChar hname (by decide)
      unfold isSeparator
      rw [not_isBlank_of_isNameChar hname, Bool.false_or]
      exact Bool.eq_false_iff.2 fun hmem => others (List.contains_iff_mem.1 hmem)
    · exact noSeparator

/-- So does a target with its sign. -/
theorem signed_avoids (h : t.IsBindable) {c : Char} (hname : isNameChar c = false)
    (hmark : c ∉ ['.', ' ', '=']) : Keeps (· == c) (t ++ [' ', '=']) := by
  simp only [List.mem_cons, List.not_mem_nil, or_false, not_or] at hmark
  exact (h.avoids hname hmark.1).append_cons isPlain_space.1 <|
    .cons isPlain_space (beq_false_of_ne (Ne.symm hmark.2.1)) <|
      .cons (isPlain_of_not_mem (by decide)) (beq_false_of_ne (Ne.symm hmark.2.2)) .nil

theorem trim_append_space (h : t.IsBindable) : (t ++ [' ']).trim = t :=
  (trim_append_of_isBlank rfl t).trans h.solid.trimmed

/-- A target has no annotation. -/
theorem target_eq (h : t.IsBindable) : t.target = ⟨t, none⟩ := by
  have noColon : t.breakTopLevel? (· == ':') = none :=
    (h.avoids (by decide) (by decide)).breakTopLevel?_eq_none fun _ hc => hc
  unfold target
  rw [noColon, h.solid.trimmed]

end IsBindable

/-! ## §2. Signs between targets. -/

section Reading

variable {t : Text} {targets : List Text} {value : Text}

/-- Trimming takes the space in front of a text from behind with all of the text, or leaves it. -/
theorem trimEnd_space_cons (rest : Text) :
    trimEnd (' ' :: rest) = [] ∨ ∃ later, trimEnd (' ' :: rest) = ' ' :: later := by
  obtain ⟨blanks, -, hsplit⟩ := exists_eq_trimEnd_append (' ' :: rest)
  cases hleft : trimEnd (' ' :: rest) with
  | nil => exact .inl rfl
  | cons c later =>
      rw [hleft] at hsplit
      exact .inr ⟨later, by rw [(List.cons.inj hsplit).1]⟩

/-- Behind the first target stands a sign, and blanks are taken from the end only. -/
theorem trim_chained (ht : t.IsBindable) (targets : List Text) (value : Text) :
    trim (chained (t :: targets) value)
      = t ++ ' ' :: '=' :: trimEnd (' ' :: chained targets value) := by
  have front : trimStart (t ++ ' ' :: '=' :: ' ' :: chained targets value)
      = t ++ [' '] ++ '=' :: ' ' :: chained targets value := by
    rw [trimStart_eq_self (ht.solid.not_isBlank_head _), List.append_assoc]
    rfl
  show trimEnd (trimStart (t ++ ' ' :: '=' :: ' ' :: chained targets value)) = _
  rw [front, trimEnd_append_cons (by decide), List.append_assoc]
  rfl

/-- **The first sign of a chain assigns**, and behind it stands the rest of the chain. -/
theorem assignment?_chained (ht : t.IsBindable) (targets : List Text) (value : Text) :
    (trim (chained (t :: targets) value)).assignment?
      = some ⟨t ++ [' '], [], trimEnd (' ' :: chained targets value)⟩ := by
  have single : (trimEnd (' ' :: chained targets value)).head? ≠ some '=' := by
    rcases trimEnd_space_cons (chained targets value) with hrest | ⟨later, hrest⟩ <;>
      rw [hrest] <;> simp
  rw [trim_chained ht]
  exact (ht.avoids (by decide) (by decide)).assignment?_append _ single

/-- A semicolon is nowhere at top level in a chain if it is nowhere there in the value. -/
theorem hasTopLevel_chained (h : ∀ t ∈ targets, t.IsBindable)
    (hvalue : value.hasTopLevel ';' = false) : (chained targets value).hasTopLevel ';' = false := by
  induction targets with
  | nil => exact hvalue
  | cons t targets ih =>
      have ht := h t List.mem_cons_self
      have front : Keeps (· == ';') (t ++ [' ', '=']) := ht.signed_avoids (by decide) (by decide)
      have passed := front.hasTopLevel_passed (c := ';') rfl isPlain_space (by decide)
        (chained targets value)
      rw [List.append_assoc] at passed
      exact passed.trans (ih fun u hu => h u (List.mem_cons_of_mem t hu))

/-- A chain is no block: the colon that a block would end its header with stands behind a sign
that assigns. -/
theorem blockBody?_chained (ht : t.IsBindable) (targets : List Text) (value : Text) :
    blockBody? (trim (chained (t :: targets) value)) = none := by
  have front : Keeps (· == ':') (t ++ [' ', '=']) := ht.signed_avoids (by decide) (by decide)
  -- in front of a colon, if there is one, stands the sign
  have assigns {b : Break} (hbreak : breakTopLevel? (· == ':') (trim (chained (t :: targets) value))
      = some b) : b.before.assignment?.isSome = true := by
    rw [trim_chained ht] at hbreak
    rcases trimEnd_space_cons (chained targets value) with hrest | ⟨later, hrest⟩
    · rw [hrest, front.breakTopLevel?_eq_none fun _ hc => hc] at hbreak
      exact nomatch hbreak
    · have passed := front.breakTopLevel?_passed (fun _ hc => hc) isPlain_space rfl later
      rw [List.append_assoc] at passed
      rw [hrest] at hbreak
      obtain ⟨found, -, rfl⟩ := Option.map_eq_some_iff.1 (passed.symm.trans hbreak)
      have sign := (ht.avoids (c := '=') (by decide) (by decide)).assignment?_append
        (' ' :: found.before) (by simp)
      dsimp only
      rw [List.append_assoc]
      exact Option.isSome_iff_exists.2 ⟨_, sign⟩
  refine Option.bind_eq_none_iff.2 fun entry _ => Option.bind_eq_none_iff.2 fun b hbreak => ?_
  show (if _ then none else if b.before.assignment?.isSome = true then none else _) = none
  rw [if_pos (assigns hbreak), ite_self]

/-- A chain is no string, for a sign stands before its first quote, nor several strings, for a
target is none. -/
theorem stringValue?_chained (ht : t.IsBindable) (targets : List Text) (value : Text) :
    stringValue? (trim (chained (t :: targets) value)) = none := by
  have unquoted : ∀ c ∈ t, ¬ Quote.IsMark c := fun c hc => (ht.isPlain c hc).1
  have noString : isStringLiteral (trim (chained (t :: targets) value)) = false := by
    have before : ∀ c ∈ t ++ [' '], ¬ Quote.IsMark c := by
      intro c hc
      rcases List.mem_append.1 hc with hc | hc
      · exact unquoted c hc
      · exact List.mem_singleton.1 hc ▸ isPlain_space.1
    have noParts := literalParts?_eq_none before (w := '=') (by decide) (by decide)
      (trimEnd (' ' :: chained targets value))
    rw [List.append_assoc] at noParts
    rw [trim_chained ht]
    exact isStringLiteral_of_literalParts?_eq_none noParts
  have noFirst : isStringLiteral t = false :=
    isStringLiteral_of_literalParts?_eq_none (literalParts?_eq_none_of_unquoted unquoted)
  unfold stringValue?
  rw [noString, if_neg Bool.false_ne_true, trim_chained ht, ht.solid.atomic.atoms_append_space]
  refine if_neg fun h => ?_
  rw [List.all_cons, noFirst] at h
  exact nomatch h.2

end Reading

end Text

/-! ## §3. Chains are read. -/

namespace Statement

variable {targets : List Text} {value : Text}

/-- **EACH TARGET IS PEELED OFF IN ITS TURN**, until a value is left that does not assign. -/
theorem chain_chained (h : ∀ t ∈ targets, t.IsBindable) (hvalue : value.assignment? = none) :
    chain (chained targets value).trim = (targets, value.trim) := by
  induction targets with
  | nil =>
      show chain value.trim = _
      rw [chain]
      split
      · next a ha =>
        rw [Text.assignment?_trim_eq_none hvalue] at ha
        exact absurd ha.symm (Option.some_ne_none a)
      · rfl
  | cons t targets ih =>
      have ht := h t List.mem_cons_self
      have rest := ih fun u hu => h u (List.mem_cons_of_mem t hu)
      rw [chain]
      split
      · next a ha =>
        rw [Text.assignment?_chained ht] at ha
        obtain rfl := Option.some.inj ha
        dsimp only
        rw [ht.trim_append_space, ht.target_eq, ht.dotted, Text.trim_trimEnd,
          Text.trim_space_cons, rest]
        rfl
      · next ha =>
        rw [Text.assignment?_chained ht] at ha
        exact absurd ha (Option.some_ne_none _)

/-- Divided at its first sign, a chain assigns to all of its targets. -/
theorem ofAssignment_chained {t : Text} (h : ∀ u ∈ t :: targets, u.IsBindable)
    (hvalue : value.assignment? = none) :
    ofAssignment ⟨t ++ [' '], [], Text.trimEnd (' ' :: chained targets value)⟩
      = .assignment ((t :: targets).map (⟨·, none⟩)) value.trim := by
  have rest := chain_chained (fun u hu => h u (List.mem_cons_of_mem t hu)) hvalue
  have plain : (t :: targets).map Text.target = (t :: targets).map (⟨·, none⟩) :=
    List.map_congr_left fun u hu => (h u hu).target_eq
  unfold ofAssignment
  dsimp only
  rw [Text.trim_trimEnd, Text.trim_space_cons, rest, (h t List.mem_cons_self).trim_append_space]
  exact congrArg (Statement.assignment · value.trim) plain

/-- **A CHAIN IS READ AS ONE ASSIGNMENT TO ALL OF ITS TARGETS.** -/
theorem parse_chained (hne : targets ≠ []) (h : ∀ t ∈ targets, t.IsBindable)
    (hone : value.hasTopLevel ';' = false) (hvalue : value.assignment? = none) :
    parse (chained targets value) = .assignment (targets.map (⟨·, none⟩)) value.trim := by
  obtain ⟨t, targets, rfl⟩ := List.exists_cons_of_ne_nil hne
  have ht := h t List.mem_cons_self
  have trimmed := Text.trim_chained ht targets value
  obtain ⟨first, letters, hstart⟩ := List.exists_cons_of_ne_nil ht.solid.nonempty
  have noDecorator : ¬ first = '@' := by
    rintro rfl
    exact (ht.chars '@' (hstart ▸ List.mem_cons_self)).elim (by decide) (by decide)
  -- the first word of the chain is that of its first target
  have word : (chained (t :: targets) value).trim.takeWhile Text.isNameChar
      = t.takeWhile Text.isNameChar := by
    rw [trimmed, Text.takeWhile_append_space]
  have noKeyword (keyword : Text) (hkeyword : keyword.all Text.isNameChar = true)
      (hmem : keyword ∈ headerKeywords) :
      (chained (t :: targets) value).trim.afterKeyword? keyword = none := by
    rw [← Option.not_isSome_iff_eq_none, Text.isSome_afterKeyword? hkeyword, word]
    exact fun heq => ht.word (eq_of_beq heq ▸ hmem)
  have noClass := noKeyword "class".toList (by decide +kernel) (by decide)
  have noDef := noKeyword "def".toList (by decide +kernel) (by decide)
  have noAsync : afterAsyncDef? (chained (t :: targets) value).trim = none := by
    unfold afterAsyncDef?
    rw [noKeyword "async".toList (by decide +kernel) (by decide)]
    rfl
  have onePiece := Text.splitTopLevel_of_hasTopLevel_eq_false
    (Text.hasTopLevel_trim (Text.hasTopLevel_chained h hone))
  rw [parse_eq, parseForm, if_neg, if_neg, noClass, noDef, noAsync, Text.blockBody?_chained ht]
  · dsimp only
    rw [onePiece, if_neg (by simp), ofPlain, Text.stringValue?_chained ht,
      Text.assignment?_chained ht]
    exact ofAssignment_chained h hvalue
  · rw [trimmed, hstart]
    exact fun hhead => noDecorator (Option.some.inj hhead)
  · rw [trimmed, hstart]
    exact Bool.false_ne_true

end Statement

/-! ## §4. What a chain binds. -/

/-- A target in a scope, and the event that binds it to a value: a name in the module or in a
class, and an attribute of self in a constructor. -/
inductive Scope.Binds (value : Text) (line : Nat) : Scope → Text → Event → Prop where
  | module {name : Text} (hname : Text.isName name = true) (hword : name ∉ headerKeywords) :
      Binds value line .module name (.moduleAssignment name value line)
  | inClass {outer name : Text} (hname : Text.isName name = true) (hword : name ∉ headerKeywords) :
      Binds value line (.classBody outer) name (.classAssignment ⟨name, none, value, line⟩)
  | inConstructor {self attr : Text} (hself : Text.isName self = true)
      (hword : self ∉ headerKeywords) (hattr : Text.isName attr = true) :
      Binds value line (.methodBody true (some self)) (self ++ '.' :: attr)
        (.selfAssignment ⟨attr, none, value, line⟩)

namespace Scope.Binds

variable {scope : Scope} {value target : Text} {line : Nat} {event : Event}

theorem isBindable (h : scope.Binds value line target event) : target.IsBindable := by
  cases h with
  | module hname hword => exact .of_isName hname hword
  | inClass hname hword => exact .of_isName hname hword
  | inConstructor hself hword hattr => exact .attribute hself hword hattr

theorem counts (h : scope.Binds value line target event) : scope ≠ .skipped := by
  cases h <;> exact nofun

/-- **The assignment to a target makes the event that binds it.** -/
theorem assign_eq (h : scope.Binds value line target event) :
    scope.assign line value ⟨target, none⟩ = event := by
  cases h with
  | module hname => exact if_pos hname
  | inClass hname => exact if_pos hname
  | @inConstructor self attr hself hword hattr =>
      have named : selfAttribute? (self ++ '.' :: attr) (some self) = some attr := by
        unfold selfAttribute?
        rw [Text.cutAt?_append_cons (Text.dot_not_mem_of_isName hself)]
        dsimp only
        rw [Text.trim_of_isName hself, Text.trim_of_isName hattr]
        exact if_pos ⟨rfl, hattr⟩
      unfold Scope.assign
      dsimp only
      rw [named]

end Scope.Binds

/-- **A CHAIN BINDS EACH OF ITS TARGETS ONCE**, in their order, to the value without the blanks
around it.  The value may be any text that neither assigns nor has a semicolon at top level:
colons, comparisons, signs in brackets and brackets that do not close are part of it. -/
theorem Statement.perform_chained {c : Context} {targets : List Text} {value : Text} {line : Nat}
    {events : List Event} (hne : targets ≠ [])
    (hbinds : List.Forall₂ (c.scope.Binds value.trim line) targets events)
    (hone : value.hasTopLevel ';' = false) (hvalue : value.assignment? = none) (cfg : Config)
    (indent : Column) :
    ((parse (chained targets value)).perform cfg line indent c).2 = ⟨events, []⟩ := by
  have bindable : ∀ t ∈ targets, t.IsBindable :=
    ((List.forall₂_and_left _ _).1 (hbinds.imp fun _ _ h => ⟨h.isBindable, h⟩)).1
  have counts : c.scope ≠ .skipped := by
    cases hbinds with
    | nil => exact absurd rfl hne
    | cons hfirst _ => exact hfirst.counts
  have bound : targets.map (c.scope.assign line value.trim ∘ (⟨·, none⟩)) = events := by
    have made := List.forall₂_map_left_iff.2 (hbinds.imp fun _ _ h => h.assign_eq)
    rwa [List.forall₂_eq_eq_eq] at made
  rw [parse_chained hne bindable hone hvalue, perform_eq_act rfl counts, act, List.map_map, bound]

/-- A colon, a comparison, a keyword argument and a bracket that does not close, in a
constructor. -/
theorem Statement.perform_chained_in_constructor :
    let frame : Frame := ⟨.methodBody "__init__".toList true (some "this".toList) [], 4, true⟩
    let c : Context := ⟨[frame], [], [], []⟩
    let value : Text := "lambda x: f(y=1) == [z ".toList
    (value.hasTopLevel ';' = false ∧ value.assignment? = none)
      ∧ ((parse "this.a = this.b = lambda x: f(y=1) == [z ".toList).perform {} 3 8 c).2
        = ⟨[.selfAssignment ⟨"a".toList, none, "lambda x: f(y=1) == [z".toList, 3⟩,
            .selfAssignment ⟨"b".toList, none, "lambda x: f(y=1) == [z".toList, 3⟩], []⟩ := by
  intro frame c value
  have hone : value.hasTopLevel ';' = false := by decide +kernel
  have hvalue : value.assignment? = none := by decide +kernel
  have binds (attr : Text) (hattr : Text.isName attr = true) :
      c.scope.Binds value.trim 3 ("this".toList ++ '.' :: attr)
        (.selfAssignment ⟨attr, none, value.trim, 3⟩) :=
    .inConstructor (by decide +kernel) (by decide) hattr
  have both := List.Forall₂.cons (binds "a".toList (by decide +kernel)) <|
    .cons (binds "b".toList (by decide +kernel)) .nil
  exact ⟨⟨hone, hvalue⟩, perform_chained (List.cons_ne_nil _ _) both hone hvalue {} 8⟩

end ClassOutline
