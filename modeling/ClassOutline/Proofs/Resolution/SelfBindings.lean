/-
  ClassOutline.Proofs.Resolution.SelfBindings
  ────────────────────────────────
  **AN ATTRIBUTE OF SELF IS REACHED THROUGH SELF.**

  An attribute of self has a key of its own, with the word `self` behind the
  class and in front of the attribute.  Outside the constructor a path is looked
  up under its own spelling, alone and behind the class around it.  Such a key
  can be that of an attribute of self only if the word stands there too: inside
  the path, or at the end of the name of the class (`Place.KeepsApart`).

  Where it does not, a path that no class begins is external, whatever
  attributes of self are bound.  Where it does, there are attributes of self
  that are found (`exists_resolve_name_ne_external`).
-/
import Mathlib.Data.List.Infix
import ClassOutline.Proofs.Resolution.Notes
import ClassOutline.Proofs.Text.Plain

namespace ClassOutline

/-! ## §1. The last part of a key. -/

namespace Text

theorem dotted_append {front back : List Text} (hfront : front ≠ []) (hback : back ≠ []) :
    dotted (front ++ back) = dotted front ++ '.' :: dotted back := by
  obtain ⟨u, back, rfl⟩ := List.exists_cons_of_ne_nil hback
  induction front with
  | nil => exact absurd rfl hfront
  | cons s front ih =>
      cases front with
      | nil =>
          rw [dotted_singleton]
          exact join_cons_cons ..
      | cons v front =>
          have ih := ih (List.cons_ne_nil v front)
          unfold dotted at ih ⊢
          rw [List.cons_append] at ih
          rw [List.cons_append, List.cons_append, join_cons_cons, join_cons_cons, ih,
            List.append_assoc, List.append_assoc]

theorem dotted_concat {front : List Text} (hne : front ≠ []) (last : Text) :
    dotted (front ++ [last]) = dotted front ++ '.' :: last := by
  rw [dotted_append hne (List.cons_ne_nil _ _), dotted_singleton]

variable {part : List Text} {owner last : Text}

/-- A path is spelled as a key with several parts only by having its last part. -/
theorem exists_of_dotted_eq (hpart : ∀ s ∈ part, '.' ∉ s) (hlast : '.' ∉ last)
    (h : dotted part = owner ++ '.' :: last) :
    ∃ front, front ≠ [] ∧ part = front ++ [last] ∧ dotted front = owner := by
  rcases List.eq_nil_or_concat' part with rfl | ⟨front, s, rfl⟩
  · exact absurd h.symm (List.append_ne_nil_of_right_ne_nil _ (List.cons_ne_nil _ _))
  · have hs : '.' ∉ s := hpart s List.mem_concat_self
    cases front with
    | nil =>
        -- a single part has no dot
        rw [List.nil_append, dotted_singleton] at h
        rw [h] at hs
        simp at hs
    | cons u front =>
        have hne := List.cons_ne_nil u front
        rw [dotted_concat hne] at h
        obtain ⟨rfl, rfl⟩ := append_dot_inj hs hlast h
        exact ⟨_, hne, rfl, rfl⟩

/-- So is a path behind the name of a class, unless the rest of the key is that name. -/
theorem exists_of_classKey_eq {c : Text} (hne : part ≠ []) (hpart : ∀ s ∈ part, '.' ∉ s)
    (hlast : '.' ∉ last) (h : Definitions.classKey c (dotted part) = owner ++ '.' :: last) :
    ∃ front, part = front ++ [last]
      ∧ (front = [] ∧ c = owner ∨ front ≠ [] ∧ Definitions.classKey c (dotted front) = owner) := by
  rcases List.eq_nil_or_concat' part with rfl | ⟨front, s, rfl⟩
  · exact absurd rfl hne
  · have hs : '.' ∉ s := hpart s List.mem_concat_self
    unfold Definitions.classKey at h ⊢
    cases front with
    | nil =>
        rw [List.nil_append, dotted_singleton] at h
        obtain ⟨rfl, rfl⟩ := append_dot_inj hs hlast h
        exact ⟨[], rfl, .inl ⟨rfl, rfl⟩⟩
    | cons u front =>
        have hfront := List.cons_ne_nil u front
        rw [dotted_concat hfront, ← List.cons_append, ← List.append_assoc] at h
        obtain ⟨rfl, rfl⟩ := append_dot_inj hs hlast h
        exact ⟨_, rfl, .inr ⟨hfront, rfl⟩⟩

theorem dotted_ne_nil {segments : List Text} (hne : segments ≠ [])
    (hnames : ∀ s ∈ segments, isName s = true) : dotted segments ≠ [] := by
  intro hnil
  cases segments with
  | nil => exact hne rfl
  | cons s rest =>
      have hs := hnames s List.mem_cons_self
      cases rest with
      | nil =>
          rw [dotted_singleton] at hnil
          rw [hnil] at hs
          exact nomatch hs
      | cons u rest =>
          unfold dotted at hnil
          rw [join_cons_cons] at hnil
          rw [(List.append_eq_nil_iff.1 hnil).1] at hs
          exact nomatch hs

end Text

/-! ## §2. Definitions with attributes of self only. -/

namespace Definitions

theorem bindings_addClass (d : Definitions) (qualified : Text) :
    (d.addClass qualified).bindings = d.bindings := by
  unfold addClass
  dsimp only
  split <;> rfl

/-- Definitions made by adding classes and binding attributes of self, in any order. -/
inductive OfSelf : Definitions → Prop where
  | empty : OfSelf {}
  | addClass {d : Definitions} {segments : List Text} (h : OfSelf d) (hne : segments ≠ [])
      (hnames : ∀ s ∈ segments, Text.isName s = true) :
      OfSelf (d.addClass (Text.dotted segments))
  | bindSelf {d : Definitions} {segments : List Text} {name : Text} (h : OfSelf d)
      (hne : segments ≠ []) (hnames : ∀ s ∈ segments, Text.isName s = true)
      (hname : Text.isName name = true) (selfName : Text) (value : Initializer) :
      OfSelf (d.bindSelf (Text.dotted segments) selfName name value)

namespace OfSelf

variable {d : Definitions} {part : List Text}

/-- A class of the module has a name of one part. -/
theorem addClass_of_isName (h : OfSelf d) {name : Text} (hname : Text.isName name = true) :
    OfSelf (d.addClass name) := by
  have names : ∀ s ∈ [name], Text.isName s = true := fun s hs => by
    rwa [List.mem_singleton.1 hs]
  have added := h.addClass (List.cons_ne_nil _ _) names
  rwa [Text.dotted_singleton] at added

theorem bindSelf_of_isName (h : OfSelf d) {className name : Text}
    (hclass : Text.isName className = true) (hname : Text.isName name = true) (selfName : Text)
    (value : Initializer) : OfSelf (d.bindSelf className selfName name value) := by
  have names : ∀ s ∈ [className], Text.isName s = true := fun s hs => by
    rwa [List.mem_singleton.1 hs]
  have bound := h.bindSelf (List.cons_ne_nil _ _) names hname selfName value
  rwa [Text.dotted_singleton] at bound

/-- No class is found under the empty name. -/
theorem get?_nil (h : OfSelf d) : d.classes.get? [] = none := by
  induction h with
  | empty => rfl
  | bindSelf _ _ _ _ _ _ ih => exact ih
  | @addClass d segments _ hne hnames ih =>
      have notShort : Text.shortName? (Text.dotted segments) ≠ some [] := by
        -- the last part of the name is a name
        intro hshort
        obtain ⟨outer, heq⟩ := Text.exists_of_shortName? hshort
        obtain ⟨front, -, rfl, -⟩ := Text.exists_of_dotted_eq
          (fun s hs => Text.dot_not_mem_of_isName (hnames s hs)) List.not_mem_nil heq
        exact nomatch hnames [] List.mem_concat_self
      rw [classes_addClass, if_neg (Text.dotted_ne_nil hne hnames).symm, if_neg notShort]
      exact ih

/-- Only attributes of self are bound. -/
theorem exists_selfKey (h : OfSelf d) {key : Text} {binding : Binding}
    (hget : d.bindings.get? key = some binding) :
    ∃ owner name, '.' ∉ name ∧ key = selfKey owner name := by
  induction h with
  | empty => cases hget
  | addClass _ _ _ ih =>
      rw [bindings_addClass] at hget
      exact ih hget
  | @bindSelf d segments name _ _ _ hname selfName value ih =>
      have hget : (d.bindings.set (selfKey (Text.dotted segments) name) _).get? key
          = some binding := hget
      rw [Table.get?_set] at hget
      split at hget
      · next heq => exact ⟨_, name, Text.dot_not_mem_of_isName hname, heq⟩
      · exact ih hget

/-- A path is not bound under its own spelling, unless `self` stands inside it. -/
theorem get?_dotted (h : OfSelf d) (hpart : ∀ s ∈ part, '.' ∉ s)
    (hself : ∀ front name, front ≠ [] → part ≠ front ++ ["self".toList, name]) :
    d.bindings.get? (Text.dotted part) = none := by
  rw [Option.eq_none_iff_forall_ne_some]
  intro binding hget
  obtain ⟨owner, name, hname, hkey⟩ := h.exists_selfKey hget
  rw [selfKey_eq] at hkey
  obtain ⟨front, -, rfl, hfront⟩ := Text.exists_of_dotted_eq hpart hname hkey
  obtain ⟨front, hne, rfl, -⟩ := Text.exists_of_dotted_eq
    (fun s hs => hpart s (List.mem_append_left _ hs)) (by decide) hfront
  exact hself front name hne (List.append_assoc ..)

/-- Nor is it behind the name of a class, unless that name ends in `self`. -/
theorem get?_classKey (h : OfSelf d) {c : Text} (hne : part ≠ []) (hpart : ∀ s ∈ part, '.' ∉ s)
    (hself : ∀ front name, part ≠ front ++ ["self".toList, name])
    (hclass : c.endsWith ".self".toList = false) :
    d.bindings.get? (classKey c (Text.dotted part)) = none := by
  rw [Option.eq_none_iff_forall_ne_some]
  intro binding hget
  obtain ⟨owner, name, hname, hkey⟩ := h.exists_selfKey hget
  rw [selfKey_eq] at hkey
  obtain ⟨front, rfl, ⟨-, rfl⟩ | ⟨hfront, hkey⟩⟩ := Text.exists_of_classKey_eq hne hpart hname hkey
  · have ends : Text.endsWith (owner ++ ".self".toList) ".self".toList = true :=
      List.isSuffixOf_iff_suffix.2 (List.suffix_append _ _)
    exact Bool.false_ne_true (hclass.symm.trans ends)
  · obtain ⟨front, rfl, -⟩ := Text.exists_of_classKey_eq hfront
      (fun s hs => hpart s (List.mem_append_left _ hs)) (by decide) hkey
    exact hself front name (List.append_assoc ..)

end OfSelf

end Definitions

/-! ## §3. Paths that are not spelled like attributes of self. -/

/-- Where it stands, the keys of a path are not spelled like that of an attribute of self: the word
`self` is not inside the path, in a class not at its start either, and does not end the name of
the class. -/
structure Place.KeepsApart (place : Place) (path : List Text) : Prop where
  outside : place.className = none → "self".toList ∉ path.dropLast.tail
  inside : ∀ c, place.className = some c →
    "self".toList ∉ path.dropLast ∧ c.endsWith ".self".toList = false

namespace Definitions

variable {d : Definitions} {path part : List Text} {place : Place}

/-- Where `self` stands in front of another part it stands in front of the last one or earlier. -/
theorem mem_dropLast_of_leading {front : List Text} {word name : Text}
    (hleads : front ++ [word, name] <+: path) :
    word ∈ path.dropLast ∧ (front ≠ [] → word ∈ path.dropLast.tail) := by
  obtain ⟨rest, rfl⟩ := hleads
  have shape : (front ++ [word, name] ++ rest).dropLast
      = front ++ word :: (name :: rest).dropLast := by
    rw [List.append_assoc]
    show (front ++ word :: (name :: rest)).dropLast = _
    rw [List.dropLast_append_of_ne_nil (List.cons_ne_nil _ _)]
    rfl
  rw [shape]
  refine ⟨List.mem_append_right _ List.mem_cons_self, fun hne => ?_⟩
  obtain ⟨s, front, rfl⟩ := List.exists_cons_of_ne_nil hne
  exact List.mem_append_right _ List.mem_cons_self

/-- The leading parts of a path that does not begin with the name of self are looked up under their
own spelling. -/
theorem candidateKeys_eq_general (d : Definitions)
    (hself : ∀ s, place.selfName = some s → path.head? ≠ some s) (hne : part ≠ [])
    (hleads : part <+: path) : d.candidateKeys place part = candidateKeys.general d place part := by
  obtain ⟨rest, rfl⟩ := hleads
  rw [List.head?_append_of_ne_nil _ hne] at hself
  unfold candidateKeys
  split
  · next c s root name _ hs => exact if_neg fun heq => hself s hs (congrArg some heq)
  · rfl

/-- No leading part of such a path is bound. -/
theorem OfSelf.bindingOf?_eq_none (h : OfSelf d) (hnames : ∀ s ∈ path, Text.isName s = true)
    (hclasses : ∀ part, part ≠ [] → part <+: path → d.classes.get? (Text.dotted part) = none)
    (hself : ∀ s, place.selfName = some s → path.head? ≠ some s) (apart : place.KeepsApart path)
    (hne : part ≠ []) (hpart : part <+: path) : d.bindingOf? place part = none := by
  have dotless : ∀ s ∈ part, '.' ∉ s := fun s hs =>
    Text.dot_not_mem_of_isName (hnames s (hpart.subset hs))
  unfold bindingOf?
  rw [candidateKeys_eq_general d hself hne hpart, List.findSome?_eq_none_iff]
  intro key hkey
  rw [Option.map_eq_none_iff]
  unfold candidateKeys.general at hkey
  rcases List.mem_append.1 hkey with hkey | hkey
  rcases List.mem_append.1 hkey with hkey | hkey
  · -- behind the class around it
    obtain ⟨c, hc, rfl⟩ := Option.map_eq_some_iff.1 (Option.mem_toList.1 hkey)
    obtain ⟨noSelf, hclass⟩ := apart.inside c hc
    refine h.get?_classKey hne dotless (fun front name heq => ?_) hclass
    exact noSelf (mem_dropLast_of_leading (heq ▸ hpart)).1
  · -- alone
    rw [List.mem_singleton.1 hkey]
    refine h.get?_dotted dotless fun front name hfront heq => ?_
    obtain ⟨hmem, htail⟩ := mem_dropLast_of_leading (heq ▸ hpart)
    cases hc : place.className with
    | none => exact apart.outside hc (htail hfront)
    | some c => exact (apart.inside c hc).1 hmem
  · -- behind a class that the rest of it names: there is none
    exfalso
    have noClass : d.classes.get? (Text.dotted part.dropLast) = none := by
      by_cases hempty : part.dropLast = []
      · rw [hempty]
        exact h.get?_nil
      · exact hclasses _ hempty ((List.dropLast_prefix part).trans hpart)
    unfold candidateKeys.ofClass at hkey
    rw [noClass] at hkey
    split at hkey <;> exact List.not_mem_nil hkey

/-- **AN ATTRIBUTE OF SELF IS REACHED THROUGH SELF.**  In definitions with attributes of self only,
a path that no class begins is external where its first part is not the name of self, if its keys
are kept apart from theirs. -/
theorem resolve_name_of_ofSelf (h : OfSelf d) (hne : path ≠ [])
    (hnames : ∀ s ∈ path, Text.isName s = true)
    (hclasses : ∀ part, part ≠ [] → part <+: path → d.isClass (Text.dotted part) = false)
    (hself : ∀ s, place.selfName = some s → path.head? ≠ some s) (apart : place.KeepsApart path) :
    d.resolve place (.name path) = .external path := by
  have noClass (part : List Text) (hpart : part ≠ []) (hleads : part <+: path) :
      d.classes.get? (Text.dotted part) = none :=
    Option.isNone_iff_eq_none.1 (Option.isSome_eq_false_iff.1 (hclasses part hpart hleads))
  have nothing (part : List Text) (hpart : part ≠ []) (hleads : part <+: path) :
      (d.classes.get? (Text.dotted part)).or (d.boundClass? [] place part) = none := by
    rw [noClass part hpart hleads, Option.none_or]
    exact boundClass?_of_none (h.bindingOf?_eq_none hnames noClass hself apart hpart hleads) []
  have leading : d.leadingClass? (d.boundClass? [] place) path = none := by
    unfold leadingClass?
    rw [List.findSome?_eq_none_iff]
    intro part hmem
    unfold leadingParts at hmem
    obtain ⟨n, hn, rfl⟩ := List.mem_map.1 hmem
    have hn := (List.mem_range'_1.1 (List.mem_reverse.1 hn)).1
    have hpart : path.take n ≠ [] := fun hnil =>
      (List.take_eq_nil_iff.1 hnil).elim (fun hzero => by omega) hne
    exact nothing _ hpart (List.take_prefix n path)
  unfold resolve
  rw [resolveWith, resolveName, nothing path hne List.prefix_rfl, resolveBeyond, leading]

/-- Outside the constructor `self.engine` is external, and so is `engine` in the class. -/
theorem resolve_name_of_ofSelf_outside :
    let d := (({} : Definitions).addClass "Engine".toList).bindSelf "Car".toList "self".toList
      "engine".toList (.name ["Engine".toList])
    d.resolve {} (.name ["self".toList, "engine".toList])
        = .external ["self".toList, "engine".toList]
      ∧ d.resolve { className := some "Car".toList } (.name ["engine".toList])
        = .external ["engine".toList] := by
  intro d
  have built : OfSelf d :=
    (OfSelf.empty.addClass_of_isName (by decide +kernel)).bindSelf_of_isName (by decide +kernel)
      (by decide +kernel) _ _
  have noClass (path : List Text) (hpath : ∀ part ∈ path.inits, part ≠ [] →
      d.isClass (Text.dotted part) = false) :
      ∀ part, part ≠ [] → part <+: path → d.isClass (Text.dotted part) = false :=
    fun part hne hleads => hpath part ((List.mem_inits part path).2 hleads) hne
  constructor
  · refine resolve_name_of_ofSelf built (List.cons_ne_nil _ _) (by decide +kernel)
      (noClass _ (by decide +kernel)) nofun ⟨fun _ => by decide +kernel, nofun⟩
  · refine resolve_name_of_ofSelf built (List.cons_ne_nil _ _) (by decide +kernel)
      (noClass _ (by decide +kernel)) nofun ⟨nofun, ?_⟩
    rintro c ⟨rfl⟩
    exact ⟨by decide +kernel, by decide +kernel⟩

/-- **In the class `self.engine` leaks.**  Behind the class it is spelled like the attribute that
the constructor binds, which stands for a class there. -/
theorem self_binding_found_in_class :
    let d := ((({} : Definitions).addClass "Car".toList).addClass "Engine".toList).bindSelf
      "Car".toList "self".toList "engine".toList (.name ["Engine".toList])
    let place : Place := { className := some "Car".toList }
    OfSelf d ∧ (∀ part ∈ [["self".toList], ["self".toList, "engine".toList]],
        d.isClass (Text.dotted part) = false)
      ∧ d.resolve place (.name ["self".toList, "engine".toList])
        = .classReference "Engine".toList := by
  intro d place
  refine ⟨?_, by decide +kernel, ?_⟩
  · have classes := OfSelf.empty.addClass_of_isName (by decide +kernel : Text.isName "Car".toList)
    exact (classes.addClass_of_isName (by decide +kernel)).bindSelf_of_isName (by decide +kernel)
      (by decide +kernel) _ _
  · have binding : d.bindingOf? place ["self".toList, "engine".toList]
        = some (selfKey "Car".toList "engine".toList,
            ⟨.name ["Engine".toList], ⟨some "Car".toList, some "self".toList⟩⟩) := rfl
    have bound : d.boundClass? [] place ["self".toList, "engine".toList]
        = some "Engine".toList := by
      rw [boundClass?_of_some binding]
      rfl
    unfold resolve
    rw [resolveWith, resolveName, bound]
    rfl

/-! ## §4. Paths that are spelled like attributes of self. -/

/-- A path of which a leading part is bound to a class is not external. -/
theorem resolve_name_ne_external {found : Text} (hpart : part ≠ []) (hleads : part <+: path)
    (hbound : d.boundClass? [] place part = some found) :
    d.resolve place (.name path) ≠ .external path := by
  intro heq
  unfold resolve at heq
  rw [resolveWith, resolveName] at heq
  split at heq
  · cases heq
  · next hnone =>
    have hwhole : part ≠ path := by
      rintro rfl
      rw [(Option.or_eq_none_iff.1 hnone).2] at hbound
      cases hbound
    unfold resolveBeyond at heq
    split at heq
    · cases heq
    · next hleading =>
      -- the part is one of those that are tried
      have hmem : part ∈ leadingParts path := by
        have hlength := hleads.length_le
        have hstrict : part.length ≠ path.length := fun h => hwhole (hleads.eq_of_length h)
        have hpos : 0 < part.length := List.length_pos_iff.2 hpart
        refine List.mem_map.2 ⟨part.length, ?_, (List.prefix_iff_eq_take.1 hleads).symm⟩
        exact List.mem_reverse.2 (List.mem_range'_1.2 ⟨hpos, by omega⟩)
      unfold leadingClass? at hleading
      have hpartNone := List.findSome?_eq_none_iff.1 hleading part hmem
      rw [(Option.or_eq_none_iff.1 hpartNone).2] at hbound
      cases hbound

/-- Where a path may be bound under the only key there is, it is bound to the class behind it. -/
theorem boundClass?_of_only {name key : Text} {self : Place}
    (hclass : d.classes.get? name = some name)
    (hkeys : ∀ other binding, d.bindings.get? other = some binding →
      other = key ∧ binding = ⟨.name [name], self⟩)
    (hbound : (d.bindings.get? key).isSome = true) (hkey : key ∈ d.candidateKeys place part) :
    d.boundClass? [] place part = some name := by
  cases hfound : d.bindingOf? place part with
  | none =>
      unfold bindingOf? at hfound
      have hnone := List.findSome?_eq_none_iff.1 hfound key hkey
      rw [Option.map_eq_none_iff.1 hnone] at hbound
      cases hbound
  | some entry =>
      obtain ⟨other, binding⟩ := entry
      obtain ⟨-, hget⟩ := mem_candidateKeys_of_bindingOf? hfound
      obtain ⟨rfl, rfl⟩ := hkeys other binding hget
      rw [boundClass?_of_some hfound, if_neg List.not_mem_nil, resolveWith, resolveName,
        Text.dotted_singleton, hclass]
      rfl

/-- What stands in a list before its last part stands in front of another one. -/
theorem exists_of_mem_dropLast {word : Text} (h : word ∈ path.dropLast) :
    ∃ front name, front ++ [word, name] <+: path := by
  obtain ⟨front, later, hsplit⟩ := List.append_of_mem h
  have hne : path ≠ [] := by
    rintro rfl
    exact List.not_mem_nil h
  have whole : path = front ++ word :: (later ++ [path.getLast hne]) := by
    rw [← List.cons_append, ← List.append_assoc, ← hsplit, List.dropLast_append_getLast]
  obtain ⟨name, rest, hrest⟩ := List.exists_cons_of_ne_nil
    (List.concat_ne_nil (path.getLast hne) later)
  refine ⟨front, name, rest, ?_⟩
  rw [List.append_assoc, whole, hrest]
  rfl

/-- The key of an attribute of self is spelled like a path. -/
theorem selfKey_dotted {segments : List Text} (hne : segments ≠ []) (name : Text) :
    selfKey (Text.dotted segments) name = Text.dotted (segments ++ ["self".toList, name]) := by
  have regroup : segments ++ ["self".toList, name] = segments ++ ["self".toList] ++ [name] := by
    rw [List.append_assoc]
    rfl
  rw [selfKey_eq, regroup, Text.dotted_concat (List.append_ne_nil_of_left_ne_nil hne _),
    Text.dotted_concat hne]

/-- Where the keys of a path are not kept apart, one of its leading parts is looked up under the
key of an attribute of self. -/
theorem exists_candidateKey_of_not_keepsApart (hne : path ≠ [])
    (hnames : ∀ s ∈ path, Text.isName s = true)
    (hclass : ∀ c, place.className = some c → ∃ segments, segments ≠ []
      ∧ (∀ s ∈ segments, Text.isName s = true) ∧ c = Text.dotted segments)
    (hspelled : ¬ place.KeepsApart path) :
    ∃ part segments name, part ≠ [] ∧ part <+: path ∧ segments ≠ []
      ∧ (∀ s ∈ segments, Text.isName s = true) ∧ Text.isName name = true
      ∧ ∀ d, selfKey (Text.dotted segments) name ∈ candidateKeys.general d place part := by
  cases hc : place.className with
  | none =>
      have hmem : "self".toList ∈ path.dropLast.tail := by
        by_contra hmem
        exact hspelled ⟨fun _ => hmem, fun c hsome => nomatch hc.symm.trans hsome⟩
      obtain ⟨s, rest, rfl⟩ := List.exists_cons_of_ne_nil hne
      have hrest : "self".toList ∈ rest.dropLast := by
        cases rest with
        | nil => exact absurd hmem List.not_mem_nil
        | cons u rest => exact hmem
      obtain ⟨front, name, hleads⟩ := exists_of_mem_dropLast hrest
      have hleads : s :: front ++ ["self".toList, name] <+: s :: rest :=
        (List.prefix_cons_inj s).2 hleads
      refine ⟨_, s :: front, name, List.cons_ne_nil _ _, hleads, List.cons_ne_nil _ _,
        fun u hu => hnames u (hleads.subset (List.mem_append_left _ hu)),
        hnames name (hleads.subset (List.mem_append_right _ (by simp))), fun d => ?_⟩
      rw [selfKey_dotted (List.cons_ne_nil _ _)]
      exact List.mem_append_left _ (List.mem_append_right _ (List.mem_singleton.2 rfl))
  | some c =>
      obtain ⟨outer, houter, houterNames, rfl⟩ := hclass c hc
      have behindClass (d : Definitions) (part : List Text) :
          classKey (Text.dotted outer) (Text.dotted part) ∈ candidateKeys.general d place part := by
        refine List.mem_append_left _ (List.mem_append_left _ (Option.mem_toList.2 ?_))
        rw [hc]
        rfl
      by_cases hmem : "self".toList ∈ path.dropLast
      · -- the word stands in the path
        obtain ⟨front, name, hleads⟩ := exists_of_mem_dropLast hmem
        have hpart : front ++ ["self".toList, name] ≠ [] :=
          List.append_ne_nil_of_right_ne_nil _ (List.cons_ne_nil _ _)
        refine ⟨_, outer ++ front, name, hpart, hleads, List.append_ne_nil_of_left_ne_nil houter _,
          fun u hu => ?_, hnames name (hleads.subset (List.mem_append_right _ (by simp))),
          fun d => ?_⟩
        · rcases List.mem_append.1 hu with hu | hu
          · exact houterNames u hu
          · exact hnames u (hleads.subset (List.mem_append_left _ hu))
        · rw [selfKey_dotted (List.append_ne_nil_of_left_ne_nil houter _), List.append_assoc,
            Text.dotted_append houter hpart]
          exact behindClass d _
      · -- the word ends the name of the class
        have ends : (Text.dotted outer).endsWith ".self".toList = true := by
          by_contra hends
          refine hspelled ⟨fun hnone => (nomatch hc.symm.trans hnone), fun c hsome => ?_⟩
          obtain rfl := Option.some.inj (hc.symm.trans hsome)
          exact ⟨hmem, Bool.eq_false_iff.2 hends⟩
        obtain ⟨owner, hsplit⟩ := List.isSuffixOf_iff_suffix.1 ends
        obtain ⟨segments, hsegments, rfl, -⟩ := Text.exists_of_dotted_eq
          (fun s hs => Text.dot_not_mem_of_isName (houterNames s hs)) (by decide) hsplit.symm
        obtain ⟨name, rest, rfl⟩ := List.exists_cons_of_ne_nil hne
        refine ⟨[name], segments, name, List.cons_ne_nil _ _, ⟨rest, rfl⟩, hsegments,
          fun u hu => houterNames u (List.mem_append_left _ hu), hnames name List.mem_cons_self,
          fun d => ?_⟩
        have key : selfKey (Text.dotted segments) name
            = classKey (Text.dotted (segments ++ ["self".toList])) (Text.dotted [name]) := by
          rw [selfKey_eq, Text.dotted_concat hsegments, Text.dotted_singleton]
          rfl
        rw [key]
        exact behindClass d _

/-- **Where keys are not kept apart, an attribute of self leaks.**  For each such path and place
some definitions with attributes of self only bind the path to a class. -/
theorem exists_resolve_name_ne_external (hne : path ≠ [])
    (hnames : ∀ s ∈ path, Text.isName s = true)
    (hclass : ∀ c, place.className = some c → ∃ segments, segments ≠ []
      ∧ (∀ s ∈ segments, Text.isName s = true) ∧ c = Text.dotted segments)
    (hself : ∀ s, place.selfName = some s → path.head? ≠ some s)
    (hspelled : ¬ place.KeepsApart path) :
    ∃ d, OfSelf d ∧ (∀ part, part ≠ [] → part <+: path → d.isClass (Text.dotted part) = false)
      ∧ d.resolve place (.name path) ≠ .external path := by
  obtain ⟨part, segments, name, hpart, hleads, hsegments, hsegmentNames, hname, hkey⟩ :=
    exists_candidateKey_of_not_keepsApart hne hnames hclass hspelled
  obtain ⟨first, rest, rfl⟩ := List.exists_cons_of_ne_nil hne
  -- a class that no leading part names, for its name is longer than the first of them
  let other : Text := 'x' :: first
  have hother : Text.isName other = true := by
    have letters : first.all Text.isNameChar = true := List.all_eq_true.2 fun _ hc =>
      Text.isNameChar_of_mem (hnames first List.mem_cons_self) hc
    exact letters
  have dotless := Text.dot_not_mem_of_isName hother
  let single : Definitions := ({} : Definitions).addClass other
  have classes (key : Text) :
      single.classes.get? key = if key = other then some other else none := by
    rw [classes_addClass, Text.shortName?_of_dotless dotless]
    rfl
  have built : OfSelf single := OfSelf.empty.addClass_of_isName hother
  let d := single.bindSelf (Text.dotted segments) [] name (.name [other])
  have bindings (key : Text) : d.bindings.get? key = if key = selfKey (Text.dotted segments) name
      then some ⟨.name [other], ⟨some (Text.dotted segments), some []⟩⟩ else none := by
    show (single.bindings.set _ _).get? key = _
    rw [Table.get?_set, bindings_addClass]
    rfl
  have bound : d.boundClass? [] place part = some other := by
    refine @boundClass?_of_only d _ place other (selfKey (Text.dotted segments) name)
      ⟨some (Text.dotted segments), some []⟩ ((classes other).trans (if_pos rfl))
      (fun key binding hget => ?_) ?_
      ((candidateKeys_eq_general d hself hpart hleads).symm ▸ hkey d)
    · rw [bindings] at hget
      split at hget
      · next heq => exact ⟨heq, (Option.some.inj hget).symm⟩
      · cases hget
    · rw [bindings, if_pos rfl]
      rfl
  refine ⟨d, .bindSelf built hsegments hsegmentNames hname _ _, fun front hfront hfrontPrefix => ?_,
    resolve_name_ne_external hpart hleads bound⟩
  show (single.classes.get? (Text.dotted front)).isSome = false
  rw [classes, if_neg]
  · rfl
  intro heq
  obtain ⟨s, later, rfl⟩ := List.exists_cons_of_ne_nil hfront
  obtain ⟨rfl, -⟩ := List.cons_prefix_cons.1 hfrontPrefix
  cases later with
  | nil =>
      rw [Text.dotted_singleton] at heq
      have hlength := congrArg List.length heq
      rw [List.length_cons] at hlength
      omega
  | cons u later =>
      unfold Text.dotted at heq
      rw [Text.join_cons_cons] at heq
      rw [← heq] at dotless
      simp at dotless

end Definitions

end ClassOutline
