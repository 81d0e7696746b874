/-
  ClassOutline.Proofs.Outline.Bindings
  ────────────────────────────────
  **WHAT IS STILL BOUND WHEN THE LAST EVENT IS IN.**

  Each attribute of a class is bound when it is assigned.  The binding may be
  lost again in three ways: its key is bound anew, a class around it starts
  again and forgets it, or the key is also that of another class's attribute.
  The first keeps the table up to date.  The second hits classes that a later
  definition of a class around them leaves behind.  The third needs a class
  called `self`: its attributes have the keys of the attributes of self in the
  class around it.

  `Tied` says that there is no fourth way: the key of an attribute of a class
  that is not replaced is bound to what is last assigned to an attribute of
  that key (`Held`), or to nothing if it was forgotten (`Lost`).  Every event
  keeps it.
-/
import ClassOutline.Outline.OfSource
import ClassOutline.Proofs.Outline.Notes

namespace ClassOutline

open Text (IsBelow)

/-! ## §1. Attributes and their keys. -/

/-- Whose an attribute is: that of a class, or of self in it. -/
inductive AttributeKind where
  | ofClass
  | ofSelf
  deriving DecidableEq, Repr

namespace AttributeKind

/-- What stands before the last dot of the keys in a class. -/
def owner : AttributeKind → Text → Text
  | ofClass, className => className
  | ofSelf, className => className ++ '.' :: "self".toList

theorem classKey_eq (className name : Text) :
    Definitions.classKey className name = ofClass.owner className ++ '.' :: name :=
  rfl

theorem selfKey_eq (className name : Text) :
    Definitions.selfKey className name = ofSelf.owner className ++ '.' :: name :=
  Definitions.selfKey_eq className name

theorem owner_inj {kind : AttributeKind} {c c' : Text} (h : kind.owner c = kind.owner c') :
    c = c' := by
  cases kind with
  | ofClass => exact h
  | ofSelf => exact List.append_cancel_right h

/-- The keys in a class are below it. -/
theorem isBelow_key (kind : AttributeKind) (c name : Text) :
    IsBelow c (kind.owner c ++ '.' :: name) := by
  cases kind with
  | ofClass => exact Text.isBelow_append_cons_self c name
  | ofSelf => exact (Text.isBelow_append_cons_self c _).append _

/-- There are two kinds. -/
theorem eq_of_ne_of_ne {k kind other : AttributeKind} (hk : k ≠ kind) (hother : kind ≠ other) :
    k = other := by
  cases kind <;> cases k <;> cases other <;> trivial

/-- What the owner lies below is the class, or what the class lies below. -/
theorem eq_or_isBelow_of_isBelow_owner {kind : AttributeKind} {name c : Text}
    (h : IsBelow name (kind.owner c)) : name = c ∨ IsBelow name c := by
  cases kind with
  | ofClass => exact .inr h
  | ofSelf => exact (Text.isBelow_append_cons_iff (by decide)).1 h

end AttributeKind

/-- The name of a class and its attributes of both kinds. -/
structure Members where
  name : Text
  attributes : AttributeKind → List (Attribute Deferred)

namespace Members

/-- A further attribute. -/
def add (kind : AttributeKind) (a : Attribute Deferred) (m : Members) : Members :=
  { m with attributes := fun k => if k = kind then m.attributes k ++ [a] else m.attributes k }

/-- The last attribute of a name. -/
def last? (m : Members) (kind : AttributeKind) (name : Text) : Option (Attribute Deferred) :=
  findLast? (fun a => a.name = name) (m.attributes kind)

theorem last?_add (m : Members) (kind k : AttributeKind) (a : Attribute Deferred) (name : Text) :
    (m.add kind a).last? k name = if k = kind ∧ name = a.name then some a else m.last? k name := by
  unfold last? add
  dsimp only
  by_cases hk : k = kind
  · -- the new attribute is the first one from behind
    rw [if_pos hk]
    unfold findLast?
    rw [List.reverse_append, List.reverse_singleton, List.singleton_append, List.find?_cons]
    by_cases hname : name = a.name
    · rw [if_pos ⟨hk, hname⟩, decide_eq_true hname.symm]
    · rw [if_neg fun h => hname h.2, decide_eq_false (Ne.symm hname)]
  · rw [if_neg hk, if_neg fun h => hk h.1]

theorem mem_of_last? {m : Members} {kind : AttributeKind} {name : Text} {a : Attribute Deferred}
    (h : m.last? kind name = some a) : a ∈ m.attributes kind ∧ a.name = name := by
  have hmem := List.mem_of_find?_eq_some h
  have hname := List.find?_some h
  exact ⟨List.mem_reverse.1 hmem, of_decide_eq_true hname⟩

end Members

/-- The attributes of a draft. -/
def Class.members (c : Class Deferred) : Members where
  name := c.name
  attributes
    | .ofClass => c.classAttributes
    | .ofSelf => c.instanceAttributes

namespace Class

theorem members_of_nil {c : Class Deferred} (hclass : c.classAttributes = [])
    (hself : c.instanceAttributes = []) : c.members = ⟨c.name, fun _ => []⟩ := by
  unfold members
  congr 1
  funext kind
  cases kind with
  | ofClass => exact hclass
  | ofSelf => exact hself

theorem members_addClassAttribute (c : Class Deferred) (a : Attribute Deferred) :
    { c with classAttributes := c.classAttributes ++ [a] }.members = c.members.add .ofClass a := by
  unfold members Members.add
  congr 1
  funext kind
  cases kind with
  | ofClass => rfl
  | ofSelf => rfl

theorem members_addInstanceAttribute (c : Class Deferred) (a : Attribute Deferred) :
    { c with instanceAttributes := c.instanceAttributes ++ [a] }.members
      = c.members.add .ofSelf a := by
  unfold members Members.add
  congr 1
  funext kind
  cases kind with
  | ofClass => rfl
  | ofSelf => rfl

end Class

/-! ## §2. Keys and what they are bound to. -/

/-- The class at a position, of which no later one has the name. -/
def LastAt (ms : List Members) (i : Nat) (m : Members) : Prop :=
  ms[i]? = some m ∧ ∀ j x, i < j → ms[j]? = some x → x.name ≠ m.name

/-- The key is bound to the last attribute of its name in a class that no later one replaces. -/
def Held (ms : List Members) (bindings : Table Binding) (owner name : Text) : Prop :=
  ∃ j x kind b, LastAt ms j x ∧ kind.owner x.name = owner ∧ x.last? kind name = some b
    ∧ bindings.get? (owner ++ '.' :: name) = some ⟨b.value.value, ⟨some x.name, b.value.selfName⟩⟩

/-- What may have forgotten the keys of a class: a class around it that starts behind it, or
one that is called as the owner of the keys and starts again. -/
def Lost (ms : List Members) (i : Nat) (m : Members) (kind : AttributeKind) : Prop :=
  (∃ j x, i < j ∧ ms[j]? = some x ∧ IsBelow x.name m.name)
    ∨ kind = .ofSelf ∧ 1 < (ms.map Members.name).count (kind.owner m.name)

/-- The invariant of an assembly: the classes behind an open one are in it, and the keys of
what is not replaced are up to date or forgotten. -/
structure Tied (ms : List Members) (opened : List Nat) (bindings : Table Binding) : Prop where
  named : ∀ m ∈ ms, ∀ kind, ∀ a ∈ m.attributes kind, '.' ∉ a.name
  decreasing : opened.Pairwise (· > ·)
  nested : ∀ i ∈ opened, ∀ j m x, i < j → ms[i]? = some m → ms[j]? = some x →
    IsBelow m.name x.name
  bound : ∀ i m kind name a, LastAt ms i m → m.last? kind name = some a →
    Held ms bindings (kind.owner m.name) name
      ∨ bindings.get? (kind.owner m.name ++ '.' :: name) = none ∧ Lost ms i m kind

namespace Tied

variable {ms : List Members} {opened : List Nat} {bindings : Table Binding}

theorem empty : Tied [] [] {} :=
  ⟨fun _ h => absurd h List.not_mem_nil, .nil, fun _ h => absurd h List.not_mem_nil,
   fun _ _ _ _ _ h => absurd h.1 (by simp)⟩

/-- The innermost class ends. -/
theorem close (h : Tied ms opened bindings) : Tied ms opened.tail bindings :=
  ⟨h.named, h.decreasing.tail, fun i hi => h.nested i (List.mem_of_mem_tail hi), h.bound⟩

/-- A key without dots is no key of a class. -/
theorem bindModule (h : Tied ms opened bindings) {key : Text} (hkey : '.' ∉ key) (b : Binding) :
    Tied ms opened (bindings.set key b) := by
  refine ⟨h.named, h.decreasing, h.nested, ?_⟩
  intro i m kind name a hlastAt hlast
  have hne : kind.owner m.name ++ '.' :: name ≠ key := by
    rintro rfl
    simp at hkey
  unfold Held
  rw [Table.get?_set, if_neg hne]
  exact h.bound i m kind name a hlastAt hlast

/-- The last attribute of a name is called by a name. -/
theorem dotless (h : Tied ms opened bindings) {i : Nat} {m : Members} {kind : AttributeKind}
    {name : Text} {a : Attribute Deferred} (hm : ms[i]? = some m)
    (hlast : m.last? kind name = some a) : '.' ∉ name := by
  obtain ⟨hmem, rfl⟩ := Members.mem_of_last? hlast
  exact h.named m (List.mem_of_getElem? hm) kind a hmem

/-! ## §3. A class starts. -/

variable {name : Text}

theorem eq_of_getElem?_append {i : Nat} {m new : Members} (hi : ¬i < ms.length)
    (h : (ms ++ [new])[i]? = some m) : m = new := by
  rw [List.getElem?_append_right (Nat.le_of_not_lt hi)] at h
  exact List.mem_singleton.1 (List.mem_of_getElem? h)

/-- The last class of a name was so before, and the new one has another. -/
theorem lastAt_of_append {i : Nat} {m new : Members} (h : LastAt (ms ++ [new]) i m)
    (hi : i < ms.length) : LastAt ms i m ∧ new.name ≠ m.name := by
  obtain ⟨hget, hlater⟩ := h
  refine ⟨⟨?_, fun j x hj hx => ?_⟩, hlater ms.length new hi List.getElem?_concat_length⟩
  · rwa [List.getElem?_append_left hi] at hget
  · refine hlater j x hj ?_
    obtain ⟨hlt, -⟩ := List.getElem?_eq_some_iff.1 hx
    rwa [List.getElem?_append_left hlt]

/-- The last class of a name is it still, unless the new one has the name. -/
theorem lastAt_append {j : Nat} {x new : Members} (h : LastAt ms j x) (hne : new.name ≠ x.name) :
    LastAt (ms ++ [new]) j x := by
  obtain ⟨hget, hlater⟩ := h
  have hlt := (List.getElem?_eq_some_iff.1 hget).1
  refine ⟨(List.getElem?_append_left hlt).trans hget, fun k y hk hy => ?_⟩
  by_cases hkl : k < ms.length
  · rw [List.getElem?_append_left hkl] at hy
    exact hlater k y hk hy
  · rw [eq_of_getElem?_append hkl hy]
    exact hne

theorem lost_append {i : Nat} {m : Members} {kind : AttributeKind} (h : Lost ms i m kind)
    (new : Members) : Lost (ms ++ [new]) i m kind := by
  rcases h with ⟨j, x, hj, hx, hbelow⟩ | ⟨hkind, hcount⟩
  · have hlt := (List.getElem?_eq_some_iff.1 hx).1
    exact .inl ⟨j, x, hj, (List.getElem?_append_left hlt).trans hx, hbelow⟩
  · refine .inr ⟨hkind, ?_⟩
    rw [List.map_append, List.count_append]
    omega

/-- Keys that a new class forgets are lost. -/
theorem lost_of_isBelow {i : Nat} {m : Members} {kind : AttributeKind} {attr : Text}
    (hi : i < ms.length) (hdot : '.' ∉ attr) (hne : name ≠ m.name)
    (hagain : name ∈ ms.map Members.name) (hkey : IsBelow name (kind.owner m.name ++ '.' :: attr)) :
    Lost (ms ++ [⟨name, fun _ => []⟩]) i m kind := by
  rcases (Text.isBelow_append_cons_iff hdot).1 hkey with heq | hkey
  · cases kind with
    | ofClass => exact absurd heq hne
    | ofSelf =>
        -- the new class is called as the owner, and not for the first time
        have hfirst := List.count_pos_iff.2 hagain
        refine .inr ⟨rfl, ?_⟩
        rw [List.map_append, List.map_singleton, ← heq, List.count_append,
          List.count_singleton_self]
        omega
  · rcases AttributeKind.eq_or_isBelow_of_isBelow_owner hkey with heq | hkey
    · exact absurd heq hne
    · exact .inl ⟨ms.length, _, hi, List.getElem?_concat_length, hkey⟩

/-- A class that starts inside the open classes is in all of them, and stands behind them. -/
theorem nested_append (h : Tied ms opened bindings) (hvalid : ∀ i ∈ opened, i < ms.length)
    (hinside : ∀ i ∈ opened, ∀ m, ms[i]? = some m → IsBelow m.name name) :
    ∀ i ∈ ms.length :: opened, ∀ j m x, i < j → (ms ++ [⟨name, fun _ => []⟩])[i]? = some m →
      (ms ++ [⟨name, fun _ => []⟩])[j]? = some x → IsBelow m.name x.name := by
  intro i hi j m x hij hm hx
  have hj : j < ms.length + 1 := by simpa using (List.getElem?_eq_some_iff.1 hx).1
  rcases List.mem_cons.1 hi with rfl | hi
  · omega
  · have hlt := hvalid i hi
    rw [List.getElem?_append_left hlt] at hm
    by_cases hjl : j < ms.length
    · rw [List.getElem?_append_left hjl] at hx
      exact h.nested i hi j m x hij hm hx
    · obtain rfl : j = ms.length := by omega
      rw [List.getElem?_concat_length] at hx
      obtain rfl := Option.some.inj hx
      exact hinside i hi m hm

/-- **A class that starts leaves the keys up to date or forgotten**, if it starts inside the
open classes. -/
theorem start {d : Definitions} (h : Tied ms opened d.bindings)
    (hstarted : ∀ name, d.HasStarted name ↔ name ∈ ms.map Members.name)
    (hvalid : ∀ i ∈ opened, i < ms.length)
    (hinside : ∀ i ∈ opened, ∀ m, ms[i]? = some m → IsBelow m.name name) :
    Tied (ms ++ [⟨name, fun _ => []⟩]) (ms.length :: opened) (d.note (.starts name)).bindings := by
  refine ⟨?_, List.pairwise_cons.2 ⟨hvalid, h.decreasing⟩, h.nested_append hvalid hinside, ?_⟩
  · intro m hm kind a ha
    rcases List.mem_append.1 hm with hm | hm
    · exact h.named m hm kind a ha
    · rw [List.mem_singleton.1 hm] at ha
      exact absurd ha List.not_mem_nil
  · intro i m kind attr a hlastAt hlast
    by_cases hi : i < ms.length
    · obtain ⟨hbefore, hne⟩ := lastAt_of_append hlastAt hi
      unfold Held
      rw [Definitions.bindings_note_starts]
      by_cases hforgets : IsBelow name (kind.owner m.name ++ '.' :: attr) ∧ d.HasStarted name
      · rw [if_pos hforgets]
        obtain ⟨hkey, hagain⟩ := hforgets
        exact .inr ⟨rfl, lost_of_isBelow hi (h.dotless hbefore.1 hlast) hne
          ((hstarted name).1 hagain) hkey⟩
      · rw [if_neg hforgets]
        rcases h.bound i m kind attr a hbefore hlast with ⟨j, x, k, b, hx, howner, hb, hget⟩ | hlost
        · refine .inl ⟨j, x, k, b, lastAt_append hx ?_, howner, hb, hget⟩
          -- if it replaced the class that holds the key, it would forget the key
          rintro rfl
          refine hforgets ⟨?_, (hstarted _).2 (List.mem_map_of_mem (List.mem_of_getElem? hx.1))⟩
          rw [← howner]
          exact k.isBelow_key x.name attr
        · exact .inr ⟨hlost.1, lost_append hlost.2 _⟩
    · -- the new class has no attributes yet
      rw [eq_of_getElem?_append hi hlastAt.1] at hlast
      cases hlast

/-! ## §4. An attribute is assigned. -/

/-- A class at a position before an attribute is added to one. -/
theorem exists_of_modify {i j : Nat} {m : Members} {f : Members → Members}
    (h : (ms.modify i f)[j]? = some m) :
    ∃ m', ms[j]? = some m' ∧ m = if i = j then f m' else m' := by
  rw [List.getElem?_modify] at h
  obtain ⟨m', hget, heq⟩ := Option.map_eq_some_iff.1 h
  exact ⟨m', hget, heq.symm⟩

theorem getElem?_modify_of_eq {i j : Nat} {m : Members} (f : Members → Members)
    (h : ms[j]? = some m) : (ms.modify i f)[j]? = some (if i = j then f m else m) := by
  rw [List.getElem?_modify, h]
  rfl

section

variable {position i : Nat} {kind : AttributeKind} {a : Attribute Deferred} {m : Members}

/-- Adding an attribute changes no name. -/
theorem name_add (kind : AttributeKind) (a : Attribute Deferred) (position i : Nat) (m : Members) :
    (if position = i then m.add kind a else m).name = m.name := by
  split <;> rfl

theorem map_name_modify (ms : List Members) (position : Nat) (kind : AttributeKind)
    (a : Attribute Deferred) :
    (ms.modify position (·.add kind a)).map Members.name = ms.map Members.name := by
  have h : (ms.modify position (·.add kind a)).map Members.name
      = (ms.map Members.name).modify position fun name => name :=
    map_modify (by intro _; rfl) position ms
  exact h.trans (List.modify_id position _)

theorem lastAt_modify (h : LastAt ms i m) (position : Nat) (kind : AttributeKind)
    (a : Attribute Deferred) :
    LastAt (ms.modify position (·.add kind a)) i (if position = i then m.add kind a else m) := by
  refine ⟨getElem?_modify_of_eq _ h.1, fun j x hj hx => ?_⟩
  obtain ⟨x', hx', rfl⟩ := exists_of_modify hx
  rw [name_add, name_add]
  exact h.2 j x' hj hx'

theorem lastAt_of_modify (h : LastAt (ms.modify position (·.add kind a)) i m) :
    ∃ m', LastAt ms i m' ∧ m = if position = i then m'.add kind a else m' := by
  obtain ⟨m', hm', rfl⟩ := exists_of_modify h.1
  refine ⟨m', ⟨hm', fun j x hj hx => ?_⟩, rfl⟩
  have hne := h.2 j _ hj (getElem?_modify_of_eq _ hx)
  rwa [name_add, name_add] at hne

theorem lost_modify {k : AttributeKind} (h : Lost ms i m k) (position : Nat)
    (kind : AttributeKind) (a : Attribute Deferred) :
    Lost (ms.modify position (·.add kind a)) i (if position = i then m.add kind a else m) k := by
  unfold Lost at h ⊢
  rw [map_name_modify, name_add]
  rcases h with ⟨j, x, hj, hx, hbelow⟩ | hcount
  · refine .inl ⟨j, _, hj, getElem?_modify_of_eq _ hx, ?_⟩
    rw [name_add]
    exact hbelow
  · exact .inr hcount

theorem dotless_modify (h : ∀ m ∈ ms, ∀ k, ∀ b ∈ m.attributes k, '.' ∉ b.name)
    (hdot : '.' ∉ a.name) (position : Nat) (kind : AttributeKind) :
    ∀ m ∈ ms.modify position (·.add kind a), ∀ k, ∀ b ∈ m.attributes k, '.' ∉ b.name := by
  intro m hm k b hb
  obtain ⟨j, hj⟩ := List.mem_iff_getElem?.1 hm
  obtain ⟨m', hm', rfl⟩ := exists_of_modify hj
  have hbefore := h m' (List.mem_of_getElem? hm') k
  split at hb
  · unfold Members.add at hb
    dsimp only at hb
    split at hb
    · rcases List.mem_append.1 hb with hb | hb
      · exact hbefore b hb
      · rw [List.mem_singleton.1 hb]
        exact hdot
    · exact hbefore b hb
  · exact hbefore b hb

/-- The key of a new attribute is held by it, in a class that no later one replaces. -/
theorem held_assign {inner : Members} (hinner : LastAt ms position inner) (kind : AttributeKind)
    (a : Attribute Deferred) (bindings : Table Binding) :
    Held (ms.modify position (·.add kind a))
      (bindings.set (kind.owner inner.name ++ '.' :: a.name)
        ⟨a.value.value, ⟨some inner.name, a.value.selfName⟩⟩)
      (kind.owner inner.name) a.name := by
  have hadded := lastAt_modify hinner position kind a
  rw [if_pos rfl] at hadded
  refine ⟨position, inner.add kind a, kind, a, hadded, rfl, ?_, ?_⟩
  · rw [Members.last?_add, if_pos ⟨rfl, rfl⟩]
  · rw [Table.get?_set, if_pos rfl]
    rfl

section
variable {inner : Members} {owner attr : Text}

/-- A further attribute leaves the last ones of other keys as they are. -/
theorem last?_modify_of_ne (hinner : ms[position]? = some inner)
    (hkey : owner ++ '.' :: attr ≠ kind.owner inner.name ++ '.' :: a.name) {k : AttributeKind}
    (hm : ms[i]? = some m) (howner : k.owner m.name = owner) :
    (if position = i then m.add kind a else m).last? k attr = m.last? k attr := by
  split
  · next heq =>
    subst heq
    obtain rfl := Option.some.inj (hm.symm.trans hinner)
    rw [Members.last?_add, if_neg]
    rintro ⟨rfl, rfl⟩
    exact hkey (by rw [howner])
  · rfl

/-- What holds another key than a new attribute has still holds it. -/
theorem held_assign_of_ne (hinner : ms[position]? = some inner)
    (hkey : owner ++ '.' :: attr ≠ kind.owner inner.name ++ '.' :: a.name)
    (h : Held ms bindings owner attr) (b : Binding) :
    Held (ms.modify position (·.add kind a))
      (bindings.set (kind.owner inner.name ++ '.' :: a.name) b) owner attr := by
  obtain ⟨j, x, k, b', hx, howner, hlast, hget⟩ := h
  refine ⟨j, _, k, b', lastAt_modify hx position kind a, ?_, ?_, ?_⟩
  · rw [name_add]
    exact howner
  · rw [last?_modify_of_ne hinner hkey hx.1 howner]
    exact hlast
  · rw [Table.get?_set, if_neg hkey, name_add]
    exact hget

end

/-- **An attribute that is assigned is bound**, and what else was bound stays so. -/
theorem assign (h : Tied ms (position :: opened) bindings) {inner : Members}
    (hinner : ms[position]? = some inner) (kind : AttributeKind) (hdot : '.' ∉ a.name) :
    Tied (ms.modify position (·.add kind a)) (position :: opened)
      (bindings.set (kind.owner inner.name ++ '.' :: a.name)
        ⟨a.value.value, ⟨some inner.name, a.value.selfName⟩⟩) := by
  have named := dotless_modify h.named hdot position kind
  refine ⟨named, h.decreasing, ?_, ?_⟩
  · intro i hi j m x hij hm hx
    obtain ⟨m', hm', rfl⟩ := exists_of_modify hm
    obtain ⟨x', hx', rfl⟩ := exists_of_modify hx
    rw [name_add, name_add]
    exact h.nested i hi j m' x' hij hm' hx'
  · intro i m k attr b hlastAt hlast
    have hattr : '.' ∉ attr := by
      obtain ⟨hmem, rfl⟩ := Members.mem_of_last? hlast
      exact named _ (List.mem_of_getElem? hlastAt.1) k b hmem
    obtain ⟨m', hm', rfl⟩ := lastAt_of_modify hlastAt
    rw [name_add]
    by_cases hkey : k.owner m'.name ++ '.' :: attr = kind.owner inner.name ++ '.' :: a.name
    · obtain ⟨howner, rfl⟩ := Text.append_dot_inj hattr hdot hkey
      -- the classes behind the innermost one are in it, so none of them replaces it
      have hinnerLast : LastAt ms position inner := by
        refine ⟨hinner, fun j x hj hx => ?_⟩
        exact (h.nested position List.mem_cons_self j inner x hj hinner hx).ne
      rw [howner]
      exact .inl (held_assign hinnerLast kind a bindings)
    · rw [last?_modify_of_ne hinner hkey hm'.1 rfl] at hlast
      rcases h.bound i m' k attr b hm' hlast with hheld | ⟨hnone, hlost⟩
      · exact .inl (held_assign_of_ne hinner hkey hheld _)
      · refine .inr ⟨?_, lost_modify hlost position kind a⟩
        rw [Table.get?_set, if_neg hkey]
        exact hnone

end

end Tied

/-! ## §5. Every event keeps what is bound. -/

/-- A method whose header names a self has it as an assembly sees it. -/
theorem MethodStart.exists_selfName? {cfg : Config} {m : MethodStart}
    (h : (selfNameOf? cfg m.decorators m.parameters).isSome = true) :
    ∃ name, m.selfName? cfg = some name := by
  obtain ⟨name, hname⟩ := Option.isSome_iff_exists.1 h
  exact ⟨name, (MethodStart.selfName?_of_selfNameOf? hname).1⟩

namespace Assembly

/-- The invariant of an assembly. -/
def Tied (s : Assembly) : Prop :=
  ClassOutline.Tied (s.drafts.map Class.members) s.opened s.definitions.bindings

variable {cfg : Config} {s : Assembly} {opened : List Event}

/-- What changes no attribute of the innermost class. -/
theorem Tied.modifyInnermost (h : s.Tied) {f : Class Deferred → Class Deferred}
    (hf : ∀ c, (f c).members = c.members) : (s.modifyInnermost f).Tied := by
  unfold Tied
  rw [map_drafts_modifyInnermost hf, opened_modifyInnermost, definitions_modifyInnermost]
  exact h

theorem exists_members_of_innermost? {c : Class Deferred} (h : s.innermost? = some c) :
    ∃ position outer, s.opened = position :: outer
      ∧ (s.drafts.map Class.members)[position]? = some c.members := by
  obtain ⟨position, outer, hopened, hget⟩ := exists_of_innermost? h
  refine ⟨position, outer, hopened, ?_⟩
  rw [List.getElem?_map, hget]
  rfl

/-- The innermost class is given an attribute, and the attribute bound. -/
theorem Tied.assign (h : s.Tied) {c : Class Deferred} (hinner : s.innermost? = some c)
    (kind : AttributeKind) {a : Attribute Deferred} (hdot : '.' ∉ a.name) {d : Definitions}
    {f : Class Deferred → Class Deferred} (hf : ∀ c, (f c).members = c.members.add kind a)
    (hd : d.bindings = s.definitions.bindings.set (kind.owner c.name ++ '.' :: a.name)
      ⟨a.value.value, ⟨some c.name, a.value.selfName⟩⟩) :
    ({ s with definitions := d }.modifyInnermost f).Tied := by
  obtain ⟨position, outer, hopened, hmember⟩ := exists_members_of_innermost? hinner
  unfold Tied at h
  rw [hopened] at h
  have assigned := h.assign hmember kind hdot
  have drafts : (s.drafts.modify position f).map Class.members
      = (s.drafts.map Class.members).modify position (·.add kind a) :=
    map_modify hf position s.drafts
  unfold Tied Assembly.modifyInnermost
  dsimp only
  rw [hopened]
  dsimp only
  rw [drafts, hd]
  exact assigned

/-- The open classes around a class that starts. -/
theorem Tied.inside (h : s.Tied) (mirrors : s.Mirrors cfg opened) {c : ClassStart}
    (fits : (Event.classStart c).FitsIn cfg opened.head?) :
    ∀ i ∈ s.opened, ∀ m, (s.drafts.map Class.members)[i]? = some m → IsBelow m.name c.name := by
  intro i hi m hm
  rcases fits with ⟨hnone, -⟩ | ⟨outer, name, houter, -, heq⟩
  · obtain rfl := List.head?_eq_none_iff.1 hnone
    rw [mirrors.opened_eq_nil] at hi
    exact absurd hi List.not_mem_nil
  · have hname : s.innermost?.map Class.name = some outer.name := by
      obtain ⟨rest, rfl⟩ := List.head?_eq_some_iff.1 houter
      exact mirrors.innermost?_name
    obtain ⟨inner, hinner, hname⟩ := Option.map_eq_some_iff.1 hname
    obtain ⟨position, others, hopened, hmember⟩ := exists_members_of_innermost? hinner
    have below : IsBelow inner.name c.name := by
      rw [heq, hname]
      exact Text.isBelow_append_cons_self outer.name name
    rw [hopened] at hi
    -- `i` is the position of the innermost class, or of one around it
    rcases List.mem_cons.1 hi with rfl | hi
    · rw [hmember] at hm
      obtain rfl := Option.some.inj hm
      exact below
    · have hdecreasing := h.decreasing
      rw [hopened] at hdecreasing
      have hlt : i < position := (List.pairwise_cons.1 hdecreasing).1 i hi
      have hwithin : IsBelow m.name inner.name :=
        h.nested i (hopened ▸ List.mem_cons_of_mem position hi) position m inner.members hlt hm
          hmember
      exact Text.IsWithin.below (.inr hwithin) below

/-- **ONE EVENT KEEPS WHAT IS BOUND.** -/
theorem Tied.take (h : s.Tied) (mirrors : s.Mirrors cfg opened) {e : Event}
    (fits : e.FitsIn cfg opened.head?) : (s.take cfg e).1.Tied := by
  cases e with
  | classStart c =>
      have definitions : (s.take cfg (.classStart c)).1.definitions
          = s.definitions.note (.starts c.name) := mirrors.definitions_take _
      have started : ∀ name, s.definitions.HasStarted name
          ↔ name ∈ (s.drafts.map Class.members).map Members.name := by
        intro name
        rw [List.map_map]
        exact mirrors.started name
      have valid : ∀ i ∈ s.opened, i < (s.drafts.map Class.members).length := by
        intro i hi
        rw [List.length_map]
        exact mirrors.valid i hi
      have next := ClassOutline.Tied.start h started valid (h.inside mirrors fits)
      unfold Tied
      rw [definitions]
      show ClassOutline.Tied ((s.drafts ++ [_]).map Class.members) (s.drafts.length :: s.opened) _
      rw [List.map_append, List.map_singleton, Class.members_of_nil rfl rfl,
        ← List.length_map Class.members]
      exact next
  | classEnd name => exact ClassOutline.Tied.close h
  | methodStart m =>
      show (s.startMethod cfg m).1.Tied
      unfold startMethod
      split
      · exact h
      · exact h.modifyInnermost (by intro _; rfl)
  | methodEnd name source =>
      show (s.endMethod source).Tied
      unfold endMethod
      dsimp only
      split
      · exact h
      · exact Tied.modifyInnermost (show Tied { s with method := none } from h) (by intro _; rfl)
  | classAssignment a =>
      show (s.assignClass cfg a).1.Tied
      unfold assignClass
      split
      · exact h
      · next c hinner =>
        refine h.assign hinner .ofClass (a := a.draft cfg { value := a.value.classify.value })
          (Text.dot_not_mem_of_isName fits.2) (fun c => c.members_addClassAttribute _) rfl
  | selfAssignment a =>
      -- it stands in a method that has a self, so the attribute is bound
      obtain ⟨m, hhead, -, hself, hname⟩ := fits
      obtain ⟨selfName, hselfName⟩ := MethodStart.exists_selfName? hself
      have hmethod : s.method = some ⟨some selfName⟩ := by
        rw [mirrors.method, Event.openMethod?, hhead]
        exact congrArg (fun name => some (OpenMethod.mk name)) hselfName
      show (s.assignSelf cfg a).1.Tied
      unfold assignSelf
      split
      · next c method hinner heq =>
        obtain rfl := Option.some.inj (heq.symm.trans hmethod)
        refine h.assign hinner .ofSelf (a := a.draft cfg ⟨a.value.classify.value, some selfName⟩)
          (Text.dot_not_mem_of_isName hname) (fun c => c.members_addInstanceAttribute _) ?_
        show s.definitions.bindings.set (Definitions.selfKey c.name a.name) _ = _
        rw [AttributeKind.selfKey_eq]
        rfl
      · exact h
  | moduleAssignment name value line =>
      exact ClassOutline.Tied.bindModule h (Text.dot_not_mem_of_isName fits.2) _
  | docstring text line =>
      refine h.modifyInnermost fun c => ?_
      split <;> rfl
  | decorator | ignored => exact h

/-- All events of a shaped stream keep it. -/
theorem Tied.takeAll (h : s.Tied) (mirrors : s.Mirrors cfg opened) {es : List Event}
    (hes : ShapedFrom cfg opened es) : (s.takeAll cfg es).1.Tied := by
  induction es generalizing s opened with
  | nil => exact h
  | cons e es ih => exact ih (h.take mirrors hes.1) (mirrors.take hes.1) hes.2

/-! ## §6. The classes of a source. -/

/-- The last classes of their names are those that are kept. -/
theorem exists_of_lastAt {j : Nat} {x : Members} (h : LastAt (s.drafts.map Class.members) j x) :
    ∃ y ∈ withoutReplaced s.drafts, y.members = x := by
  obtain ⟨hget, hlater⟩ := h
  rw [List.getElem?_map] at hget
  obtain ⟨y, hy, rfl⟩ := Option.map_eq_some_iff.1 hget
  obtain ⟨hlt, hyj⟩ := List.getElem?_eq_some_iff.1 hy
  have split : s.drafts = s.drafts.take j ++ y :: s.drafts.drop (j + 1) := by
    rw [← hyj, ← List.drop_eq_getElem_cons hlt, List.take_append_drop]
  refine ⟨y, ?_, rfl⟩
  rw [split]
  refine mem_withoutReplaced_of_last fun z hz => ?_
  obtain ⟨k, hk⟩ := List.mem_iff_getElem?.1 hz
  rw [List.getElem?_drop] at hk
  refine hlater (j + 1 + k) z.members (by omega) ?_
  rw [List.getElem?_map, hk]
  rfl

/-- A draft behind a position. -/
theorem mem_of_getElem?_append {α : Type} {before after : List α} {c y : α} {j : Nat}
    (hj : before.length < j) (hy : (before ++ c :: after)[j]? = some y) : y ∈ after := by
  obtain ⟨k, rfl⟩ := Nat.exists_eq_add_of_lt hj
  rw [List.getElem?_append_right (by omega)] at hy
  have heq : before.length + k + 1 - before.length = k + 1 := by omega
  rw [heq] at hy
  exact List.mem_of_getElem? (i := k) hy

/-- A class around a kept class is defined again behind it, and kept too. -/
def LeavesBehind (s : Assembly) (i : Nat) (c : Class Deferred) : Prop :=
  ∃ x ∈ (withoutReplaced s.drafts).drop (i + 1), IsBelow x.name c.name

/-- A kept class is the last of its name, and a class around it that starts behind it, or one
of the same name, leaves it behind. -/
theorem exists_lastAt {i : Nat} {c : Class Deferred}
    (hc : (withoutReplaced s.drafts)[i]? = some c) :
    ∃ position, LastAt (s.drafts.map Class.members) position c.members
      ∧ ∀ j x, position < j → (s.drafts.map Class.members)[j]? = some x → IsBelow x.name c.name →
        s.LeavesBehind i c := by
  obtain ⟨before, after, hdrafts, hlast, hdrop⟩ := exists_of_getElem?_withoutReplaced hc
  have later : ∀ j x, before.length < j → (s.drafts.map Class.members)[j]? = some x →
      ∃ y ∈ after, y.members = x := by
    intro j x hj hx
    rw [hdrafts, List.getElem?_map] at hx
    obtain ⟨y, hy, rfl⟩ := Option.map_eq_some_iff.1 hx
    exact ⟨y, mem_of_getElem?_append hj hy, rfl⟩
  refine ⟨before.length, ⟨?_, fun j x hj hx => ?_⟩, fun j x hj hx hbelow => ?_⟩
  · rw [hdrafts, List.getElem?_map, List.getElem?_append_right (Nat.le_refl _), Nat.sub_self]
    rfl
  · obtain ⟨y, hy, rfl⟩ := later j x hj hx
    exact hlast y hy
  · obtain ⟨y, hy, rfl⟩ := later j x hj hx
    -- of the classes of this name one is kept, and it stands behind too
    obtain ⟨kept, hkept, hname⟩ := exists_mem_withoutReplaced hy
    unfold LeavesBehind
    rw [hdrop]
    exact ⟨kept, hkept, hname ▸ hbelow⟩

/-- The key is bound to what the class gives the attribute, as it is written there. -/
def Binds (s : Assembly) (key : Text) (c : Class Deferred) (a : Attribute Deferred) : Prop :=
  s.definitions.bindings.get? key = some ⟨a.value.value, ⟨some c.name, a.value.selfName⟩⟩

/-- What the key of an attribute of a kept class is bound to. -/
theorem Tied.binds (h : s.Tied) {kind other : AttributeKind} (hother : kind ≠ other) {i : Nat}
    {c : Class Deferred} (hc : (withoutReplaced s.drafts)[i]? = some c) {name : Text}
    {a : Attribute Deferred} (ha : c.members.last? kind name = some a) :
    s.Binds (kind.owner c.name ++ '.' :: name) c a
      ∨ (∃ x ∈ withoutReplaced s.drafts, other.owner x.name = kind.owner c.name
          ∧ ∃ b, x.members.last? other name = some b
            ∧ s.Binds (kind.owner c.name ++ '.' :: name) x b)
      ∨ s.definitions.bindings.get? (kind.owner c.name ++ '.' :: name) = none
        ∧ (s.LeavesBehind i c
          ∨ kind = .ofSelf ∧ 1 < (s.drafts.map Class.name).count (kind.owner c.name)) := by
  obtain ⟨position, hlastAt, hbehind⟩ := exists_lastAt hc
  rcases h.bound position c.members kind name a hlastAt ha with
    ⟨j, x, k, b, hx, howner, hb, hget⟩ | ⟨hnone, hlost⟩
  · by_cases hk : k = kind
    · -- the last class of this name is this one
      subst hk
      have hname : x.name = c.name := AttributeKind.owner_inj howner
      obtain rfl : position = j := by
        rcases Nat.lt_trichotomy position j with hlt | heq | hgt
        · exact absurd hname (hlastAt.2 j x hlt hx.1)
        · exact heq
        · exact absurd hname.symm (hx.2 position c.members hgt hlastAt.1)
      obtain rfl := Option.some.inj (hx.1.symm.trans hlastAt.1)
      obtain rfl := Option.some.inj (hb.symm.trans ha)
      exact .inl hget
    · -- an attribute of the other kind, whose key is the same text
      obtain rfl : k = other := AttributeKind.eq_of_ne_of_ne hk hother
      obtain ⟨y, hy, rfl⟩ := exists_of_lastAt hx
      exact .inr (.inl ⟨y, hy, howner, b, hb, hget⟩)
  · refine .inr (.inr ⟨hnone, ?_⟩)
    rcases hlost with ⟨j, x, hj, hx, hbelow⟩ | ⟨hkind, hcount⟩
    · exact .inl (hbehind j x hj hx hbelow)
    · rw [List.map_map] at hcount
      exact .inr ⟨hkind, hcount⟩

/-- A source when its last event is in, and before its classes are finished. -/
def ofSource (cfg : Config) (source : Text) : Assembly :=
  (takeAll cfg {} (Event.ofLines cfg (LogicalLine.scan cfg source).lines).events).1

theorem ofSource_tied (cfg : Config) (source : Text) : (ofSource cfg source).Tied :=
  Tied.takeAll (show Tied {} from ClassOutline.Tied.empty) (mirrors_empty cfg)
    (Event.ofLines_shaped cfg _)

end Assembly

/-- **WHAT IS ASSIGNED LAST TO AN ATTRIBUTE IS WHAT ITS KEY IS BOUND TO**, when the last event
of a source is in.  The key of an attribute of a class called `self` may also be bound to what
the class around it gives the attribute of self of that name, and the other way round: the two
are one key.  A key is bound to nothing only if a class around its class is defined again behind
it, or, for an attribute of self, if the class called `self` in its class is defined again. -/
theorem Assembly.bindings_of_kept (cfg : Config) (source : Text) {i : Nat} {c : Class Deferred}
    (hc : (withoutReplaced (ofSource cfg source).drafts)[i]? = some c) (name : Text) :
    (∀ a, c.classAttribute? name = some a →
      (ofSource cfg source).Binds (Definitions.classKey c.name name) c a
      ∨ (∃ x ∈ withoutReplaced (ofSource cfg source).drafts, x.name ++ ".self".toList = c.name
          ∧ ∃ b, x.instanceAttribute? name = some b
            ∧ (ofSource cfg source).Binds (Definitions.classKey c.name name) x b)
      ∨ (ofSource cfg source).definitions.bindings.get? (Definitions.classKey c.name name) = none
        ∧ (ofSource cfg source).LeavesBehind i c)
    ∧ ∀ a, c.instanceAttribute? name = some a →
      (ofSource cfg source).Binds (Definitions.selfKey c.name name) c a
      ∨ (∃ x ∈ withoutReplaced (ofSource cfg source).drafts, x.name = c.name ++ ".self".toList
          ∧ ∃ b, x.classAttribute? name = some b
            ∧ (ofSource cfg source).Binds (Definitions.selfKey c.name name) x b)
      ∨ (ofSource cfg source).definitions.bindings.get? (Definitions.selfKey c.name name) = none
        ∧ ((ofSource cfg source).LeavesBehind i c
          ∨ 1 < ((ofSource cfg source).drafts.map Class.name).count
              (c.name ++ ".self".toList)) := by
  have tied := ofSource_tied cfg source
  constructor
  · intro a ha
    rw [AttributeKind.classKey_eq]
    have different : AttributeKind.ofClass ≠ .ofSelf := by decide
    rcases tied.binds different hc ha with hown | hself | ⟨hnone, hlost⟩
    · exact .inl hown
    · exact .inr (.inl hself)
    · rcases hlost with hbehind | ⟨hkind, -⟩
      · exact .inr (.inr ⟨hnone, hbehind⟩)
      · exact absurd hkind different
  · intro a ha
    rw [AttributeKind.selfKey_eq]
    have different : AttributeKind.ofSelf ≠ .ofClass := by decide
    rcases tied.binds different hc ha with hown | hclass | ⟨hnone, hlost⟩
    · exact .inl hown
    · exact .inr (.inl hclass)
    · exact .inr (.inr ⟨hnone, hlost.imp_right And.right⟩)

/-- A name that is not called. -/
def Initializer.isName : Initializer → Bool
  | .name _ => true
  | _ => false

namespace Assembly

/-- The attributes of a class and of self in it that are of one name. -/
theorem bindings_of_kept_alone :
    ∃ source c a b,
      source = "class C:\n    n = 1\n    def __init__(self):\n        self.n = n\n".toList
      ∧ withoutReplaced (ofSource {} source).drafts = [c]
      ∧ c.classAttribute? ['n'] = some a ∧ c.instanceAttribute? ['n'] = some b
      ∧ (ofSource {} source).Binds (Definitions.classKey c.name ['n']) c a
      ∧ (ofSource {} source).Binds (Definitions.selfKey c.name ['n']) c b := by
  obtain ⟨source, hsource⟩ : ∃ source : Text,
      source = "class C:\n    n = 1\n    def __init__(self):\n        self.n = n\n".toList :=
    ⟨_, rfl⟩
  have hsole : (ofSource {} source).drafts.length = 1
      ∧ (ofSource {} source).drafts.all (fun c =>
        (c.classAttribute? ['n']).isSome && (c.instanceAttribute? ['n']).isSome) = true := by
    subst hsource
    decide +kernel
  obtain ⟨c, hdrafts⟩ := List.length_eq_one_iff.1 hsole.1
  have hkept : withoutReplaced (ofSource {} source).drafts = [c] := by
    rw [hdrafts]
    rfl
  have hmembers : (c.classAttribute? ['n']).isSome = true
      ∧ (c.instanceAttribute? ['n']).isSome = true := by
    have h := hsole.2
    rw [hdrafts] at h
    simpa using h
  obtain ⟨a, ha⟩ := Option.isSome_iff_exists.1 hmembers.1
  obtain ⟨b, hb⟩ := Option.isSome_iff_exists.1 hmembers.2
  -- it is the only class: none stands behind it, and none is called `self` in it
  have hbehind : ¬(ofSource {} source).LeavesBehind 0 c := by
    rintro ⟨x, hx, -⟩
    rw [hkept] at hx
    exact absurd hx List.not_mem_nil
  have honce : ((ofSource {} source).drafts.map Class.name).count (c.name ++ ".self".toList) ≤ 1 := by
    rw [hdrafts]
    exact List.count_le_length
  have hself : c.name ≠ c.name ++ ".self".toList := by
    intro heq
    have := congrArg List.length heq
    simp at this
  have hbound := bindings_of_kept {} source (i := 0) (c := c) (by rw [hkept]; rfl) ['n']
  rw [hkept] at hbound
  refine ⟨source, c, a, b, hsource, hkept, ha, hb, ?_, ?_⟩
  · rcases hbound.1 a ha with hown | ⟨x, hx, heq, -⟩ | ⟨-, hlost⟩
    · exact hown
    · rw [List.mem_singleton.1 hx] at heq
      exact absurd heq.symm hself
    · exact absurd hlost hbehind
  · rcases hbound.2 b hb with hown | ⟨x, hx, heq, -⟩ | ⟨-, hlost | hlost⟩
    · exact hown
    · rw [List.mem_singleton.1 hx] at heq
      exact absurd heq hself
    · exact absurd hlost hbehind
    · omega

/-- Every attribute of a kept class is bound under its own key to its own value. -/
def AllBound (s : Assembly) : Prop :=
  ∀ c ∈ withoutReplaced s.drafts, ∀ name,
    (∀ a, c.classAttribute? name = some a →
      (s.definitions.bindings.get? (Definitions.classKey c.name name)).map Binding.value
        = some a.value.value)
    ∧ ∀ a, c.instanceAttribute? name = some a →
      (s.definitions.bindings.get? (Definitions.selfKey c.name name)).map Binding.value
        = some a.value.value

/-- Keys and their attributes agree as far as a test of their values goes. -/
def boundUpTo (test : Initializer → Bool) (s : Assembly) : Bool :=
  (withoutReplaced s.drafts).all fun c =>
    (c.classAttributes.all fun a =>
      (c.classAttribute? a.name).all fun last =>
        (s.definitions.bindings.get? (Definitions.classKey c.name a.name)).any fun b =>
          test b.value == test last.value.value)
    && c.instanceAttributes.all fun a =>
      (c.instanceAttribute? a.name).all fun last =>
        (s.definitions.bindings.get? (Definitions.selfKey c.name a.name)).any fun b =>
          test b.value == test last.value.value

theorem AllBound.boundUpTo {s : Assembly} (h : s.AllBound) (test : Initializer → Bool) :
    s.boundUpTo test = true := by
  have agrees : ∀ (binding : Option Binding) (last : Option (Attribute Deferred)),
      (∀ a, last = some a → binding.map Binding.value = some a.value.value) →
      last.all (fun a => binding.any fun b => test b.value == test a.value.value) = true := by
    intro binding last hlast
    cases last with
    | none => rfl
    | some a =>
        obtain ⟨b, rfl, hb⟩ := Option.map_eq_some_iff.1 (hlast a rfl)
        show (test b.value == test a.value.value) = true
        rw [hb]
        exact beq_self_eq_true _
  refine List.all_eq_true.2 fun c hc => Bool.and_eq_true_iff.2 ⟨?_, ?_⟩
  · exact List.all_eq_true.2 fun a _ => agrees _ _ (h c hc a.name).1
  · exact List.all_eq_true.2 fun a _ => agrees _ _ (h c hc a.name).2

/-- It does not always hold: a class that is left behind is kept while its keys are forgotten; a
class called `self` and the self around it have keys in common, and a second such class forgets
them. -/
theorem not_allBound :
    ¬(ofSource {} ("class C:\n    class x:\n        n = 1\n"
        ++ "class C:\n    pass\n").toList).AllBound
    ∧ ¬(ofSource {} ("class C:\n    def __init__(self):\n        self.n = 1\n"
        ++ "    class self:\n        n = m\n").toList).AllBound
    ∧ ¬(ofSource {} ("class C:\n    class self:\n        n = m\n"
        ++ "    def __init__(self):\n        self.n = 1\n").toList).AllBound
    ∧ ¬(ofSource {} ("class C:\n    class self:\n        pass\n"
        ++ "    def __init__(self):\n        self.n = 1\n"
        ++ "    class self:\n        pass\n").toList).AllBound := by
  refine ⟨fun h => ?_, fun h => ?_, fun h => ?_, fun h => ?_⟩ <;>
    exact absurd (h.boundUpTo Initializer.isName) (by decide +kernel)

end Assembly

end ClassOutline
