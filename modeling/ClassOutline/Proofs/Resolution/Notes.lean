/-
  ClassOutline.Proofs.Resolution.Notes
  ────────────────────────────────
  **WHAT A SOURCE DEFINES, ONE NOTE AT A TIME.**

  A source defines by two kinds of steps: a class starts, or a key is bound.
  `Definitions.note` is either of them.  What is found under a name or key after
  a note is said by one equation for each table (`classes_note_starts`,
  `bindings_note_starts`, `bindings_note_binds`), and all that follows is read
  off these.

  Notes that have nothing to do with each other may be exchanged
  (`noteAll_comm`), up to the order in the tables.  What two definitions have
  in common they keep (`AgreeOn.note`), and a class that starts makes them
  forget what they had not in common below its name.
-/
import ClassOutline.Proofs.Resolution.Agreement
import ClassOutline.Proofs.Text.Dotted

namespace ClassOutline

open Text (IsBelow IsWithin shortName?)

/-- One step of what a source defines. -/
inductive Note where
  /-- A class of a qualified name starts. -/
  | starts (name : Text)
  /-- A key is bound. -/
  | binds (key : Text) (binding : Binding)
  deriving Repr

namespace Definitions

/-! ## §1. One note. -/

/-- A class of the qualified name has started. -/
def HasStarted (d : Definitions) (name : Text) : Prop := d.classes.get? name = some name

instance (d : Definitions) (name : Text) : Decidable (d.HasStarted name) :=
  inferInstanceAs (Decidable (d.classes.get? name = some name))

/-- The key of an attribute of self has two parts more than the class. -/
theorem selfKey_eq (className name : Text) :
    selfKey className name = (className ++ '.' :: "self".toList) ++ '.' :: name := by
  unfold selfKey
  simp

/-- The definitions after a note.  A class that starts again forgets what is bound in it. -/
def note (d : Definitions) : Note → Definitions
  | .starts name => (if d.HasStarted name then d.forget name else d).addClass name
  | .binds key b => { d with bindings := d.bindings.set key b }

/-- The definitions after all of the notes. -/
def noteAll (d : Definitions) (notes : List Note) : Definitions := notes.foldl note d

/-- A class that is added takes its own name, and its last part unless that is taken. -/
theorem classes_addClass (d : Definitions) (name other : Text) :
    (d.addClass name).classes.get? other
      = if other = name then some name
        else if shortName? name = some other then some ((d.classes.get? other).getD name)
        else d.classes.get? other := by
  unfold addClass shortName?
  dsimp only
  cases hcut : name.cutAtLast? '.' with
  | none =>
      rw [Option.map_none, if_neg (Option.some_ne_none _).symm]
      exact Table.get?_set d.classes name other name
  | some parts =>
      obtain ⟨outer, short⟩ := parts
      have hne : short ≠ name := by
        rintro rfl
        exact Text.shortName?_ne_self short (by rw [shortName?, hcut]; rfl)
      show ((d.classes.set name name).setNew short name).get? other = _
      rw [Table.get?_setNew, Table.get?_set, Table.get?_set, if_neg hne]
      by_cases hname : other = name
      · rw [if_neg (hname ▸ hne.symm), if_pos hname, if_pos hname]
      · -- under the last part, whatever was found there before is found still
        rw [if_neg hname, if_neg hname]
        by_cases hshort : other = short
        · subst hshort
          rw [if_pos rfl, if_pos (show (some (outer, other)).map Prod.snd = some other from rfl)]
        · have hsome : (some (outer, short)).map Prod.snd ≠ some other :=
            fun heq => hshort (Option.some.inj heq).symm
          rw [if_neg hshort, if_neg hsome]

theorem classes_note_starts (d : Definitions) (name other : Text) :
    (d.note (.starts name)).classes.get? other
      = if other = name then some name
        else if shortName? name = some other then some ((d.classes.get? other).getD name)
        else d.classes.get? other := by
  have kept : (if d.HasStarted name then d.forget name else d).classes = d.classes := by
    split <;> rfl
  show (Definitions.addClass _ name).classes.get? other = _
  rw [classes_addClass, kept]

/-- A class that starts again leaves only what is not below it. -/
theorem bindings_note_starts (d : Definitions) (name key : Text) :
    (d.note (.starts name)).bindings.get? key
      = if IsBelow name key ∧ d.HasStarted name then none else d.bindings.get? key := by
  have added (d' : Definitions) : (d'.addClass name).bindings = d'.bindings := by
    unfold addClass
    dsimp only
    split <;> rfl
  show (Definitions.addClass _ name).bindings.get? key = _
  rw [added]
  by_cases hstarted : d.HasStarted name
  · rw [if_pos hstarted]
    show (d.bindings.restrict fun key => !key.startsWith (name ++ ['.'])).get? key = _
    rw [Table.get?_restrict]
    by_cases hbelow : IsBelow name key
    · have dropped : (!key.startsWith (name ++ ['.'])) = false := by
        rw [Text.startsWith_dot_iff.2 hbelow]
        rfl
      rw [dropped, if_neg Bool.false_ne_true, if_pos ⟨hbelow, hstarted⟩]
    · have kept : (!key.startsWith (name ++ ['.'])) = true := by
        rw [Bool.eq_false_iff.2 (mt Text.startsWith_dot_iff.1 hbelow)]
        rfl
      rw [kept, if_pos rfl, if_neg fun h => hbelow h.1]
  · rw [if_neg hstarted, if_neg fun h => hstarted h.2]

theorem classes_note_binds (d : Definitions) (key : Text) (b : Binding) :
    (d.note (.binds key b)).classes = d.classes :=
  rfl

theorem bindings_note_binds (d : Definitions) (key other : Text) (b : Binding) :
    (d.note (.binds key b)).bindings.get? other
      = if other = key then some b else d.bindings.get? other :=
  Table.get?_set d.bindings key other b

/-- What has started is what has been noted to start: the last part of another class's name
never counts. -/
theorem hasStarted_note (d : Definitions) (n : Note) (name : Text) :
    (d.note n).HasStarted name ↔ d.HasStarted name ∨ n = .starts name := by
  cases n with
  | starts started =>
      unfold HasStarted
      rw [classes_note_starts]
      by_cases hname : name = started
      · rw [if_pos hname, hname]
        exact ⟨fun _ => .inr rfl, fun _ => rfl⟩
      · have hnote : Note.starts started ≠ .starts name := fun h => hname (Note.starts.inj h).symm
        rw [if_neg hname]
        split
        · cases d.classes.get? name with
          | none =>
              constructor
              · exact fun h => absurd (Option.some.inj h).symm hname
              · exact fun h => h.elim (fun h => absurd h (Option.some_ne_none name).symm) fun h =>
                  absurd h hnote
          | some found =>
              constructor
              · exact fun h => .inl h
              · exact fun h => h.elim id fun h => absurd h hnote
        · exact ⟨fun h => .inl h, fun h => h.elim id fun h => absurd h hnote⟩
  | binds key b => exact ⟨fun h => .inl h, fun h => h.elim id Note.noConfusion⟩

theorem hasStarted_noteAll (d : Definitions) (notes : List Note) (name : Text) :
    (d.noteAll notes).HasStarted name ↔ d.HasStarted name ∨ .starts name ∈ notes := by
  induction notes generalizing d with
  | nil => exact ⟨fun h => .inl h, fun h => h.elim id fun h => absurd h List.not_mem_nil⟩
  | cons n notes ih =>
      show ((d.note n).noteAll notes).HasStarted name ↔ _
      rw [ih, hasStarted_note, List.mem_cons, or_assoc, eq_comm (a := n)]

theorem noteAll_append (d : Definitions) (notes notes' : List Note) :
    d.noteAll (notes ++ notes') = (d.noteAll notes).noteAll notes' :=
  List.foldl_append

/-! ## §2. What two definitions have in common. -/

variable {names keys : Text → Prop} {d d' : Definitions}

/-- Both find the same after a note.  For a class that starts, either both knew whether it had
started before, or what is bound in it does not count. -/
theorem AgreeOn.note (h : AgreeOn names keys d d') {n : Note}
    (hn : ∀ name, n = .starts name → names name ∨ ∀ key, IsBelow name key → ¬keys key) :
    AgreeOn names keys (d.note n) (d'.note n) := by
  cases n with
  | binds key b =>
      refine ⟨h.classes, fun other hother => ?_⟩
      rw [bindings_note_binds, bindings_note_binds, h.bindings other hother]
  | starts name =>
      refine ⟨fun other hother => ?_, fun key hkey => ?_⟩
      · rw [classes_note_starts, classes_note_starts, h.classes other hother]
      · rw [bindings_note_starts, bindings_note_starts, h.bindings key hkey]
        rcases hn name rfl with hname | hbelow
        · have started : d.HasStarted name ↔ d'.HasStarted name := by
            unfold HasStarted
            rw [h.classes name hname]
          simp only [started]
        · rw [if_neg fun hk => hbelow key hk.1 hkey, if_neg fun hk => hbelow key hk.1 hkey]

theorem AgreeOn.noteAll (h : AgreeOn names keys d d') {notes : List Note}
    (hnotes : ∀ name, .starts name ∈ notes → names name ∨ ∀ key, IsBelow name key → ¬keys key) :
    AgreeOn names keys (d.noteAll notes) (d'.noteAll notes) := by
  induction notes generalizing d d' with
  | nil => exact h
  | cons n notes ih =>
      refine ih (h.note fun name hn => hnotes name ?_) fun name hn => hnotes name ?_
      · exact hn ▸ List.mem_cons_self
      · exact List.mem_cons_of_mem n hn

theorem Agree.noteAll (h : Agree d d') (notes : List Note) :
    Agree (d.noteAll notes) (d'.noteAll notes) :=
  AgreeOn.noteAll h fun _ _ => .inl trivial

end Definitions

/-! ## §3. Notes that may be exchanged. -/

namespace Note

/-- Two notes concern different classes and keys, and no alias is claimed by both. -/
def Independent : Note → Note → Prop
  | starts a, starts b => a ≠ b ∧ ∀ short, shortName? a = some short → shortName? b ≠ some short
  | starts a, binds key _ | binds key _, starts a => ¬IsBelow a key
  | binds key _, binds key' _ => key ≠ key'

/-- The note concerns a class or what is in it. -/
def IsWithin (top : Text) : Note → Prop
  | starts name => Text.IsWithin top name
  | binds key _ => IsBelow top key

/-- Notes in different classes of the module concern different things, but for aliases. -/
theorem IsWithin.independent {a b : Text} (ha : '.' ∉ a) (hb : '.' ∉ b) (hne : a ≠ b)
    {x y : Note} (hx : x.IsWithin a) (hy : y.IsWithin b)
    (hshort : ∀ n n' short, x = starts n → y = starts n' → shortName? n = some short →
      shortName? n' ≠ some short) :
    x.Independent y := by
  cases x with
  | starts n =>
      cases y with
      | starts n' =>
          refine ⟨?_, fun short => hshort n n' short rfl rfl⟩
          rintro rfl
          exact hne (Text.IsWithin.eq_of_dotless ha hb hx hy)
      | binds key b => exact fun hbelow => hne ((hx.below hbelow).eq_of_dotless ha hb hy)
  | binds key b =>
      cases y with
      | starts n => exact fun hbelow => hne (IsBelow.eq_of_dotless ha hb hx (hy.below hbelow))
      | binds key' b' =>
          rintro rfl
          exact hne (IsBelow.eq_of_dotless ha hb hx hy)

end Note

namespace Definitions

theorem note_comm_starts (d : Definitions) {a b : Text} (hne : a ≠ b)
    (hshort : ∀ short, shortName? a = some short → shortName? b ≠ some short) :
    Agree ((d.note (.starts a)).note (.starts b)) ((d.note (.starts b)).note (.starts a)) := by
  refine ⟨fun name _ => ?_, fun key _ => ?_⟩
  · rw [classes_note_starts, classes_note_starts, classes_note_starts, classes_note_starts]
    by_cases hb : name = b
    · -- `b` is found under its own name, whether it was an alias of `a` before or is one now
      rw [if_pos hb, if_neg (hb ▸ hne.symm), if_pos hb]
      split <;> rfl
    · rw [if_neg hb, if_neg hb]
      by_cases ha : name = a
      · rw [if_pos ha]
        split <;> rfl
      · rw [if_neg ha]
        -- the last part of one of the two at most
        by_cases hs : shortName? a = some name
        · rw [if_neg (hshort name hs), if_pos hs, if_pos hs, if_neg (hshort name hs), if_neg ha]
        · rw [if_neg hs, if_neg hs, if_neg ha]
  · have started (x y : Text) (h : x ≠ y) :
        (d.note (.starts x)).HasStarted y ↔ d.HasStarted y := by
      rw [hasStarted_note]
      exact ⟨fun hs => hs.elim id fun hs => absurd (Note.starts.inj hs) h, fun hs => .inl hs⟩
    simp only [bindings_note_starts, started a b hne, started b a hne.symm]
    split <;> split <;> rfl

theorem note_comm_starts_binds (d : Definitions) {a key : Text} (b : Binding)
    (hkey : ¬IsBelow a key) :
    Agree ((d.note (.starts a)).note (.binds key b)) ((d.note (.binds key b)).note (.starts a)) := by
  refine ⟨fun name _ => ?_, fun other _ => ?_⟩
  · rw [classes_note_binds, classes_note_starts, classes_note_starts, classes_note_binds]
  · have started : (d.note (.binds key b)).HasStarted a ↔ d.HasStarted a := Iff.rfl
    simp only [bindings_note_binds, bindings_note_starts, started]
    by_cases hother : other = key
    · rw [if_pos hother, if_neg fun h => hkey (hother ▸ h.1), if_pos hother]
    · rw [if_neg hother, if_neg hother]

/-- Independent notes may be taken in either order. -/
theorem note_comm (d : Definitions) {x y : Note} (h : x.Independent y) :
    Agree ((d.note x).note y) ((d.note y).note x) := by
  cases x with
  | starts a =>
      cases y with
      | starts b => exact note_comm_starts d h.1 h.2
      | binds key b => exact note_comm_starts_binds d b h
  | binds key b =>
      cases y with
      | starts a => exact (note_comm_starts_binds d b h).symm
      | binds key' b' =>
          refine ⟨fun _ _ => rfl, fun other _ => ?_⟩
          rw [bindings_note_binds, bindings_note_binds, bindings_note_binds, bindings_note_binds]
          by_cases hkey' : other = key'
          · rw [if_pos hkey', if_neg (hkey' ▸ Ne.symm h), if_pos hkey']
          · rw [if_neg hkey', if_neg hkey']

/-- A note may be taken before or after others that are independent of it. -/
theorem note_noteAll_comm (d : Definitions) {x : Note} {ys : List Note}
    (h : ∀ y ∈ ys, x.Independent y) : Agree ((d.note x).noteAll ys) ((d.noteAll ys).note x) := by
  induction ys generalizing d with
  | nil => exact .refl _ _ _
  | cons y ys ih =>
      -- `x` passes `y`, then all that follows
      have first : Agree ((d.note x).note y) ((d.note y).note x) :=
        d.note_comm (h y List.mem_cons_self)
      exact (first.noteAll ys).trans (ih (d.note y) fun y' hy => h y' (List.mem_cons_of_mem y hy))

/-- **INDEPENDENT LISTS OF NOTES MAY BE TAKEN IN EITHER ORDER.** -/
theorem noteAll_comm (d : Definitions) {xs ys : List Note}
    (h : ∀ x ∈ xs, ∀ y ∈ ys, x.Independent y) :
    Agree ((d.noteAll xs).noteAll ys) ((d.noteAll ys).noteAll xs) := by
  induction xs generalizing d with
  | nil => exact .refl _ _ _
  | cons x xs ih =>
      -- `xs` passes `ys` where `x` is noted, and `x` passes them there
      have later := ih (d.note x) fun x' hx => h x' (List.mem_cons_of_mem x hx)
      exact later.trans ((d.note_noteAll_comm (h x List.mem_cons_self)).noteAll xs)

end Definitions

end ClassOutline
