/-
  ClassOutline.Proofs.Nesting.Tiling
  ────────────────────────────────
  **A WALK TILES ITS TEXT, AND BEGINS ANEW WHEREVER NOTHING IS OPEN.**

  A walk comes from one boundary to the next by reading a unit
  (`Nesting.Boundary`).  What it tells of the unit, in bytes, is a visit
  (`Text.walk`).  The visits lie end to end, and each is of whole characters.

  A unit is recognised by looking ahead, but what is looked at beyond the unit
  never matters: a delimiter that is found is in the unit, and one that is not
  found is not found in less of the text either (`advance_append`).  So a text
  may be cut at any boundary.  What stands in front of it is read as if it stood
  alone, and what stands behind it is read from what is open there
  (`Boundary.units`).
-/
import Mathlib.Data.List.Chain
import ClassOutline.Proofs.Nesting.Keeps
import ClassOutline.Proofs.Text.Bytes

namespace ClassOutline

/-! ## §1. A unit does not depend on what follows it. -/

theorem Text.startsWith_append {a front : Text} (h : Text.startsWith a front = true) (b : Text) :
    Text.startsWith (a ++ b) front = true :=
  List.isPrefixOf_iff_prefix.2 ((List.isPrefixOf_iff_prefix.1 h).trans (List.prefix_append a b))

/-- What a text starts with is in any part of it that is long enough. -/
theorem Text.startsWith_of_append {a b front : Text}
    (h : Text.startsWith (a ++ b) front = true) (fits : front.length ≤ a.length) :
    Text.startsWith a front = true :=
  List.isPrefixOf_iff_prefix.2
    (List.prefix_of_prefix_length_le (List.isPrefixOf_iff_prefix.1 h) (List.prefix_append a b) fits)

/-- A text starts with `front` if the part of it does that `front` fits into. -/
theorem Text.startsWith_eq_append {a front : Text} (b : Text)
    (fits : Text.startsWith (a ++ b) front = true → front.length ≤ a.length) :
    Text.startsWith a front = Text.startsWith (a ++ b) front :=
  Bool.eq_iff_iff.2
    ⟨fun h => Text.startsWith_append h b, fun h => Text.startsWith_of_append h (fits h)⟩

namespace Quote

/-- The string that is opened is the same if its delimiter stands in the part that is left. -/
theorem opening?_append {c : Char} {a b : Text}
    (fits : ∀ q ∈ opening? c (a ++ b), q.delimiter.length - 1 ≤ a.length) :
    opening? c a = opening? c (a ++ b) := by
  unfold opening? at fits ⊢
  split
  · next hc =>
    rw [if_pos hc] at fits
    rw [Text.startsWith_eq_append b]
    intro htriple
    rw [if_pos htriple] at fits
    exact fits _ rfl
  · next hsingle =>
    rw [if_neg hsingle] at fits
    split
    · next hc =>
      rw [if_pos hc] at fits
      rw [Text.startsWith_eq_append b]
      intro htriple
      rw [if_pos htriple] at fits
      exact fits _ rfl
    · rfl

end Quote

namespace Nesting

/-- **A UNIT IS READ ALIKE IF THE TEXT IS CUT BEHIND IT.** -/
theorem advance_append {n : Nesting} {c : Char} {a b : Text}
    (fits : (n.advance c (a ++ b)).2 ≤ a.length) : n.advance c a = n.advance c (a ++ b) := by
  unfold advance at fits ⊢
  cases hquote : n.quote with
  | some q =>
      rw [hquote] at fits
      dsimp only at fits ⊢
      split
      · rfl
      · next hescape =>
        rw [if_neg hescape] at fits
        have same : Text.startsWith (c :: a) q.delimiter
            = Text.startsWith (c :: a ++ b) q.delimiter := by
          refine Text.startsWith_eq_append b fun hstarts => ?_
          rw [List.cons_append] at hstarts
          rw [if_pos hstarts] at fits
          exact Nat.le_add_of_sub_le fits
        rw [same]
        rfl
  | none =>
      rw [hquote] at fits
      dsimp only at fits ⊢
      rw [Quote.opening?_append (b := b)]
      intro q hq
      rw [Option.mem_def.1 hq] at fits
      exact fits

/-! ## §2. Boundaries. -/

/-- A walk over a text, begun inside `n`, comes between two of its units to a point with `front`
behind it and `rest` before it, where `m` is open. -/
inductive Boundary : (n : Nesting) → (t front rest : Text) → (m : Nesting) → Prop where
  | start (n : Nesting) (t : Text) : Boundary n t [] t n
  | unit {n m : Nesting} {c : Char} {tail front rest : Text}
      (later : Boundary (n.advance c tail).1 (tail.drop (n.advance c tail).2) front rest m) :
      Boundary n (c :: tail) (c :: tail.take (n.advance c tail).2 ++ front) rest m

namespace Boundary

variable {n m : Nesting} {t front rest : Text}

/-- A boundary divides the text. -/
theorem eq_append (h : Boundary n t front rest m) : t = front ++ rest := by
  induction h with
  | start => rfl
  | unit _ ih => rw [List.cons_append, List.cons_append, List.append_assoc, ← ih,
      List.take_append_drop]

/-- Behind a boundary in front of a unit there is one behind that unit. -/
theorem next {c : Char} {tail : Text} (h : Boundary n t front (c :: tail) m) :
    Boundary n t (front ++ c :: tail.take (m.advance c tail).2) (tail.drop (m.advance c tail).2)
      (m.advance c tail).1 := by
  generalize hrest : c :: tail = rest at h
  induction h with
  | start n t =>
      subst hrest
      have first := Boundary.unit (.start (n.advance c tail).1 (tail.drop (n.advance c tail).2))
      rwa [List.append_nil] at first
  | unit later ih =>
      rw [List.append_assoc]
      exact .unit (ih hrest)

/-- **THE UNITS OF A TEXT ARE THOSE IN FRONT OF A BOUNDARY AND THOSE BEHIND IT**, the front being
read as if it stood alone and the rest from what is open at the boundary. -/
theorem units (h : Boundary n t front rest m) :
    n.afterText front = m ∧ n.lexemes t = n.lexemes front ++ m.lexemes rest := by
  -- unit by unit, as the boundary is reached
  induction h with
  | start n t => exact ⟨afterText_nil n, by rw [lexemes_nil]; rfl⟩
  | @unit n m c tail front rest later ih =>
      obtain ⟨after, units⟩ := ih
      rw [List.cons_append, afterText_cons, lexemes_cons, lexemes_cons n c (_ ++ front)]
      have divided := later.eq_append
      rcases advance_within n c tail with hle | ⟨rfl, hescape⟩
      · -- the unit is whole in the front, and is read alike there
        generalize hk : (n.advance c tail).2 = k at *
        have whole : tail = (tail.take k ++ front) ++ rest := by
          rw [List.append_assoc, ← divided, List.take_append_drop]
        have length : (tail.take k).length = k := List.length_take_of_le hle
        have same : n.advance c (tail.take k ++ front) = n.advance c tail := by
          have fits : (n.advance c ((tail.take k ++ front) ++ rest)).2
              ≤ (tail.take k ++ front).length := by
            rw [← whole, hk, List.length_append, length]
            exact Nat.le_add_right k _
          have cut := advance_append fits
          rwa [← whole] at cut
        rw [same, hk, List.take_left' length, List.drop_left' length]
        exact ⟨after, congrArg _ units⟩
      · -- nothing follows a backslash that ends the text
        rw [List.drop_nil] at divided units
        obtain ⟨rfl, rfl⟩ := List.append_eq_nil_iff.1 divided.symm
        rw [List.take_nil, List.nil_append, List.take_nil, List.drop_nil]
        exact ⟨after, congrArg _ units⟩

end Boundary

end Nesting

/-! ## §3. Visits. -/

/-- What a walk tells of a unit: the byte offset where it begins, its length in bytes, its first
character, and whether it is at top level. -/
structure Visit where
  offset : Nat
  length : Nat
  char : Char
  isTopLevel : Bool
  deriving DecidableEq, Repr

namespace Visit

/-- The byte offset where the unit ends. -/
def stop (v : Visit) : Nat := v.offset + v.length

/-- The visit where the text stands so many bytes further back in another one. -/
def shift (distance : Nat) (v : Visit) : Visit := { v with offset := distance + v.offset }

end Visit

namespace Lexeme

/-- The visits of units, the first of them at `start`. -/
def visits (start : Nat) (ls : List Lexeme) : List Visit :=
  (located start ls).map fun (offset, l) => ⟨offset, l.text.byteLength, l.head, l.isTopLevel⟩

theorem visits_cons (start : Nat) (l : Lexeme) (ls : List Lexeme) :
    visits start (l :: ls)
      = ⟨start, l.text.byteLength, l.head, l.isTopLevel⟩
        :: visits (start + l.text.byteLength) ls := rfl

theorem byteLength_concat_cons (l : Lexeme) (ls : List Lexeme) :
    Text.byteLength (concat (l :: ls)) = l.text.byteLength + Text.byteLength (concat ls) :=
  Text.byteLength_append l.text (concat ls)

theorem byteLength_text_pos (l : Lexeme) : 0 < l.text.byteLength :=
  Nat.lt_of_lt_of_le l.head.utf8Size_pos (Nat.le_add_right _ _)

theorem visits_append (start : Nat) (ls ks : List Lexeme) :
    visits start (ls ++ ks)
      = visits start ls ++ visits (start + Text.byteLength (concat ls)) ks := by
  induction ls generalizing start with
  | nil => rfl
  | cons l ls ih =>
      rw [List.cons_append, visits_cons, visits_cons, ih, byteLength_concat_cons, Nat.add_assoc,
        List.cons_append]

theorem visits_add (distance start : Nat) (ls : List Lexeme) :
    visits (distance + start) ls = (visits start ls).map (Visit.shift distance) := by
  induction ls generalizing start with
  | nil => rfl
  | cons l ls ih =>
      rw [visits_cons, visits_cons, Nat.add_assoc, ih]
      rfl

theorem offset_of_mem_head?_visits {start : Nat} {ls : List Lexeme} :
    ∀ v ∈ (visits start ls).head?, v.offset = start := by
  cases ls with
  | nil => exact fun v hv => nomatch hv
  | cons l ls =>
      intro v hv
      obtain rfl := Option.some.inj hv
      rfl

/-- Each visit begins where the one before it ends. -/
theorem isChain_visits (start : Nat) (ls : List Lexeme) :
    (visits start ls).IsChain fun v w => w.offset = v.stop := by
  induction ls generalizing start with
  | nil => exact List.isChain_nil
  | cons l ls ih =>
      rw [visits_cons, List.isChain_cons]
      exact ⟨offset_of_mem_head?_visits, ih _⟩

/-- The last visit ends where the units end. -/
theorem stop_visits (start : Nat) (ls : List Lexeme) :
    ((visits start ls).getLast?.map Visit.stop).getD start
      = start + Text.byteLength (concat ls) := by
  induction ls generalizing start with
  | nil => rfl
  | cons l ls ih =>
      rw [byteLength_concat_cons, ← Nat.add_assoc, ← ih, visits_cons]
      cases ls with
      | nil => rfl
      | cons k ls => rfl

theorem length_pos_of_mem_visits {start : Nat} {ls : List Lexeme} {v : Visit}
    (hv : v ∈ visits start ls) : 0 < v.length := by
  obtain ⟨⟨offset, l⟩, -, rfl⟩ := List.mem_map.1 hv
  exact l.byteLength_text_pos

end Lexeme

namespace Text

/-- The visits of a walk over a text. -/
def walk (t : Text) : List Visit := Lexeme.visits 0 t.lexemes

/-- The visit is of the unit at a boundary of `t`: of the characters that one step takes from what
stands behind the boundary, and at top level if nothing is open there. -/
def IsVisit (t : Text) (v : Visit) : Prop :=
  ∃ (n : Nesting) (front : Text) (c : Char) (tail behind : Text),
    Nesting.Boundary .closed t front (c :: (tail ++ behind)) n
      ∧ t = front ++ (c :: tail ++ behind)
      ∧ (n.step (c :: (tail ++ behind))).2 = c :: tail
      ∧ v = ⟨front.byteLength, byteLength (c :: tail), c, n.isTopLevel⟩

/-- The visits cover the text exactly, each of them a unit of whole characters. -/
structure IsTiledBy (t : Text) (vs : List Visit) : Prop where
  begins : ∀ v ∈ vs.head?, v.offset = 0
  contiguous : vs.IsChain fun v w => w.offset = v.stop
  ends : (vs.getLast?.map Visit.stop).getD 0 = t.byteLength
  nonempty : ∀ v ∈ vs, 0 < v.length
  units : ∀ v ∈ vs, t.IsVisit v

/-- Behind a boundary a walk visits the units of the text from there on. -/
theorem isVisit_of_boundary {t front rest : Text} {n : Nesting}
    (h : Nesting.Boundary .closed t front rest n) :
    ∀ v ∈ Lexeme.visits front.byteLength (n.lexemes rest), t.IsVisit v := by
  -- along the units that are left; each of them moves the boundary on
  fun_induction Nesting.lexemes n rest generalizing front with
  | case1 n => exact fun v hv => absurd hv List.not_mem_nil
  | case2 n c tail ih =>
      intro v hv
      rw [Lexeme.visits_cons] at hv
      rcases List.mem_cons.1 hv with rfl | hv
      · have whole := List.take_append_drop (n.advance c tail).2 tail
        refine ⟨n, front, c, tail.take (n.advance c tail).2, tail.drop (n.advance c tail).2, ?_⟩
        rw [List.cons_append, whole]
        exact ⟨h, h.eq_append, rfl, rfl⟩
      · refine ih h.next v ?_
        rw [byteLength_append]
        exact hv

/-- **THE VISITS OF A WALK COVER ITS TEXT.** -/
theorem isTiledBy_walk (t : Text) : t.IsTiledBy t.walk where
  begins := Lexeme.offset_of_mem_head?_visits
  contiguous := Lexeme.isChain_visits 0 t.lexemes
  ends := by
    unfold walk
    rw [Lexeme.stop_visits, concat_lexemes, Nat.zero_add]
  nonempty := fun _ hv => Lexeme.length_pos_of_mem_visits hv
  units := isVisit_of_boundary (.start .closed t)

/-- **A WALK TILES ITS TEXT, AND BEGINS ANEW WHERE NOTHING IS OPEN.**  The visits lie end to end
from the beginning of the text to its end, and none is empty; each begins and ends between two
characters.  At a boundary where nothing is open, be it the beginning or the end, the walk over the
text is that over the front followed by that over the rest, with the length of the front added to
its offsets. -/
theorem walk_tiles_and_begins_anew (t : Text) :
    t.IsTiledBy t.walk
      ∧ ∀ front rest n, Nesting.Boundary .closed t front rest n → n.isTopLevel = true →
          t = front ++ rest
            ∧ t.walk = front.walk ++ rest.walk.map (Visit.shift front.byteLength) := by
  refine ⟨isTiledBy_walk t, fun front rest n h htop => ⟨h.eq_append, ?_⟩⟩
  obtain rfl : n = .closed := Nesting.eq_closed htop
  have units : t.lexemes = front.lexemes ++ rest.lexemes := h.units.2
  unfold walk
  rw [units, Lexeme.visits_append, concat_lexemes, Nat.zero_add,
    ← Nat.add_zero front.byteLength, Lexeme.visits_add, Nat.add_zero]

end Text

end ClassOutline
