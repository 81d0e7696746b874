/-
  ClassOutline.Proofs.Nesting.Keeps
  ────────────────────────────────
  **TEXTS THAT CLOSE WHAT THEY OPEN.**

  A text *keeps* the nesting if it ends where it began, wherever outside strings
  it begins, and if none of its units is at top level but where the whole text
  is, and then not with one of the characters to be avoided (`Text.Keeps`).

  Such texts are made of plain characters, of bracket groups around such texts
  and of strings, and one may follow the other behind a character that no
  delimiter has (`Keeps.append_cons`).
-/
import ClassOutline.Nesting.Atom
import ClassOutline.Proofs.Nesting.Walk

namespace ClassOutline

/-! ## §1. The units of two texts, one after the other. -/

namespace Nesting

@[simp]
theorem lexemes_nil (n : Nesting) : n.lexemes [] = [] := by
  rw [lexemes]

theorem lexemes_cons (n : Nesting) (c : Char) (rest : Text) :
    n.lexemes (c :: rest)
      = ⟨c, rest.take (n.advance c rest).2, n⟩
        :: (n.advance c rest).1.lexemes (rest.drop (n.advance c rest).2) := by
  rw [lexemes]

/-- A text that ends outside strings does not end in half of an escape. -/
theorem advance_within_of_closed {n : Nesting} {c : Char} {rest : Text}
    (h : (n.afterText (c :: rest)).quote = none) : (n.advance c rest).2 ≤ rest.length := by
  rcases advance_within n c rest with hle | ⟨rfl, hescape⟩
  · exact hle
  · exfalso
    rw [afterText_cons, hescape, List.drop_nil, afterText_nil] at h
    unfold advance at hescape
    rw [h] at hescape
    dsimp only at hescape
    split at hescape
    · next q _ =>
      have hquote := congrArg (fun r => r.1.quote) hescape
      rw [h] at hquote
      exact nomatch hquote
    · exact nomatch congrArg Prod.snd hescape

/-- **UNITS CAN BE CUT AT A CHARACTER THAT NO DELIMITER HAS**, where no string is open. -/
theorem lexemes_append_cons {w : Char} (hw : ¬ Quote.IsMark w) {n : Nesting} {a : Text}
    (h : (n.afterText a).quote = none) (rest : Text) :
    n.lexemes (a ++ w :: rest) = n.lexemes a ++ (n.afterText a).lexemes (w :: rest)
      ∧ n.afterText (a ++ w :: rest) = (n.afterText a).afterText (w :: rest) := by
  -- along the units of `a`
  fun_induction afterText n a with
  | case1 n => exact ⟨by rw [lexemes_nil]; rfl, rfl⟩
  | case2 n c a ih =>
      have inside : (n.advance c a).2 ≤ a.length :=
        advance_within_of_closed (by rw [afterText_cons]; exact h)
      obtain ⟨units, after⟩ := ih h
      rw [List.cons_append, lexemes_cons, afterText_cons, advance_append_cons hw,
        List.take_append_of_le_length inside, List.drop_append_of_le_length inside, units, after,
        lexemes_cons n c a]
      exact ⟨rfl, rfl⟩

variable {n : Nesting} {c : Char}

/-- Outside strings a character that no delimiter has is a unit of its own. -/
theorem advance_of_not_isMark (hn : n.quote = none) (hc : ¬ Quote.IsMark c) (rest : Text) :
    n.advance c rest = (n.afterBracket c, 0) := by
  have notSingle : c ≠ '\'' := fun h => hc (.inl h)
  have notDouble : c ≠ '"' := fun h => hc (.inr h)
  unfold advance Quote.opening?
  rw [hn, if_neg notSingle, if_neg notDouble]

theorem lexemes_cons_of_not_isMark (hn : n.quote = none) (hc : ¬ Quote.IsMark c) (rest : Text) :
    n.lexemes (c :: rest) = ⟨c, [], n⟩ :: (n.afterBracket c).lexemes rest := by
  rw [lexemes_cons, advance_of_not_isMark hn hc]
  rfl

theorem afterText_cons_of_not_isMark (hn : n.quote = none) (hc : ¬ Quote.IsMark c)
    (rest : Text) : n.afterText (c :: rest) = (n.afterBracket c).afterText rest := by
  rw [afterText_cons, advance_of_not_isMark hn hc]
  rfl

end Nesting

/-! ## §2. Texts that keep the nesting. -/

/-- An opening bracket and its closing one. -/
def BracketPair (opener closer : Char) : Prop :=
  (opener = '(' ∧ closer = ')') ∨ (opener = '[' ∧ closer = ']') ∨ (opener = '{' ∧ closer = '}')

namespace BracketPair

variable {opener closer : Char}

theorem not_isMark (h : BracketPair opener closer) :
    ¬ Quote.IsMark opener ∧ ¬ Quote.IsMark closer := by
  rcases h with ⟨rfl, rfl⟩ | ⟨rfl, rfl⟩ | ⟨rfl, rfl⟩ <;> decide

theorem quote_opened (h : BracketPair opener closer) (n : Nesting) :
    (n.afterBracket opener).quote = n.quote := by
  rcases h with ⟨rfl, rfl⟩ | ⟨rfl, rfl⟩ | ⟨rfl, rfl⟩ <;> rfl

theorem isTopLevel_opened (h : BracketPair opener closer) (n : Nesting) :
    (n.afterBracket opener).isTopLevel = false := by
  have positive : (n.afterBracket opener).depth = n.depth + 1 := by
    rcases h with ⟨rfl, rfl⟩ | ⟨rfl, rfl⟩ | ⟨rfl, rfl⟩ <;>
      simp only [Nesting.afterBracket, Nesting.depth, if_true, if_false, Char.reduceEq] <;> omega
  unfold Nesting.isTopLevel
  rw [positive]
  rfl

theorem closed (h : BracketPair opener closer) (n : Nesting) :
    (n.afterBracket opener).afterBracket closer = n := by
  rcases h with ⟨rfl, rfl⟩ | ⟨rfl, rfl⟩ | ⟨rfl, rfl⟩ <;> rfl

end BracketPair

/-- A character that is a unit of its own and opens and closes nothing. -/
def Nesting.IsPlain (c : Char) : Prop := ¬ Quote.IsMark c ∧ ∀ n : Nesting, n.afterBracket c = n

namespace Text

/-- The text ends in the nesting it begins in, and its units are at top level only where the
text is, without the characters to be avoided. -/
def Keeps (avoid : Char → Bool) (t : Text) : Prop :=
  ∀ n : Nesting, n.quote = none → n.afterText t = n ∧
    ∀ l ∈ n.lexemes t, l.isTopLevel = true → n.isTopLevel = true ∧ avoid l.head = false

namespace Keeps

variable {avoid : Char → Bool}

theorem nil : Keeps avoid [] := by
  intro n _
  rw [Nesting.lexemes_nil]
  exact ⟨Nesting.afterText_nil n, fun l hl => absurd hl List.not_mem_nil⟩

theorem mono {avoid' : Char → Bool} {t : Text} (h : Keeps avoid t)
    (hle : ∀ c, avoid' c = true → avoid c = true) : Keeps avoid' t := by
  intro n hn
  refine ⟨(h n hn).1, fun l hl htop => ?_⟩
  obtain ⟨top, plain⟩ := (h n hn).2 l hl htop
  refine ⟨top, Bool.eq_false_iff.2 fun havoid => ?_⟩
  rw [hle _ havoid] at plain
  exact nomatch plain

theorem cons {c : Char} {t : Text} (hc : Nesting.IsPlain c) (havoid : avoid c = false)
    (h : Keeps avoid t) : Keeps avoid (c :: t) := by
  intro n hn
  rw [Nesting.afterText_cons_of_not_isMark hn hc.1, Nesting.lexemes_cons_of_not_isMark hn hc.1,
    hc.2 n]
  refine ⟨(h n hn).1, fun l hl htop => ?_⟩
  rcases List.mem_cons.1 hl with rfl | hl
  · exact ⟨htop, havoid⟩
  · exact (h n hn).2 l hl htop

/-- **Texts that keep the nesting, one behind the other.** -/
theorem append_cons {w : Char} {a rest : Text} (ha : Keeps avoid a) (hw : ¬ Quote.IsMark w)
    (h : Keeps avoid (w :: rest)) : Keeps avoid (a ++ w :: rest) := by
  intro n hn
  have kept := (ha n hn).1
  obtain ⟨units, after⟩ :=
    Nesting.lexemes_append_cons hw (n := n) (a := a) (by rw [kept]; exact hn) rest
  rw [units, after, kept]
  refine ⟨(h n hn).1, fun l hl htop => ?_⟩
  rcases List.mem_append.1 hl with hl | hl
  · exact (ha n hn).2 l hl htop
  · exact (h n hn).2 l hl htop

/-- Plain characters keep the nesting. -/
theorem of_plain {t : Text} (h : ∀ c ∈ t, Nesting.IsPlain c ∧ avoid c = false) :
    Keeps avoid t := by
  induction t with
  | nil => exact nil
  | cons c t ih =>
      obtain ⟨plain, havoid⟩ := h c List.mem_cons_self
      exact cons plain havoid (ih fun d hd => h d (List.mem_cons_of_mem c hd))

end Keeps

/-! ## §3. Groups. -/

/-- A bracket group or a string: it ends in the nesting it begins in, and nothing of it but its
first unit is at top level. -/
def IsGroup (t : Text) : Prop :=
  ∀ n : Nesting, n.quote = none → n.afterText t = n ∧
    ∃ first rest, n.lexemes t = first :: rest ∧ first.before = n ∧ t.head? = some first.head
      ∧ ∀ l ∈ rest, l.isTopLevel = false

/-- What a pair of brackets encloses, if it closes what it opens, is a group with them. -/
theorem isGroup_of_brackets {opener closer : Char} (hpair : BracketPair opener closer)
    {inner : Text} (h : Keeps (fun _ => false) inner) :
    IsGroup (opener :: (inner ++ [closer])) := by
  intro n hn
  obtain ⟨hopener, hcloser⟩ := hpair.not_isMark
  have hquote : (n.afterBracket opener).quote = none := (hpair.quote_opened n).trans hn
  have deep := hpair.isTopLevel_opened n
  obtain ⟨kept, inside⟩ := h (n.afterBracket opener) hquote
  obtain ⟨units, after⟩ := Nesting.lexemes_append_cons hcloser (n := n.afterBracket opener)
    (a := inner) (by rw [kept]; exact hquote) []
  rw [kept] at units after
  rw [Nesting.afterText_cons_of_not_isMark hn hopener, after,
    Nesting.afterText_cons_of_not_isMark hquote hcloser, hpair.closed n, Nesting.afterText_nil]
  refine ⟨rfl, _, _, Nesting.lexemes_cons_of_not_isMark hn hopener _, rfl, rfl, ?_⟩
  intro l hl
  rw [units, Nesting.lexemes_cons_of_not_isMark hquote hcloser, Nesting.lexemes_nil] at hl
  rcases List.mem_append.1 hl with hl | hl
  · -- a unit at top level would have the bracket around it at top level too
    cases htop : l.isTopLevel with
    | false => rfl
    | true => exact absurd (inside l hl htop).1 (by rw [deep]; exact Bool.false_ne_true)
  · obtain rfl := List.mem_singleton.1 hl
    exact deep

/-- Every backslash takes the next character with it, and no single quote is left bare. -/
def isQuotable : Text → Bool
  | [] => true
  | '\\' :: _ :: rest => isQuotable rest
  | ['\\'] => false
  | c :: rest => c != '\'' && isQuotable rest

/-- A quotable text is read to its end inside single quotes, and the quote behind it closes
them. -/
theorem lexemes_of_isQuotable {n : Nesting} (hn : n.quote = some .single) {s : Text}
    (hs : isQuotable s = true) :
    n.afterText (s ++ ['\'']) = { n with quote := none }
      ∧ ∀ l ∈ n.lexemes (s ++ ['\'']), l.before = n := by
  fun_induction isQuotable s with
  | case1 =>
      -- only the closing quote is left
      have closes : n.advance '\'' [] = ({ n with quote := none }, 0) := by
        unfold Nesting.advance
        rw [hn]
        rfl
      rw [List.nil_append, Nesting.afterText_cons, Nesting.lexemes_cons, closes]
      refine ⟨Nesting.afterText_nil _, fun l hl => ?_⟩
      rw [List.drop_nil, Nesting.lexemes_nil] at hl
      obtain rfl := List.mem_singleton.1 hl
      rfl
  | case2 d rest ih =>
      -- the backslash takes `d` with it, even if that is a quote
      have escapes : n.advance '\\' (d :: (rest ++ ['\''])) = (n, 1) := by
        unfold Nesting.advance
        rw [hn]
        rfl
      obtain ⟨after, units⟩ := ih hs
      rw [List.cons_append, List.cons_append, Nesting.afterText_cons, Nesting.lexemes_cons, escapes]
      refine ⟨after, fun l hl => ?_⟩
      rcases List.mem_cons.1 hl with rfl | hl
      · rfl
      · exact units l hl
  | case3 => exact nomatch hs
  | case4 c rest notEscape notLone ih =>
      -- any other character is no quote, and is read alone
      obtain ⟨hc, hrest⟩ := Bool.and_eq_true_iff.1 hs
      have notQuote : ('\'' == c) = false := by
        rw [Bool.beq_comm]
        exact Bool.not_eq_true' _ ▸ hc
      have notBackslash : c ≠ '\\' := by
        rintro rfl
        cases rest with
        | nil => exact notLone rfl rfl
        | cons d rest => exact notEscape d rest rfl rfl
      have passes : n.advance c (rest ++ ['\'']) = (n, 0) := by
        unfold Nesting.advance
        rw [hn]
        dsimp only
        rw [if_neg notBackslash]
        have hstarts : Text.startsWith (c :: (rest ++ ['\''])) Quote.single.delimiter = false := by
          show (('\'' == c) && _) = false
          rw [notQuote, Bool.false_and]
        rw [hstarts]
        rfl
      obtain ⟨after, units⟩ := ih hrest
      rw [List.cons_append, Nesting.afterText_cons, Nesting.lexemes_cons, passes]
      refine ⟨after, fun l hl => ?_⟩
      rcases List.mem_cons.1 hl with rfl | hl
      · rfl
      · exact units l hl

/-- A quotable text does not begin with a single quote. -/
theorem quote_ne_head_of_isQuotable {c : Char} {rest : Text} (h : isQuotable (c :: rest) = true) :
    ('\'' == c) = false := by
  refine Bool.eq_false_iff.2 fun hquote => ?_
  obtain rfl := eq_of_beq hquote
  exact nomatch h

/-- A quotable text between single quotes is a group. -/
theorem isGroup_of_isQuotable {s : Text} (hs : isQuotable s = true) :
    IsGroup ('\'' :: (s ++ ['\''])) := by
  intro n hn
  -- a triple quote would need two bare quotes behind the first
  have single : Text.startsWith (s ++ ['\'']) ['\'', '\''] = false := by
    cases s with
    | nil => rfl
    | cons c rest =>
        show (('\'' == c) && _) = false
        rw [quote_ne_head_of_isQuotable hs, Bool.false_and]
  have opens : n.advance '\'' (s ++ ['\'']) = ({ n with quote := some .single }, 0) := by
    unfold Nesting.advance Quote.opening?
    rw [hn, if_pos rfl, single]
    rfl
  obtain ⟨after, units⟩ := lexemes_of_isQuotable
    (n := { n with quote := some .single }) rfl hs
  rw [Nesting.afterText_cons, Nesting.lexemes_cons, opens]
  refine ⟨?_, _, _, rfl, rfl, rfl, fun l hl => ?_⟩
  · rw [List.drop_zero, after]
    show { n with quote := none } = n
    rw [← hn]
  · unfold Lexeme.isTopLevel
    rw [units l hl]
    exact Bool.and_false _

/-- A group keeps the nesting if its first character is none to be avoided. -/
theorem IsGroup.keeps {avoid : Char → Bool} {t : Text} (h : IsGroup t)
    (hfirst : ∀ c ∈ t.head?, avoid c = false) : Keeps avoid t := by
  intro n hn
  obtain ⟨kept, first, rest, units, hbefore, hhead, inside⟩ := h n hn
  refine ⟨kept, fun l hl htop => ?_⟩
  rw [units] at hl
  rcases List.mem_cons.1 hl with rfl | hl
  · exact ⟨hbefore ▸ htop, hfirst _ hhead⟩
  · rw [inside l hl] at htop
    exact nomatch htop

/-- A text whose units are not at top level, the first one apart, and that ends at top level, is
one group. -/
theorem groupFrom?_eq_self {n : Nesting} {t : Text} (hne : t ≠ [])
    (inside : ∀ l ∈ (n.lexemes t).tail, l.isTopLevel = false)
    (ends : (n.afterText t).isTopLevel = true) : groupFrom? n t = some (t, []) := by
  fun_induction groupFrom? n t with
  | case1 n => exact absurd rfl hne
  | case2 n c rest htop =>
      rw [Nesting.lexemes_cons, List.tail_cons] at inside
      -- a unit behind the group would be at top level
      have nothing : rest.drop (n.advance c rest).2 = [] := by
        cases hrest : rest.drop (n.advance c rest).2 with
        | nil => rfl
        | cons d later =>
            rw [hrest, Nesting.lexemes_cons] at inside
            have first := inside _ List.mem_cons_self
            exact absurd (htop.symm.trans first) (by decide)
      have whole : rest.take (n.advance c rest).2 = rest := by
        have h := List.take_append_drop (n.advance c rest).2 rest
        rwa [nothing, List.append_nil] at h
      rw [nothing, whole]
  | case3 n c rest htop ih =>
      rw [Nesting.lexemes_cons, List.tail_cons] at inside
      rw [Nesting.afterText_cons] at ends
      -- the group does not end with its first unit, so there is another one
      have more : rest.drop (n.advance c rest).2 ≠ [] := by
        intro hnil
        rw [hnil, Nesting.afterText_nil] at ends
        exact htop ends
      rw [ih more (fun l hl => inside l (List.mem_of_mem_tail hl)) ends]
      show some (c :: rest.take _ ++ rest.drop _, []) = _
      rw [List.cons_append, List.take_append_drop]

theorem IsGroup.leadingGroup? {t : Text} (h : IsGroup t) : leadingGroup? t = some (t, []) := by
  obtain ⟨kept, first, rest, units, -, hhead, inside⟩ := h .closed rfl
  refine groupFrom?_eq_self ?_ ?_ ?_
  · rintro rfl
    exact nomatch hhead
  · rw [units]
    exact inside
  · rw [kept]
    rfl

/-- What brackets enclose is found between them. -/
theorem enclosed?_of_brackets {opener closer : Char} (hpair : BracketPair opener closer)
    {inner : Text} (h : Keeps (fun _ => false) inner) :
    enclosed? opener closer (opener :: (inner ++ [closer])) = some inner := by
  have group := (isGroup_of_brackets hpair h).leadingGroup?
  have last : (opener :: (inner ++ [closer])).getLast? = some closer := by
    rw [← List.cons_append, List.getLast?_append]
    rfl
  have long : 2 ≤ byteLength (opener :: (inner ++ [closer])) := by
    have hfirst := opener.utf8Size_pos
    have hlast : 0 < byteLength (inner ++ [closer]) := by
      cases inner with
      | nil => exact Nat.lt_of_lt_of_le closer.utf8Size_pos (Nat.le_add_right _ _)
      | cons c inner => exact Nat.lt_of_lt_of_le c.utf8Size_pos (Nat.le_add_right _ _)
    show 2 ≤ opener.utf8Size + byteLength (inner ++ [closer])
    omega
  unfold enclosed? enclosure
  rw [if_pos ⟨rfl, last, long⟩, group]
  cases inner with
  | nil => rfl
  | cons c inner =>
      show some ((c :: inner ++ [closer]).dropLast) = _
      rw [List.dropLast_concat]

/-- Delimiters do not enclose what does not start with the first of them. -/
theorem enclosed?_cons_of_ne {opener closer c : Char} (h : c ≠ opener) (rest : Text) :
    enclosed? opener closer (c :: rest) = none := by
  unfold enclosed? enclosure
  rw [if_neg fun hcond => h (Option.some.inj hcond.1)]

/-- A group that is still open in front of a character that no delimiter has goes on from there. -/
theorem groupFrom?_append_cons {w : Char} (hw : ¬ Quote.IsMark w) {n : Nesting} {a : Text}
    (inside : ∀ l ∈ n.lexemes a, l.isTopLevel = false) (hquote : (n.afterText a).quote = none)
    (deep : (n.afterText a).isTopLevel = false) (rest : Text) :
    groupFrom? n (a ++ w :: rest)
      = (groupFrom? (n.afterText a) (w :: rest)).map fun (group, after) => (a ++ group, after) := by
  -- along the units of `a`, behind none of which the group ends
  fun_induction Nesting.afterText n a with
  | case1 n =>
      show groupFrom? n (w :: rest) = (groupFrom? n (w :: rest)).map id
      rw [Option.map_id, id]
  | case2 n c a ih =>
      have fits : (n.advance c a).2 ≤ a.length :=
        Nesting.advance_within_of_closed (by rw [Nesting.afterText_cons]; exact hquote)
      rw [Nesting.lexemes_cons] at inside
      have later := ih (fun l hl => inside l (List.mem_cons_of_mem _ hl)) hquote deep
      -- the next unit, or the end of `a`, is not at top level
      have goesOn : ¬ (n.advance c a).1.isTopLevel = true := by
        cases hnext : a.drop (n.advance c a).2 with
        | nil =>
            rw [hnext, Nesting.afterText_nil] at deep
            rw [deep]
            exact Bool.false_ne_true
        | cons d next =>
            rw [hnext, Nesting.lexemes_cons] at inside
            have second := inside _ (List.mem_cons_of_mem _ List.mem_cons_self)
            exact fun htop => Bool.false_ne_true (second.symm.trans htop)
      rw [List.cons_append, groupFrom?, Nesting.advance_append_cons hw, if_neg goesOn,
        List.take_append_of_le_length fits, List.drop_append_of_le_length fits, later,
        Option.map_map]
      refine congrArg (Option.map · _) (funext fun found => ?_)
      show (c :: a.take _ ++ (a.drop _ ++ found.1), found.2) = (c :: a ++ found.1, found.2)
      rw [List.cons_append, ← List.append_assoc, List.take_append_drop, List.cons_append]

/-- **BRACKETS END WHERE THEY CLOSE**, whatever follows them. -/
theorem leadingGroup?_of_brackets {opener closer : Char} (hpair : BracketPair opener closer)
    {inner : Text} (h : Keeps (fun _ => false) inner) (rest : Text) :
    leadingGroup? (opener :: (inner ++ closer :: rest))
      = some (opener :: (inner ++ [closer]), rest) := by
  obtain ⟨hopener, hcloser⟩ := hpair.not_isMark
  have hquote : (Nesting.closed.afterBracket opener).quote = none := hpair.quote_opened _
  have deep := hpair.isTopLevel_opened .closed
  obtain ⟨kept, inside⟩ := h _ hquote
  have below : ∀ l ∈ (Nesting.closed.afterBracket opener).lexemes inner, l.isTopLevel = false := by
    refine fun l hl => Bool.eq_false_iff.2 fun htop => ?_
    rw [(inside l hl htop).1] at deep
    exact nomatch deep
  have ends : groupFrom? (Nesting.closed.afterBracket opener) (closer :: rest)
      = some ([closer], rest) := by
    rw [groupFrom?, Nesting.advance_of_not_isMark hquote hcloser, hpair.closed]
    rfl
  unfold leadingGroup?
  rw [groupFrom?, Nesting.advance_of_not_isMark rfl hopener, deep, List.drop_zero,
    groupFrom?_append_cons hcloser below (by rw [kept]; exact hquote) (by rw [kept]; exact deep),
    kept, ends]
  rfl

end Text

end ClassOutline
