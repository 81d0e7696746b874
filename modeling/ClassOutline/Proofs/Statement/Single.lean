/-
  ClassOutline.Proofs.Statement.Single
  ────────────────────────────────
  **A LINE WITHOUT A TOP-LEVEL SEMICOLON IS ONE STATEMENT, AND SO IS EACH BODY ON IT.**

  A header takes its inline body from behind a colon at top level, so a
  semicolon that the body has at top level the whole text has there too
  (`hasTopLevel_body_of_header?`, `hasTopLevel_of_blockBody?`).  Nothing is
  divided therefore, however deep the bodies stand in each other
  (`parse_isSingle`).
-/
import Mathlib.Data.List.Basic
import ClassOutline.Proofs.Nesting.Tails
import ClassOutline.Statement.Basic

namespace ClassOutline

namespace Text

variable {t rest : Text} {c : Char}

/-! ## §1. What is nowhere at top level in a header is nowhere at top level in its body. -/

theorem lexemes_suffix_of_afterKeyword? {keyword : Text}
    (hkeyword : keyword.all isNameChar = true) (h : t.afterKeyword? keyword = some rest) :
    rest.lexemes <:+ t.lexemes := by
  unfold afterKeyword? at h
  split at h
  · obtain rfl := Option.some.inj h
    unfold lexemes
    rw [Nesting.lexemes_nil]
    exact List.nil_suffix
  · next d later hafter =>
    split at h
    · exact nomatch h
    · obtain rfl := Option.some.inj h
      have divided : keyword ++ d :: later = t := List.append_eq_of_isPrefixOf?_eq_some hafter
      rw [← divided]
      exact (lexemes_trimStart_suffix _).trans
        (lexemes_suffix_append (fun c hc => isPlain_of_isNameChar (List.all_eq_true.1 hkeyword c hc)) _)
  · exact nomatch h

theorem lexemes_suffix_of_skipGroup? {opener : Char} (h : skipGroup? opener t = some rest) :
    rest.lexemes <:+ t.lexemes := by
  unfold skipGroup? at h
  split at h
  · obtain ⟨⟨group, after⟩, hgroup, rfl⟩ := Option.map_eq_some_iff.1 h
    exact (lexemes_trimStart_suffix after).trans (lexemes_suffix_of_leadingGroup? hgroup)
  · obtain rfl := Option.some.inj h
    exact List.suffix_rfl

theorem lexemes_suffix_of_argumentGroup? {arguments : Option Text}
    (h : argumentGroup? t = some (arguments, rest)) : rest.lexemes <:+ t.lexemes := by
  unfold argumentGroup? at h
  split at h
  · obtain ⟨⟨group, after⟩, hgroup, heq⟩ := Option.map_eq_some_iff.1 h
    obtain ⟨-, rfl⟩ := Prod.mk.inj heq
    exact (lexemes_trimStart_suffix after).trans (lexemes_suffix_of_leadingGroup? hgroup)
  · obtain ⟨-, rfl⟩ := Prod.mk.inj (Option.some.inj h)
    exact List.suffix_rfl

theorem lexemes_suffix_of_skipResult? (h : skipResult? t = some rest) :
    rest.lexemes <:+ t.lexemes := by
  unfold skipResult? at h
  split at h
  · obtain ⟨b, hb, rfl⟩ := Option.map_eq_some_iff.1 h
    exact lexemes_suffix_of_breakTopLevel? hb
  · obtain rfl := Option.some.inj h
    exact List.suffix_rfl

/-- A colon in front is passed over. -/
theorem lexemes_suffix_colon (t : Text) : t.lexemes <:+ lexemes (':' :: t) := by
  rw [lexemes_cons_of_isPlain (isPlain_of_not_mem (by decide))]
  exact List.suffix_cons _ _

/-- The inline body of a class or function. -/
theorem hasTopLevel_body_of_header? {header : Header} (h : t.header? = some header)
    (ht : t.hasTopLevel c = false) : header.body.hasTopLevel c = false := by
  obtain ⟨-, afterTypes, afterArguments, body, hTypes, hArguments, hResult, hBody⟩ :=
    exists_of_header? h
  have name : lexemes (trimStart (t.dropWhile isNameChar)) <:+ t.lexemes :=
    (lexemes_trimStart_suffix _).trans (lexemes_dropWhile_suffix (fun _ => isPlain_of_isNameChar) t)
  have result : lexemes (':' :: body) <:+ t.lexemes :=
    (lexemes_suffix_of_skipResult? hResult).trans <|
      (lexemes_suffix_of_argumentGroup? hArguments).trans <|
        (lexemes_suffix_of_skipGroup? hTypes).trans name
  rw [hBody]
  exact hasTopLevel_trim
    (hasTopLevel_eq_false_of_suffix ((lexemes_suffix_colon body).trans result) ht)

/-- The inline body of a block. -/
theorem hasTopLevel_of_blockBody? {body : Text} (h : t.blockBody? = some body)
    (ht : t.hasTopLevel c = false) : body.hasTopLevel c = false := by
  obtain ⟨⟨keyword, mayStandAlone⟩, -, h⟩ := Option.bind_eq_some_iff.1 h
  obtain ⟨b, hb, h⟩ := Option.bind_eq_some_iff.1 h
  split at h
  case isTrue => exact nomatch h
  split at h
  case isTrue => exact nomatch h
  obtain rfl := Option.some.inj h
  have colon : (b.char == ':') = true := char_of_breakUnits? (p := (· == ':')) hb
  have found := lexemes_suffix_of_breakTopLevel? hb
  rw [eq_of_beq colon] at found
  exact hasTopLevel_trim
    (hasTopLevel_eq_false_of_suffix ((lexemes_suffix_colon b.after).trans found) ht)

end Text

/-! ## §2. Statements without semicolons. -/

namespace Statement

/-- Neither the statement nor an inline body in it is divided by semicolons. -/
def IsSingle : Statement → Prop
  | .sequence _ => False
  | .classDef _ _ body => body.IsSingle
  | .functionDef _ body => body.IsSingle
  | .block body => body.IsSingle
  | _ => True

theorem ofPlain_isSingle (t : Text) : (ofPlain t).IsSingle := by
  unfold ofPlain ofAssignment ofExpression
  split
  · exact trivial
  split
  · split <;> exact trivial
  · split
    · exact trivial
    split
    · exact trivial
    split
    · exact trivial
    split <;> exact trivial

theorem ofFunction_isSingle {inner : Text → Statement} {isAsync : Bool} {t rest : Text}
    (h : ∀ header, rest.header? = some header → (inner header.body).IsSingle) :
    (ofFunction inner isAsync t rest).IsSingle := by
  unfold ofFunction
  split
  · next hheader => exact h _ hheader
  · exact trivial

/-- One layer is not divided, if what is inside it is not. -/
theorem parseForm_isSingle {inner : Text → Statement}
    (h : ∀ s : Text, s.hasTopLevel ';' = false → (inner s).IsSingle) {t : Text}
    (ht : t.hasTopLevel ';' = false) : (parseForm inner t).IsSingle := by
  have header {rest : Text} (hsuffix : rest.lexemes <:+ t.lexemes) (x : Header)
      (hx : rest.header? = some x) : (inner x.body).IsSingle :=
    h _ (Text.hasTopLevel_body_of_header? hx (Text.hasTopLevel_eq_false_of_suffix hsuffix ht))
  unfold parseForm
  split
  · exact trivial
  split
  · exact trivial
  -- headers of classes and functions
  split
  · next rest hrest =>
    have hsuffix := Text.lexemes_suffix_of_afterKeyword? (by decide +kernel) hrest
    unfold ofClass
    split
    · next x hx => exact header hsuffix x hx
    · exact trivial
  split
  · next rest hrest =>
    have hsuffix := Text.lexemes_suffix_of_afterKeyword? (by decide +kernel) hrest
    exact ofFunction_isSingle (header hsuffix)
  split
  · next rest hrest =>
    obtain ⟨middle, hasync, hdef⟩ := Option.bind_eq_some_iff.1 hrest
    have hmiddle := Text.lexemes_suffix_of_afterKeyword? (by decide +kernel) hasync
    have hsuffix := Text.lexemes_suffix_of_afterKeyword? (by decide +kernel) hdef
    exact ofFunction_isSingle (header (hsuffix.trans hmiddle))
  split
  · next body hbody => exact h _ (Text.hasTopLevel_of_blockBody? hbody ht)
  -- one piece is not divided
  split
  · next hlen =>
    rw [Text.splitTopLevel_of_hasTopLevel_eq_false ht] at hlen
    exact absurd hlen (Nat.lt_irrefl 1)
  · exact ofPlain_isSingle t

/-- **A TEXT WITHOUT A TOP-LEVEL SEMICOLON IS NOT DIVIDED**, and no inline body of it is. -/
theorem parse_isSingle {t : Text} (h : t.hasTopLevel ';' = false) : (parse t).IsSingle := by
  have within (layers : Nat) : ∀ s : Text, s.hasTopLevel ';' = false →
      (parseWithin layers s).IsSingle := by
    induction layers with
    | zero => exact fun _ _ => trivial
    | succ layers ih => exact fun s hs => parseForm_isSingle ih (Text.hasTopLevel_trim hs)
  exact within _ t h

end Statement

end ClassOutline
