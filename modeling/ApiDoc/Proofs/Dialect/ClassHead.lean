import ApiDoc.Proofs.Dialect.Basic
import ApiDoc.Proofs.Groovy.Run

/-!
# A class and the rounds of its body

Both grammars read the word `class`, a name and an opening brace alike, and hand the brace on to the
parser of bodies (`Grammar.typeDef_class`). At the word a type declaration without modifiers starts,
be it at the top of a file or in a body.

A body is read round by round behind its opening brace (`Grammar.members_opening`). A round passes
over the line ends that the language has for tokens. It reads the member behind them, here one that
starts with a reserved word (`Grammar.membersRound_member`), or it stops at the closing brace
(`Grammar.membersRound_closing`).
-/

namespace ApiDoc.Syntax

open ApiDoc.Syntax.Parser
open Cursor (facing)
open Groovy (isEof_of_isNewline isPunct_of_isNewline)

/-- Line ends are passed over on the way to a token that separates nothing. -/
theorem Cursor.skipSeparators_facing {before lines rest : List Slot} {s : Slot}
    (hlines : ∀ s ∈ lines, s.token.isNewline = true) (hline : s.token.isNewline = false)
    (hsemicolon : s.token.isPunct ';' = false) :
    (facing before (lines ++ s :: rest)).skipSeparators =
      facing (lines.reverse ++ before) (s :: rest) := by
  refine skipWhile_facing (fun s hs => ⟨?_, isEof_of_isNewline (hlines s hs)⟩) (by simp) ?_
  · rw [hlines s hs, Bool.true_or]
  · rw [headToken_cons, hline, hsemicolon]
    rfl

namespace Token

variable {t : Token}

theorem text_of_isKeyword {word : String} (h : t.isKeyword word = true) : t.text = word := by
  simpa [isKeyword, kind_of_isKeyword h] using h

theorem isNewline_of_isKeyword {word : String} (h : t.isKeyword word = true) :
    t.isNewline = false :=
  isNewline_of_kind (by simp [kind_of_isKeyword h])

theorem isPunct_of_isKeyword {word : String} (h : t.isKeyword word = true) (p : Char) :
    t.isPunct p = false :=
  isPunct_of_kind (by simp [kind_of_isKeyword h])

theorem isKeyword_ne {word other : String} (h : t.isKeyword word = true) (hne : word ≠ other) :
    t.isKeyword other = false := by
  simp [isKeyword, text_of_isKeyword h, hne]

end Token

namespace Grammar

section

variable {κ : Type} {g : Grammar κ} {before lines rest : List Slot} {s : Slot}
  (hlines : LineEnds g.language.lexicon.newlines lines) (hline : s.token.isNewline = false)
include hlines hline

/-- The line ends that a language has for tokens are those that its grammar passes over. -/
theorem pastLines_facing : g.pastLines (facing before (lines ++ s :: rest)) =
    facing (lines.reverse ++ before) (s :: rest) := by
  unfold pastLines
  cases hlanguage : g.language with
  | java =>
    rw [hlines.eq_nil (by rw [hlanguage]; rfl)]
    rfl
  | groovy =>
    exact Cursor.skipWhile_facing
      (fun s hs => ⟨hlines.isNewline s hs, isEof_of_isNewline (hlines.isNewline s hs)⟩) (by simp)
      hline

theorem pastSeparators_facing (hsemicolon : s.token.isPunct ';' = false) :
    g.pastSeparators (facing before (lines ++ s :: rest)) =
      facing (lines.reverse ++ before) (s :: rest) := by
  unfold pastSeparators
  cases hlanguage : g.language with
  | java =>
    rw [hlines.eq_nil (by rw [hlanguage]; rfl)]
    exact Cursor.skipWhile_of_not hsemicolon
  | groovy => exact Cursor.skipSeparators_facing hlines.isNewline hline hsemicolon

end

/-! ## Bodies -/

section

variable {κ : Type} {g : Grammar κ} {inside : BodyParser κ} {className : String}
  {found : List (Tree κ)} {before lines rest : List Slot}

theorem members_opening {opening : Slot} (hopening : opening.token.isPunct '{' = true)
    (hrest : rest ≠ []) :
    g.members inside className false (facing before (opening :: rest)) =
      (iterate [] (g.membersRound inside className) >>= fun found =>
        pure ((g.leaf .objBlock "" opening.token.pos).withChildren found))
          (facing (opening :: before) rest) := by
  have hbrace : expectPunct '{' (facing before (opening :: rest)) =
      .ok opening.token (facing (opening :: before) rest) :=
    expectPunct_ok.mpr ⟨hopening, rfl,
      (Cursor.next_facing (Token.isEof_of_isPunct hopening) hrest).symm⟩
  unfold members
  simp only [monadLift_eq, iterate_eq]
  rw [bind_of_ok hbrace, if_neg Bool.false_ne_true, pure_bind]

theorem membersRound_member {s : Slot} {word : String} (hword : s.token.isKeyword word = true)
    (hlines : LineEnds g.language.lexicon.newlines lines) :
    g.membersRound inside className found (facing before (lines ++ s :: rest)) =
      (g.member inside className >>= fun more => pure (.next (found ++ more)))
        (facing (lines.reverse ++ before) (s :: rest)) := by
  unfold membersRound
  simp only [monadLift_eq]
  rw [passSeparators_bind, pastSeparators_facing hlines (Token.isNewline_of_isKeyword hword)
    (Token.isPunct_of_isKeyword hword _), eatPunct_bind, Cursor.token_facing, headToken_cons,
    Token.isPunct_of_isKeyword hword, if_neg Bool.false_ne_true, if_neg Bool.false_ne_true,
    peek_bind, Cursor.token_facing, headToken_cons, Token.isEof_of_isKeyword hword,
    if_neg Bool.false_ne_true]

theorem membersRound_closing {closing : Slot} (hclosing : closing.token.isPunct '}' = true)
    (hlines : LineEnds g.language.lexicon.newlines lines) (hrest : rest ≠ []) :
    g.membersRound inside className found (facing before (lines ++ closing :: rest)) =
      .ok (.done found) (facing (closing :: (lines.reverse ++ before)) rest) := by
  unfold membersRound
  simp only [monadLift_eq]
  rw [passSeparators_bind, pastSeparators_facing hlines
    (Token.isNewline_of_kind (by simp [Token.kind_of_isPunct hclosing]))
    (Token.isPunct_ne hclosing (by decide)), eatPunct_bind, Cursor.token_facing, headToken_cons,
    hclosing, if_pos rfl, if_pos rfl, Cursor.next_facing (Token.isEof_of_isPunct hclosing) hrest]
  rfl

end

/-! ## Classes -/

variable {κ : Type} {g : Grammar κ} {before rest : List Slot} {word : Slot}
  (hword : word.token.isKeyword "class" = true)
include hword

theorem typeKeyword_class (hrest : rest ≠ []) :
    g.typeKeyword (facing before (word :: rest)) =
      .ok (g.typeKind "class", false) (facing (word :: before) rest) := by
  rw [typeKeyword, eatPunct_bind, Cursor.token_facing, headToken_cons,
    Token.isPunct_of_isKeyword hword, if_neg Bool.false_ne_true, if_neg Bool.false_ne_true,
    bump_bind, Cursor.token_facing, headToken_cons, Token.text_of_isKeyword hword,
    Cursor.next_facing (Token.isEof_of_isKeyword hword) hrest]
  rfl

/-- A class is what its body makes of it. -/
theorem typeDef_class {ident opening : Slot} {gap : List Slot}
    (hident : g.isName ident.token = true) (hgap : LineEnds g.language.lexicon.newlines gap)
    (hopening : opening.token.isPunct '{' = true) (inside : BodyParser κ) (start : Cursor)
    (modifiers : Tree κ) :
    g.typeDef inside start modifiers (facing before (word :: ident :: (gap ++ opening :: rest))) =
      (inside ident.token.text false >>= fun body => pure {
        kind := g.typeKind "class", text := ident.token.text, pos := start.pos, doc := start.doc,
        children := [modifiers, body] })
      (facing (gap.reverse ++ ident :: word :: before) (opening :: rest)) := by
  have hname : g.name (facing (word :: before) (ident :: (gap ++ opening :: rest))) =
      .ok ident.token.text (facing (ident :: word :: before) (gap ++ opening :: rest)) := by
    refine bind_of_ok (expectName_ok.mpr ⟨hident, rfl, ?_⟩)
    exact (Cursor.next_facing (Token.isEof_of_isName hident) (by simp)).symm
  have hkind := Token.kind_of_isPunct hopening
  have hparameters : (headToken (gap ++ opening :: rest)).isPunct '<' = false := by
    cases gap with
    | nil => exact Token.isPunct_ne hopening (by decide)
    | cons line gap => exact isPunct_of_isNewline (hgap.isNewline line List.mem_cons_self)
  -- behind the name there are no type parameters and no clauses, so the body follows
  have hclause : ∀ kind keyword, g.clause kind keyword
      (facing (gap.reverse ++ ident :: word :: before) (opening :: rest)) =
        .ok [] (facing (gap.reverse ++ ident :: word :: before) (opening :: rest)) := by
    intro kind keyword
    rw [clause, atKeyword_bind, Cursor.token_facing, headToken_cons,
      Token.isKeyword_of_kind (by simp [hkind])]
    rfl
  unfold typeDef
  simp only [monadLift_eq]
  rw [bind_of_ok (typeKeyword_class hword (by simp)), bind_of_ok hname, atPunct_bind,
    Cursor.token_facing, hparameters, if_neg Bool.false_ne_true, pure_bind]
  rw [passLines_bind, pastLines_facing hgap (Token.isNewline_of_kind (by simp [hkind])),
    bind_of_ok (hclause _ _), bind_of_ok (hclause _ _)]
  rfl

theorem modifiers_class :
    g.modifiers (facing before (word :: rest)) =
      .ok ((g.leaf .modifiers "" word.token.pos).withChildren [])
        (facing before (word :: rest)) := by
  have hwords : "class" ∉ g.language.modifierWords := by
    cases g.language <;> decide
  exact modifiers_of_none (Token.isPunct_of_isKeyword hword _)
    (by simp [atModifier, Token.text_of_isKeyword hword, hwords])

theorem atTypeDef_class : g.atTypeDef (facing before (word :: rest)) = true := by
  unfold atTypeDef
  cases g.language <;> simp [Language.typeWords, hword]

/-- In a body, a class is a member. -/
theorem member_class (inside : BodyParser κ) (className : String) :
    g.member inside className (facing before (word :: rest)) =
      (g.typeDef inside (facing before (word :: rest))
          ((g.leaf .modifiers "" word.token.pos).withChildren []) >>= fun t => pure [t])
        (facing before (word :: rest)) := by
  unfold member
  simp only [monadLift_eq]
  rw [cursor_bind, Cursor.token_facing, headToken_cons, Token.isPunct_of_isKeyword hword,
    if_neg Bool.false_ne_true, Token.isKeyword_ne hword (by decide), Bool.false_and,
    if_neg Bool.false_ne_true, bind_of_ok (modifiers_class hword), cursor_bind,
    atTypeDef_class hword, if_pos rfl]

end Grammar

end ApiDoc.Syntax
