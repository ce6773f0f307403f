import ApiDoc.Proofs.Source.Declaration
import ApiDoc.Proofs.Syntax.Joined

/-!
# Taking balanced runs

Words of a balanced run have slots that are one, so what holds of places between slots holds of
places between words: a bracketed run is taken whole, and an expression up to the comma or semicolon
behind it. The text that is kept of arguments is what stands between the parentheses.
-/

namespace ApiDoc.Syntax.Source

variable {e : Spot} {before rest : List Word}

/-- Only the tokens of the words count. -/
theorem balanced_slots {P : Word → Prop} {Q : Slot → Prop} {ws : List Word}
    (h : Balanced Word.token P ws) (hPQ : ∀ w, P w → Q w.slot) :
    Balanced Slot.token Q (ws.map Word.slot) :=
  balanced_map.mpr (h.imp fun w _ => hPQ w)

/-- A bracketed run is taken whole. -/
theorem takes_skipBalanced {b : Bracket} (g : Group b) :
    Takes e Parser.skipBalanced before g.words rest () := by
  have hinside : Balanced Slot.token (fun _ => True) (g.inside.map Word.slot) :=
    balanced_slots g.balanced fun _ _ => trivial
  have hopening : (g.opening.punct b.opening).slot.token.isPunct b.opening = true := by
    simp [Word.slot]
  have hclosing : (g.closing.punct b.closing).slot.token.isPunct b.closing = true := by
    simp [Word.slot]
  have hrun := @skipBalanced_facing (before.map Word.slot)
    (rest.map Word.slot ++ [⟨e.ending, e.doc⟩]) b _ _ _ hopening hclosing hinside (by simp)
  rw [Takes, cursor_eq_facing, cursor_eq_facing]
  simpa [Group.words] using hrun

/-! ## Expressions -/

open Grammar (java)

/-- An expression is taken up to the semicolon or comma behind it. -/
theorem takes_skipExpression {atComma : Bool} (x : Expression)
    (hrest : (first e rest).isPunct ';' = true ∨
      atComma = true ∧ (first e rest).isPunct ',' = true) :
    Takes e (java.skipExpression atComma) before x.words rest () := by
  let p : Token → Bool := fun t => t.isPunct ';' || (atComma && t.isPunct ',')
  have hrun : Balanced Slot.token (fun s => p s.token = false) (x.words.map Word.slot) :=
    balanced_slots x.balanced fun w hw => by simp [p, Word.slot, hw]
  have hopening : ∀ (t : Token) (b : Bracket), t.isPunct b.opening = true → p t = false := by
    intro t b ht
    have hne : b.opening ≠ ';' ∧ b.opening ≠ ',' := by cases b <;> decide
    simp [p, Token.isPunct_ne ht hne.1, Token.isPunct_ne ht hne.2]
  have hstop : p (headToken (rest.map Word.slot ++ [⟨e.ending, e.doc⟩])) = true := by
    have hfirst : headToken (rest.map Word.slot ++ [⟨e.ending, e.doc⟩]) = first e rest := by
      cases rest <;> rfl
    rw [hfirst]
    rcases hrest with h | ⟨rfl, h⟩ <;> simp [p, h]
  show Parser.skipUntil (fun c => p c.token) _ = _
  rw [cursor_eq_facing, cursor_eq_facing, List.map_append, List.append_assoc,
    skipUntil_facing hrun (fun _ hs => hs) hopening (by simp), skipUntil_stop hstop]
  simp

theorem takes_expression {atComma : Bool} (x : Expression)
    (hrest : (first e rest).isPunct ';' = true ∨
      atComma = true ∧ (first e rest).isPunct ',' = true) :
    Takes e (java.expression atComma) before x.words rest (x.tree (firstSpot e rest)) := by
  unfold Grammar.expression
  refine .get (.last (takes_skipExpression x hrest) ?_)
  rw [index_cursor, pos_cursor, firstSpot_append]
  exact .textSince .pure

/-! ## Arguments -/

theorem isNewline_tokens (ws : List Word) : ∀ t ∈ ws.map Word.token, t.isNewline = false := by
  intro t ht
  obtain ⟨w, -, rfl⟩ := List.mem_map.mp ht
  exact w.isNewline_token

/-- The text of a bracketed run. -/
theorem toList_joined_words {b : Bracket} (g : Group b) : (joined g.words).toList =
    b.opening :: (g.inside.flatMap (fun w => w.token.gapped) ++ Token.gap g.closing.spaced ++
      [b.closing]) := by
  have hopening : b.opening.toString ≠ "" := by cases b <;> decide
  rw [joined, Group.words, List.map_cons,
    Token.toList_joined_cons hopening (isNewline_tokens g.words)]
  simp [Token.gapped, Spot.punct, Word.token, Char.toString, List.flatMap_map]

theorem takes_parenthesized (g : Group .round) :
    Takes e java.parenthesized before g.words rest g.arguments := by
  have htext : Text.trim (Grammar.parenthesized.inner (joined g.words).toList) =
      Text.trim (joined g.inside).toList := by
    rw [toList_joined_words, joined, Token.trim_joined (isNewline_tokens _), List.flatMap_map]
    simp [Grammar.parenthesized.inner, Bracket.opening, Bracket.closing,
      Text.trim_append_gap (Token.isGap_gap _)]
  unfold Grammar.parenthesized
  refine .get (.last (takes_skipBalanced g) ?_)
  rw [index_cursor, pos_cursor]
  refine .textSince ?_
  show Takes e (pure (java.leaf .expr (String.ofList (Text.trim
    (Grammar.parenthesized.inner (joined g.words).toList))) g.opening.pos)) _ _ _ _
  rw [htext]
  exact .pure

theorem takes_block (g : Group .curly) : Takes e java.block before g.words rest g.body := by
  unfold Grammar.block
  refine .pos ?_
  exact .last (takes_skipBalanced g) .pure

end ApiDoc.Syntax.Source
