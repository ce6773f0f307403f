import ApiDoc.Proofs.Bracket.Balanced
import ApiDoc.Proofs.Groovy.Basic

/-!
# Expressions over lines

Inside brackets an expression goes on over line ends. Outside, a line end is the end of it, unless
the line ends in an operator: then the expression goes on in the next line, whatever stands there
(`skipExpression_line`). A closing bracket ends it as well (`skipExpression_closing`).
-/

namespace ApiDoc.Syntax.Groovy

open ApiDoc.Syntax.Parser
open Cursor (facing)
open Grammar (groovy lineRound)

/-- Does the token end an expression outside brackets, where a comma does? -/
def endsExpression (t : Token) : Bool := t.isPunct ';' || t.isNewline || t.isPunct ','

/-- Is the token an operator, so that an expression cannot end in it? -/
def isOperator (t : Token) : Bool :=
  t.kind = .punct && ["=", "+", "-", "*", "/", "%", "&", "|", "^", "!", "~", "<", ">", "?", ":",
    ",", "."].contains t.text

/-- Does a run of slots end in an operator? -/
def dangles (run : List Slot) : Bool := run.getLast?.any fun s => isOperator s.token

theorem isEof_of_isNewline {t : Token} (h : t.isNewline = true) : t.isEof = false := by
  simp only [Token.isNewline, decide_eq_true_eq] at h
  exact Token.isEof_of_kind (by simp [h])

theorem isPunct_of_isNewline {t : Token} {p : Char} (h : t.isNewline = true) :
    t.isPunct p = false := by
  simp only [Token.isNewline, decide_eq_true_eq] at h
  exact Token.isPunct_of_kind (by simp [h])

/-- What follows starts a line of its own: it is there, and it does not go on with a member
access. -/
structure StartsLine (more : List Slot) : Prop where
  ne_nil : more ≠ []
  isNewline : (headToken more).isNewline = false
  isDot : (headToken more).isPunct '.' = false
  isQuestion : (headToken more).isPunct '?' = false

section

variable {before rest run ends more : List Slot}

theorem continuesOnNextLine_facing (hrun : run ≠ [])
    (hends : ∀ s ∈ ends, s.token.isNewline = true) (hmore : StartsLine more) :
    Grammar.continuesOnNextLine (facing (run.reverse ++ before) (ends ++ more)) = dangles run := by
  obtain ⟨last, hlast⟩ : ∃ last, run.getLast? = some last :=
    Option.isSome_iff_exists.mp (by simpa using hrun)
  have hprevious : (facing (run.reverse ++ before) (ends ++ more)).previous? = some last.token := by
    rw [Cursor.previous?, Cursor.before_facing, List.head?_append, List.head?_reverse, hlast]
    rfl
  simp only [Grammar.continuesOnNextLine, hprevious,
    Cursor.peekSignificant_facing hends hmore.ne_nil hmore.isNewline, hmore.isDot,
    hmore.isQuestion, Bool.false_and, Bool.or_false, dangles, hlast, Option.any_some, isOperator]

/-- Behind a line, an expression ends or goes on. -/
theorem skipExpression_line (h : Balanced Slot.token (fun s => endsExpression s.token = false) run)
    (hrun : run ≠ []) (hends : ∀ s ∈ ends, s.token.isNewline = true) (hne : ends ≠ [])
    (hmore : StartsLine more) :
    groovy.skipExpression true (facing before (run ++ (ends ++ more))) =
      if dangles run then
        groovy.skipExpression true (facing (ends.reverse ++ (run.reverse ++ before)) more)
      else .ok () (facing (run.reverse ++ before) (ends ++ more)) := by
  obtain ⟨line, ends, rfl⟩ := List.exists_cons_of_ne_nil hne
  have hline : line.token.isNewline = true := hends line List.mem_cons_self
  -- one round takes the run, up to the line end behind it
  have huntil : skipUntil (fun c => endsExpression c.token)
      (facing before (run ++ (line :: ends ++ more))) =
        .ok () (facing (run.reverse ++ before) (line :: ends ++ more)) := by
    rw [skipUntil_facing h (fun s hs => hs) ?_ (by simp), skipUntil_stop]
    · simp [endsExpression, hline]
    · intro t b ht
      have hne : b.opening ≠ ';' ∧ b.opening ≠ ',' := by cases b <;> decide
      rw [endsExpression, Token.isPunct_ne ht hne.1, Token.isPunct_ne ht hne.2,
        Token.isNewline_of_kind (by simp [Token.kind_of_isPunct ht])]
      rfl
  have hround : lineRound true () (facing before (run ++ (line :: ends ++ more))) =
      if dangles run then
        .ok (.next ()) (facing ((line :: ends).reverse ++ (run.reverse ++ before)) more)
      else .ok (.done ()) (facing (run.reverse ++ before) (line :: ends ++ more)) := by
    refine (bind_of_ok huntil).trans ?_
    rw [get_bind, continuesOnNextLine_facing hrun hends hmore,
      List.cons_append, Cursor.token_facing, headToken_cons, hline, Bool.true_and, ite_run,
      skipNewlines_bind]
    have hskip : (facing (run.reverse ++ before) (line :: ends ++ more)).skipNewlines =
        facing ((line :: ends).reverse ++ (run.reverse ++ before)) more :=
      Cursor.skipWhile_facing (fun s hs => ⟨hends s hs, isEof_of_isNewline (hends s hs)⟩)
        hmore.ne_nil hmore.isNewline
    rw [List.cons_append] at hskip
    rw [hskip]
    rfl
  show iterate () (lineRound true) _ = _
  cases hdangles : dangles run with
  | true =>
    rw [hdangles] at hround
    refine iterate_of_next hround ?_
    have hlength := List.length_pos_iff.mpr hmore.ne_nil
    simp only [Cursor.remaining_facing, List.length_append, List.length_cons]
    omega
  | false =>
    rw [hdangles] at hround
    exact iterate_of_done hround

/-- An expression ends in front of a closing bracket. -/
theorem skipExpression_closing {b : Bracket} (h : (headToken rest).isPunct b.closing = true) :
    groovy.skipExpression true (facing before rest) = .ok () (facing before rest) := by
  have hline : (headToken rest).isNewline = false :=
    Token.isNewline_of_kind (by simp [Token.kind_of_isPunct h])
  show iterate () (lineRound true) _ = _
  refine iterate_of_done ?_
  refine (bind_of_ok (skipUntil_closing (p := endsExpression) h)).trans ?_
  rw [get_bind, Cursor.token_facing, hline]
  rfl

end

end ApiDoc.Syntax.Groovy
