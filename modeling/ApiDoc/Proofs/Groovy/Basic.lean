import ApiDoc.Proofs.Syntax.Total

/-!
# Groovy files with one declaration

Where a declaration of a Groovy file may end, and what the file is if it holds nothing else: it is
read with its declaration (`file_of_ok`) and fails with it (`file_of_error`).
-/

namespace ApiDoc.Syntax.Groovy

open ApiDoc.Syntax.Parser
open Grammar (groovy)

variable {c d : Cursor} {t : Tree NodeKind} {e : ParseError}

theorem lineEnds {slots : List Slot} (h : ∀ s ∈ slots, s.token.isNewline = true) :
    LineEnds groovy.language.lexicon.newlines slots :=
  ⟨h, nofun⟩

/-- A declaration ends with a semicolon, or in front of a line end, a closing brace or the end of
the source. -/
theorem endOfDeclaration_apply :
    groovy.endOfDeclaration c =
      if c.token.isPunct ';' then .ok () c.next
      else if c.token.isNewline || c.token.isPunct '}' || c.token.isEof then .ok () c
      else .error (c.unexpected "end of declaration") c := by
  show (eatPunct ';' >>= fun b => if b then pure () else peek >>= fun t =>
    if t.isNewline || t.isPunct '}' || t.isEof then pure ()
    else unexpected "end of declaration") c = _
  rw [eatPunct_bind]
  split
  · rfl
  · rw [if_neg Bool.false_ne_true, peek_bind, ite_run]
    rfl

/-- A file whose first declaration is read up to the end holds nothing else. -/
theorem file_of_ok {p : Parser (Tree NodeKind)}
    (hround : fileRound [] c = (p >>= fun t => pure (.next ([] ++ [t]))) (groovy.pastSeparators c))
    (h : p (groovy.pastSeparators c) = .ok t d) (hlt : d.remaining < c.remaining)
    (heof : (groovy.pastSeparators d).token.isEof = true) :
    file c = .ok (groovy.unit [t]) (groovy.pastSeparators d) := by
  have hfirst : fileRound [] c = .ok (.next [t]) d := hround.trans (bind_of_ok h)
  have hlast : fileRound [t] d = .ok (.done [t]) (groovy.pastSeparators d) := by
    rw [fileRound, Grammar.passSeparators_bind, peek_bind]
    exact congrFun (if_pos heof) _
  exact bind_of_ok ((iterate_of_next hfirst hlt).trans (iterate_of_done hlast))

/-- A file whose first declaration cannot be read cannot be read. -/
theorem file_of_error {p : Parser (Tree NodeKind)}
    (hround : fileRound [] c = (p >>= fun t => pure (.next ([] ++ [t]))) (groovy.pastSeparators c))
    (h : p (groovy.pastSeparators c) = .error e d) : file c = .error e d := by
  have hfirst : fileRound [] c = .error e d := hround.trans (bind_of_error h)
  exact bind_of_error (iterate_of_error hfirst)

end ApiDoc.Syntax.Groovy
