import ApiDoc.Proofs.Bracket.Until
import ApiDoc.Proofs.Source.Run

/-!
# Runs that are taken are balanced

The converse of taking balanced runs: whatever words stand ahead, what is taken of them as an
expression is a balanced run with no comma or semicolon outside brackets (`exists_expression`).
-/

namespace ApiDoc.Syntax.Source

open ApiDoc.Syntax.Parser
open Grammar (java)

variable {e : Spot} {before ws : List Word} {d : Cursor}

theorem Word.eq_punct {w : Word} {c : Char} (h : w.token.isPunct c = true) :
    w = w.spot.punct c := by
  obtain ⟨kind, text, spot, proper⟩ := w
  obtain ⟨hkind, htext⟩ := Bool.and_eq_true_iff.mp h
  obtain rfl : kind = .punct := of_decide_eq_true hkind
  obtain rfl : text = c.toString := of_decide_eq_true htext
  rfl

theorem rest_cursor : (cursor e before ws).rest = ws.map Word.slot ++ [⟨e.ending, e.doc⟩] := by
  rw [cursor_eq_facing, Cursor.rest_facing (by simp)]

theorem ended_cursor : (cursor e before ws).Ended := by
  rw [Cursor.Ended, Cursor.slots, rest_cursor]
  exact ⟨⟨e.ending, e.doc⟩, by simp, rfl⟩

/-- Some words ahead are the next ones. -/
theorem ahead_cursor {n : Nat} (h : n ≤ ws.length) :
    (cursor e before ws).ahead n = cursor e ((ws.take n).reverse ++ before) (ws.drop n) := by
  have hsplit : (cursor e before ws).rest =
      (ws.take n).map Word.slot ++ ((ws.drop n).map Word.slot ++ [⟨e.ending, e.doc⟩]) := by
    rw [rest_cursor, ← List.append_assoc, ← List.map_append, List.take_append_drop]
  have hahead := Cursor.ahead_eq hsplit (by simp)
  rw [List.length_map, List.length_take_of_le h] at hahead
  rw [hahead, cursor_eq_facing, cursor_eq_facing, Cursor.before_facing]
  simp

/-- What is taken unread between commas is an expression. -/
theorem exists_skipped (h : java.skipExpression true (cursor e before ws) = .ok () d) :
    ∃ (x : Expression) (rest : List Word), ws = x.words ++ rest ∧
      d = cursor e (x.words.reverse ++ before) rest := by
  obtain ⟨n, hn, rfl, hrun⟩ :=
    exists_taken (p := fun t => t.isPunct ';' || (true && t.isPunct ',')) ended_cursor h
  rw [remaining_cursor] at hn
  rw [rest_cursor, List.take_append_of_le_length (by simpa using hn), ← List.map_take,
    balanced_map] at hrun
  refine ⟨⟨ws.take n, hrun.imp fun w _ hw => ?_⟩, ws.drop n, (List.take_append_drop n ws).symm,
    ahead_cursor hn⟩
  simpa [Word.slot, and_comm] using hw

/-- What is taken as an expression between commas is one. -/
theorem exists_expression {tree : Tree JavaKind}
    (h : java.expression true (cursor e before ws) = .ok tree d) :
    ∃ (x : Expression) (rest : List Word), ws = x.words ++ rest ∧
      d = cursor e (x.words.reverse ++ before) rest := by
  unfold Grammar.expression at h
  rw [get_bind, index_cursor] at h
  obtain ⟨_, c, hskip, h⟩ := bind_ok.mp h
  obtain ⟨x, rest, rfl, rfl⟩ := exists_skipped hskip
  rw [textSince_bind mark_le] at h
  cases h
  exact ⟨x, rest, rfl, rfl⟩

end ApiDoc.Syntax.Source
