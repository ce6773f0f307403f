import ApiDoc.Text.Position
import Mathlib.Data.List.Induction

/-!
# Bytes and positions

A byte offset of a text is a boundary if characters end there, and two boundaries cut out a slice.
Keeping count of lines and columns while reading (`Position.past`) comes to counting once, at the
end: `past_start`. The position only grows on the way.
-/

namespace ApiDoc.Text

/-! ## Bytes -/

@[simp] theorem byteLength_nil : byteLength [] = 0 := rfl

@[simp] theorem byteLength_cons (c : Char) (cs : List Char) :
    byteLength (c :: cs) = c.utf8Size + byteLength cs := rfl

@[simp] theorem byteLength_append (cs ds : List Char) :
    byteLength (cs ++ ds) = byteLength cs + byteLength ds := by
  induction cs with
  | nil => simp
  | cons c cs ih => simp [ih, Nat.add_assoc]

theorem length_le_byteLength (cs : List Char) : cs.length ≤ byteLength cs := by
  induction cs with
  | nil => simp
  | cons c cs ih =>
    have hc : 0 < c.utf8Size := c.utf8Size_pos
    simp only [List.length_cons, byteLength_cons]
    omega

/-- Do the first `n` bytes of a text hold whole characters? -/
def IsBoundary (cs : List Char) (n : Nat) : Prop :=
  ∃ front, front <+: cs ∧ byteLength front = n

/-- The bytes of a text from `i` up to `j` are those of `piece`. -/
def IsSlice (cs : List Char) (i j : Nat) (piece : List Char) : Prop :=
  ∃ front back, cs = front ++ piece ++ back ∧ byteLength front = i ∧
    byteLength (front ++ piece) = j

/-! ## Positions -/

/-- The position behind a text that starts a file: one line for each line feed, and one column for
each character of the last line. -/
def Position.behind (front : List Char) : Position :=
  ⟨1 + front.count '\n', 1 + (front.reverse.takeWhile (· ≠ '\n')).length⟩

/-- Does a position come before another? Lines count first. -/
def Position.Before (p q : Position) : Prop :=
  p.line < q.line ∨ p.line = q.line ∧ p.column < q.column

namespace Position

theorem past_append (p : Position) (cs ds : List Char) :
    p.past (cs ++ ds) = (p.past cs).past ds :=
  List.foldl_append

theorem past_concat (p : Position) (cs : List Char) (c : Char) :
    p.past (cs ++ [c]) = (p.past cs).next c :=
  past_append p cs [c]

/-- Keeping count is counting at the end. -/
theorem past_start (front : List Char) : start.past front = behind front := by
  induction front using List.reverseRecOn with
  | nil => rfl
  | append_singleton front c ih =>
    rw [past_concat, ih]
    by_cases hc : c = '\n'
    · simp [next, behind, hc, Nat.add_assoc]
    · simp [next, behind, hc, Nat.add_comm]

theorem Before.trans {p q r : Position} (hpq : p.Before q) (hqr : q.Before r) : p.Before r := by
  unfold Before at *
  omega

theorem before_next (p : Position) (c : Char) : p.Before (p.next c) := by
  unfold next Before
  split
  · exact .inl (Nat.lt_succ_self _)
  · exact .inr ⟨rfl, Nat.lt_succ_self _⟩

/-- Whatever is read, the position grows. -/
theorem before_past (p : Position) {cs : List Char} (h : cs ≠ []) : p.Before (p.past cs) := by
  induction cs generalizing p with
  | nil => exact absurd rfl h
  | cons c cs ih =>
    show p.Before ((p.next c).past cs)
    cases cs with
    | nil => exact p.before_next c
    | cons d cs => exact (p.before_next c).trans (ih (p.next c) (List.cons_ne_nil d cs))

theorem not_before_self (p : Position) : ¬ p.Before p := by
  unfold Before
  omega

/-- The further on in a text, the greater the position. -/
theorem before_behind_append (front : List Char) {more : List Char} (h : more ≠ []) :
    (behind front).Before (behind (front ++ more)) := by
  rw [← past_start, ← past_start, past_append]
  exact before_past _ h

end Position

end ApiDoc.Text
