import ApiDoc.Syntax.Fault

/-!
# A place between tokens

A cursor stands at one slot of a list of slots, with the slots before it and after it at hand. A
slot is a token together with the doc comment that belongs to it, so a declaration finds its
comment at its first token. The list ends in the end of the source, which the cursor never passes.
-/

namespace ApiDoc.Syntax

open Text (Position)

/-- A token and the doc comment before it. -/
structure Slot where
  token : Token
  doc : Option String
deriving DecidableEq, Repr

namespace Slot

/-- Attach every doc comment to the next token that is neither a comment nor a line end; `pending`
is the last comment that has no token yet. -/
def attachFrom (pending : Option String) : List Token → List Slot
  | [] => []
  | t :: ts =>
    match t.kind with
    | .docComment => attachFrom (some t.text) ts
    | .newline => ⟨t, none⟩ :: attachFrom pending ts
    | _ => ⟨t, pending⟩ :: attachFrom none ts

/-- Attach every doc comment of a token list. -/
def attach (tokens : List Token) : List Slot := attachFrom none tokens

/-- The end of the source, at `pos`. -/
def atEnd (pos : Position) : Slot := ⟨⟨.eof, "", pos, false⟩, none⟩

/-- Put the end of the source behind `slots`, unless it is there. -/
def terminated (slots : List Slot) : List Slot :=
  match slots.getLast? with
  | none => [atEnd {}]
  | some s => if s.token.isEof then slots else slots ++ [atEnd s.token.pos]

end Slot

/-- A place in a list of slots: the slots before it, last first, the slot it stands at, and the
slots after it. The slots on both sides are counted. -/
structure Cursor where
  before : List Slot
  here : Slot
  after : List Slot
  /-- The number of slots before the cursor. -/
  index : Nat
  /-- The number of slots after the cursor. -/
  remaining : Nat
  length_before : before.length = index
  length_after : after.length = remaining
deriving DecidableEq, Repr

namespace Cursor

/-- The cursor between given slots. -/
def between (before : List Slot) (here : Slot) (after : List Slot) : Cursor :=
  ⟨before, here, after, before.length, after.length, rfl, rfl⟩

/-- A cursor is known by its slots. -/
theorem between_eq (c : Cursor) : between c.before c.here c.after = c := by
  obtain ⟨before, here, after, index, remaining, hb, ha⟩ := c
  subst hb ha
  rfl

/-- The cursor at the first token of a list. -/
def ofTokens (tokens : List Token) : Cursor :=
  match Slot.terminated (Slot.attach tokens) with
  | [] => between [] (Slot.atEnd {}) []
  | s :: rest => between [] s rest

/-! ### Looking -/

/-- The slots from the cursor on. -/
def rest (c : Cursor) : List Slot := c.here :: c.after

/-- All slots. -/
def slots (c : Cursor) : List Slot := c.before.reverse ++ c.rest

/-- The last slot. -/
def last (c : Cursor) : Slot := c.after.getLast?.getD c.here

/-- The current token. -/
def token (c : Cursor) : Token := c.here.token

/-- The position of the current token. -/
def pos (c : Cursor) : Position := c.token.pos

/-- The doc comment of the current token. -/
def doc (c : Cursor) : Option String := c.here.doc

/-- The token `n` places ahead; past the end, the last one. -/
def peek (c : Cursor) (n : Nat) : Token :=
  (c.rest[n]?.getD c.last).token

/-- The `n`-th slot of a list whose token is no line end. -/
def significant? : Nat → List Slot → Option Slot
  | _, [] => none
  | 0, s :: ss => if s.token.isNewline then significant? 0 ss else some s
  | n + 1, s :: ss => significant? (if s.token.isNewline then n + 1 else n) ss

/-- The `n`-th token ahead that is no line end; past the end, the last one. -/
def peekSignificant (c : Cursor) (n : Nat) : Token :=
  ((significant? n c.rest).getD c.last).token

/-- The token before the cursor. -/
def previous? (c : Cursor) : Option Token :=
  c.before.head?.map Slot.token

/-- The doc comment at slot `n`. -/
def docAt (c : Cursor) (n : Nat) : Option String :=
  c.slots[n]?.bind Slot.doc

/-- The position of slot `n`; past the end, of the last one. -/
def posAt (c : Cursor) (n : Nat) : Position :=
  (c.slots[n]?.getD c.last).token.pos

/-- The tokens from slot `n` up to the cursor, as they read in the source. -/
def textSince (c : Cursor) (n : Nat) : String :=
  Token.joined ((c.before.take (c.index - n)).reverse.map Slot.token)

/-! ### Moving -/

/-- One slot further, if the current token is not the end of the source. -/
def next? : Cursor → Option Cursor
  | ⟨_, _, [], _, _, _, _⟩ => none
  | ⟨before, here, s :: rest, index, remaining, hb, ha⟩ =>
    if here.token.isEof then none
    else
      some ⟨here :: before, s, rest, index + 1, remaining - 1, by simp [hb], by simp [← ha]⟩

/-- One slot further; at the end of the source, the cursor stays. -/
def next (c : Cursor) : Cursor := c.next?.getD c

/-- The cursor `n` slots back, or at the first one. -/
def back : (n : Nat) → Cursor → Cursor
  | n + 1, ⟨s :: before, here, after, index, remaining, hb, ha⟩ =>
    back n ⟨before, s, here :: after, index - 1, remaining + 1, by simp [← hb], by simp [ha]⟩
  | _, c => c

/-- The cursor `n` slots ahead, or at the last one. -/
def ahead : (n : Nat) → Cursor → Cursor
  | n + 1, ⟨before, here, s :: after, index, remaining, hb, ha⟩ =>
    ahead n ⟨here :: before, s, after, index + 1, remaining - 1, by simp [hb], by simp [← ha]⟩
  | _, c => c

/-- The cursor at slot `n`; past the end, at the last one. -/
def moveTo (c : Cursor) (n : Nat) : Cursor :=
  if n ≤ c.index then c.back (c.index - n) else c.ahead (n - c.index)

/-- Going on uses up a slot. -/
theorem remaining_next? {c d : Cursor} (h : c.next? = some d) : d.remaining < c.remaining := by
  obtain ⟨before, here, after, index, remaining, hb, ha⟩ := c
  cases after with
  | nil => cases h
  | cons s rest =>
    simp only [next?] at h
    split at h
    · cases h
    · cases h
      simp only [List.length_cons] at ha
      simp only
      omega

/-- Go on while the tokens satisfy `p`. -/
def skipWhile (p : Token → Bool) (c : Cursor) : Cursor :=
  if p c.token then
    match _h : c.next? with
    | none => c
    | some d => skipWhile p d
  else c
termination_by c.remaining
decreasing_by exact remaining_next? ‹_›

/-- Go on to the next token that is no line end. -/
def skipNewlines (c : Cursor) : Cursor := c.skipWhile Token.isNewline

/-- Go on to the next token that is neither a line end nor a semicolon. -/
def skipSeparators (c : Cursor) : Cursor :=
  c.skipWhile fun t => t.isNewline || t.isPunct ';'

/-! ### Errors -/

/-- The error of finding the current token where something else is due. -/
def unexpected (c : Cursor) (expected : String) : ParseError :=
  if c.token.isEof then ⟨c.pos, .unexpectedEnd expected⟩
  else ⟨c.pos, .unexpectedToken c.token expected⟩

end Cursor

end ApiDoc.Syntax
