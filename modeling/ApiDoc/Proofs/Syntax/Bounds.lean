import ApiDoc.Proofs.Syntax.Forward

/-!
# A cursor stays in its slots

A cursor is known by its slots and its index. Whatever moves it (one slot on, over a run of tokens,
to a slot by number) leaves the slots as they are, and the index at one of them: `Moves.slots_eq`,
`getElem?_index`.

The slots of a source end in its end, which a `Track` records. So a cursor at another token can go
on, and its index is then one higher (`Track.index_next`).
-/

namespace ApiDoc.Syntax

namespace Cursor

variable {c d : Cursor}

/-! ## Slots and index -/

theorem length_slots (c : Cursor) : c.slots.length = c.index + c.remaining + 1 := by
  simp only [slots, rest, List.length_append, List.length_reverse, List.length_cons,
    c.length_before, c.length_after]
  omega

theorem getElem?_index (c : Cursor) : c.slots[c.index]? = some c.here := by
  rw [slots, List.getElem?_append_right (by simp [c.length_before])]
  simp [rest, c.length_before]

theorem eq_of_slots_eq (hslots : c.slots = d.slots) (hindex : c.index = d.index) : c = d := by
  have hlength : c.before.reverse.length = d.before.reverse.length := by
    simp only [List.length_reverse, c.length_before, d.length_before, hindex]
  obtain ⟨hbefore, hrest⟩ := List.append_inj hslots hlength
  have hbefore : c.before = d.before := List.reverse_inj.1 hbefore
  obtain ⟨hhere, hafter⟩ := List.cons.inj hrest
  rw [← between_eq c, ← between_eq d, hbefore, hhere, hafter]

/-! ## Moving -/

theorem skipWhile_of {p : Token → Bool} (h : p c.token = true) :
    c.next.skipWhile p = c.skipWhile p := by
  rw [skipWhile.eq_1 p c, if_pos h, next]
  split
  · next hnext => rw [hnext, Option.getD_none, skipWhile, if_pos h, hnext]
  · next hnext => rw [hnext, Option.getD_some]

theorem slots_back (n : Nat) (c : Cursor) : (c.back n).slots = c.slots := by
  induction n generalizing c with
  | zero => rfl
  | succ n ih =>
    obtain ⟨before, here, after, index, remaining, hb, ha⟩ := c
    cases before with
    | nil => rfl
    | cons s before =>
      rw [back, ih]
      simp [slots, rest]

theorem index_back (n : Nat) (c : Cursor) : (c.back n).index = c.index - n := by
  induction n generalizing c with
  | zero => rfl
  | succ n ih =>
    obtain ⟨before, here, after, index, remaining, hb, ha⟩ := c
    cases before with
    | nil =>
      have hindex : index = 0 := hb.symm
      simp [back, hindex]
    | cons s before =>
      rw [back, ih]
      simp only
      omega

theorem slots_ahead (n : Nat) (c : Cursor) : (c.ahead n).slots = c.slots := by
  induction n generalizing c with
  | zero => rfl
  | succ n ih =>
    obtain ⟨before, here, after, index, remaining, hb, ha⟩ := c
    cases after with
    | nil => rfl
    | cons s after =>
      rw [ahead, ih]
      simp [slots, rest]

theorem slots_moveTo (c : Cursor) (n : Nat) : (c.moveTo n).slots = c.slots := by
  unfold moveTo
  split
  · exact slots_back _ _
  · exact slots_ahead _ _

theorem index_moveTo_of_le {n : Nat} (h : n ≤ c.index) : (c.moveTo n).index = n := by
  rw [moveTo, if_pos h, index_back]
  omega

/-- Going back to where a cursor was. -/
theorem Onward.moveTo (h : c.Onward d) : d.moveTo c.index = c :=
  eq_of_slots_eq ((slots_moveTo _ _).trans h.slots_eq) (index_moveTo_of_le h.index_le)

/-- Any mixture of moves: over a token, over a run of tokens, and to a slot by number, which may be
past the end. -/
inductive Moves (start : Cursor) : Cursor → Prop
  | stay : Moves start start
  | next {c : Cursor} : Moves start c → Moves start c.next
  | skip {c : Cursor} (p : Token → Bool) : Moves start c → Moves start (c.skipWhile p)
  | moveTo {c : Cursor} (n : Nat) : Moves start c → Moves start (c.moveTo n)

theorem Moves.slots_eq (h : c.Moves d) : d.slots = c.slots := by
  induction h with
  | stay => rfl
  | next _ ih => exact (onward_next _).slots_eq.trans ih
  | skip p _ ih => exact (onward_skipWhile p _).slots_eq.trans ih
  | moveTo n _ ih => exact (slots_moveTo _ n).trans ih

end Cursor

/-! ## The end of the source -/

/-- The slots of a source: the last one is its end. -/
structure Track where
  slots : List Slot
  ended : ∃ s ∈ slots.getLast?, s.token.isEof = true

namespace Slot

theorem ended_terminated (slots : List Slot) :
    ∃ s ∈ (terminated slots).getLast?, s.token.isEof = true := by
  unfold terminated
  split
  · exact ⟨atEnd {}, rfl, rfl⟩
  · next s hlast =>
    split
    · next heof => exact ⟨s, hlast, heof⟩
    · exact ⟨atEnd s.token.pos, by simp, rfl⟩

end Slot

/-- The slots that a token list is read from. -/
def Track.ofTokens (tokens : List Token) : Track :=
  ⟨Slot.terminated (Slot.attach tokens), Slot.ended_terminated _⟩

theorem Cursor.slots_ofTokens (tokens : List Token) :
    (ofTokens tokens).slots = (Track.ofTokens tokens).slots := by
  obtain ⟨s, hs, -⟩ := (Track.ofTokens tokens).ended
  simp only [ofTokens, Track.ofTokens] at hs ⊢
  cases hslots : Slot.terminated (Slot.attach tokens) with
  | nil =>
    rw [hslots] at hs
    cases hs
  | cons s rest => rfl

namespace Track

variable {track : Track} {c : Cursor}

/-- Before the end there is a slot to go on to. -/
theorem index_next (hslots : c.slots = track.slots) (heof : c.token.isEof = false) :
    c.next.index = c.index + 1 := by
  obtain ⟨s, hs, hend⟩ := track.ended
  obtain ⟨before, here, after, index, remaining, hb, ha⟩ := c
  have hhere : here.token.isEof = false := heof
  cases after with
  | nil =>
    -- The cursor would be at the last slot, which is the end.
    rw [← hslots] at hs
    simp only [Cursor.slots, Cursor.rest, List.getLast?_append, List.getLast?_singleton,
      Option.some_or, Option.mem_def, Option.some.injEq] at hs
    rw [← hs, hhere] at hend
    cases hend
  | cons t rest => simp [Cursor.next, Cursor.next?, hhere]

end Track

end ApiDoc.Syntax
