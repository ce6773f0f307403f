import ApiDoc.Proofs.Syntax.Bounds

/-!
# Places between slots

`Cursor.facing` is the place between the slots that are read and those ahead. What a parser looks at
there is the first of the slots ahead, and reading on moves slots from one side to the other. Every
cursor is such a place (`facing_eq`), so a parser can be followed along a list of slots without
naming the cursors in between.
-/

namespace ApiDoc.Syntax

/-- The token ahead. -/
def headToken : List Slot → Token
  | [] => (Slot.atEnd {}).token
  | s :: _ => s.token

@[simp] theorem headToken_cons (s : Slot) (rest : List Slot) :
    headToken (s :: rest) = s.token := rfl

namespace Cursor

/-- The place behind `before`, last slot first, and in front of `rest`. -/
def facing (before : List Slot) : (rest : List Slot) → Cursor
  | [] => between before (Slot.atEnd {}) []
  | s :: rest => between before s rest

theorem facing_eq (c : Cursor) : facing c.before c.rest = c := c.between_eq

variable {before ws rest : List Slot} {w : Slot}

@[simp] theorem token_facing : (facing before rest).token = headToken rest := by
  cases rest <;> rfl

@[simp] theorem pos_facing : (facing before rest).pos = (headToken rest).pos := by
  cases rest <;> rfl

@[simp] theorem index_facing : (facing before rest).index = before.length := by
  cases rest <;> rfl

@[simp] theorem before_facing : (facing before rest).before = before := by
  cases rest <;> rfl

theorem rest_facing (h : rest ≠ []) : (facing before rest).rest = rest := by
  obtain ⟨s, rest, rfl⟩ := List.exists_cons_of_ne_nil h
  rfl

@[simp] theorem remaining_facing : (facing before rest).remaining = rest.length - 1 := by
  cases rest <;> rfl

theorem next?_facing (hw : w.token.isEof = false) (hrest : rest ≠ []) :
    (facing before (w :: rest)).next? = some (facing (w :: before) rest) := by
  obtain ⟨s, rest, rfl⟩ := List.exists_cons_of_ne_nil hrest
  simp [facing, between, next?, hw]

theorem next_facing (hw : w.token.isEof = false) (hrest : rest ≠ []) :
    (facing before (w :: rest)).next = facing (w :: before) rest := by
  rw [next, next?_facing hw hrest, Option.getD_some]

theorem peek_facing {s : Slot} : (facing before (w :: s :: rest)).peek 1 = s.token := rfl

theorem remaining_facing_lt (hrest : rest ≠ []) :
    (facing (w :: before) rest).remaining < (facing before (w :: rest)).remaining := by
  have hlength := List.length_pos_iff.mpr hrest
  simp only [remaining_facing, List.length_cons]
  omega

/-- Passing over slots. -/
theorem skipWhile_facing {p : Token → Bool}
    (hws : ∀ s ∈ ws, p s.token = true ∧ s.token.isEof = false) (hne : rest ≠ [])
    (hrest : p (headToken rest) = false) :
    (facing before (ws ++ rest)).skipWhile p = facing (ws.reverse ++ before) rest := by
  induction ws generalizing before with
  | nil => exact skipWhile_of_not (by rw [token_facing]; exact hrest)
  | cons s ws ih =>
    obtain ⟨⟨hp, heof⟩, hws⟩ := List.forall_mem_cons.mp hws
    have hfirst : p (facing before (s :: (ws ++ rest))).token = true := by
      rw [token_facing]
      exact hp
    rw [List.cons_append, ← skipWhile_of hfirst, next_facing heof (by simp [hne]), ih hws]
    simp

/-- Line ends are passed over in looking for the token ahead. -/
theorem peekSignificant_facing (hws : ∀ s ∈ ws, s.token.isNewline = true) (hne : rest ≠ [])
    (hrest : (headToken rest).isNewline = false) :
    (facing before (ws ++ rest)).peekSignificant 0 = headToken rest := by
  have hfound : significant? 0 (ws ++ rest) = rest.head? := by
    induction ws with
    | nil =>
      obtain ⟨s, rest, rfl⟩ := List.exists_cons_of_ne_nil hne
      have hs : s.token.isNewline = false := hrest
      simp [significant?, hs]
    | cons s ws ih =>
      obtain ⟨hs, hws⟩ := List.forall_mem_cons.mp hws
      rw [List.cons_append, significant?, if_pos hs, ih hws]
  rw [peekSignificant, rest_facing (by simp [hne]), hfound]
  obtain ⟨s, rest, rfl⟩ := List.exists_cons_of_ne_nil hne
  rfl

theorem textSince_facing :
    (facing (ws.reverse ++ before) rest).textSince before.length =
      Token.joined (ws.map Slot.token) := by
  rw [textSince, index_facing, before_facing]
  simp

theorem ahead_facing (hrest : rest ≠ []) :
    (facing before (ws ++ rest)).ahead ws.length = facing (ws.reverse ++ before) rest := by
  induction ws generalizing before with
  | nil =>
    obtain ⟨s, rest, rfl⟩ := List.exists_cons_of_ne_nil hrest
    rfl
  | cons s ws ih =>
    obtain ⟨t, more, hmore⟩ :=
      List.exists_cons_of_ne_nil (List.append_ne_nil_of_right_ne_nil ws hrest)
    have hstep : (facing before (s :: (ws ++ rest))).ahead (ws.length + 1) =
        (facing (s :: before) (ws ++ rest)).ahead ws.length := by
      rw [hmore]
      rfl
    rw [List.cons_append, List.length_cons, hstep, ih]
    simp

theorem ahead_eq {c : Cursor} (h : c.rest = ws ++ rest) (hrest : rest ≠ []) :
    c.ahead ws.length = facing (ws.reverse ++ c.before) rest := by
  have hahead := @ahead_facing c.before ws rest hrest
  rwa [← h, c.facing_eq] at hahead

end Cursor

/-- Slots that are line ends. There are none of them where a line end is no token. -/
structure LineEnds (newlines : Bool) (slots : List Slot) : Prop where
  isNewline : ∀ s ∈ slots, s.token.isNewline = true
  eq_nil : newlines = false → slots = []

theorem lineEnds_nil (newlines : Bool) : LineEnds newlines [] := ⟨nofun, fun _ => rfl⟩

end ApiDoc.Syntax
