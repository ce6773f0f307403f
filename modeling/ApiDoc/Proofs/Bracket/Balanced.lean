import ApiDoc.Proofs.Syntax.Facing

/-!
# Balanced runs

Brackets match in a run, in kind and in nesting: `Balanced`. Runs are looked at as slots of a cursor
and as words of an abstract file, so the notion takes the token of an item as a parameter, and
`balanced_map` carries it from one to the other.

* Over a balanced part, the brackets that are due stay due (`iterate_bracketRound`). So a bracketed
  run is taken whole (`skipBalanced_facing`).
* A balanced run is passed over in search of a token, if none outside its brackets is what is looked
  for (`skipUntil_facing`).
-/

namespace ApiDoc.Syntax

open ApiDoc.Syntax.Parser
open Cursor (facing)

/-- The brackets that have to match in a run. -/
inductive Bracket where
  | round
  | square
  | curly

namespace Bracket

def opening : Bracket → Char
  | round => '('
  | square => '['
  | curly => '{'

def closing : Bracket → Char
  | round => ')'
  | square => ']'
  | curly => '}'

end Bracket

/-- Brackets match in the items, and `P` holds of the items outside brackets. The source does not
end among them. -/
inductive Balanced {α : Type} (token : α → Token) : (P : α → Prop) → List α → Prop
  | nil {P : α → Prop} : Balanced token P []
  | single {P : α → Prop} {x : α} {xs : List α} (hopens : (token x).opens = false)
      (hcloses : (token x).closes = false) (heof : (token x).isEof = false) (hx : P x)
      (hxs : Balanced token P xs) : Balanced token P (x :: xs)
  | group {P : α → Prop} {b : Bracket} {o c : α} {inside xs : List α}
      (ho : (token o).isPunct b.opening = true) (hc : (token c).isPunct b.closing = true)
      (hinside : Balanced token (fun _ => True) inside) (hxs : Balanced token P xs) :
      Balanced token P (o :: (inside ++ c :: xs))

section

variable {α β : Type} {token : α → Token} {P Q : α → Prop} {xs ys : List α}

theorem Balanced.append (hxs : Balanced token P xs) (hys : Balanced token P ys) :
    Balanced token P (xs ++ ys) := by
  induction hxs with
  | nil => exact hys
  | single hopens hcloses heof hx _ ih => exact .single hopens hcloses heof hx (ih hys)
  | group ho hc hinside _ _ ih =>
    rw [List.cons_append, List.append_assoc, List.cons_append]
    exact .group ho hc hinside (ih hys)

theorem Balanced.imp (h : Balanced token P xs) (hPQ : ∀ x ∈ xs, P x → Q x) :
    Balanced token Q xs := by
  induction h with
  | nil => exact .nil
  | single hopens hcloses heof hx _ ih =>
    obtain ⟨hfirst, hmore⟩ := List.forall_mem_cons.mp hPQ
    exact .single hopens hcloses heof (hfirst hx) (ih hmore)
  | group ho hc hinside _ _ ih =>
    refine .group ho hc hinside (ih fun x hx => hPQ x ?_)
    exact List.mem_cons_of_mem _ (List.mem_append_right _ (List.mem_cons_of_mem _ hx))

/-- Only the tokens of items count. -/
theorem balanced_map {f : β → α} {zs : List β} :
    Balanced token P (zs.map f) ↔ Balanced (fun z => token (f z)) (fun z => P (f z)) zs := by
  constructor
  · intro h
    -- the list is taken apart as the run of images was put together
    generalize hzs : zs.map f = xs at h
    induction h generalizing zs with
    | nil =>
      rw [List.map_eq_nil_iff.mp hzs]
      exact .nil
    | single hopens hcloses heof hx _ ih =>
      obtain ⟨z, zs, rfl, rfl, hrest⟩ := List.map_eq_cons_iff.mp hzs
      exact .single hopens hcloses heof hx (ih hrest)
    | group ho hc hinside _ ihinside ih =>
      obtain ⟨o, zs, rfl, rfl, hrest⟩ := List.map_eq_cons_iff.mp hzs
      obtain ⟨inside, zs, rfl, hin, hrest⟩ := List.map_eq_append_iff.mp hrest
      obtain ⟨c, zs, rfl, rfl, hmore⟩ := List.map_eq_cons_iff.mp hrest
      exact .group ho hc (ihinside hin) (ih hmore)
  · intro h
    generalize htoken : (fun z => token (f z)) = token' at h
    generalize hP : (fun z => P (f z)) = P' at h
    induction h generalizing P with
    | nil => exact .nil
    | single hopens hcloses heof hx _ ih =>
      subst htoken hP
      exact .single hopens hcloses heof hx (ih rfl)
    | group ho hc hinside _ ihinside ih =>
      subst htoken hP
      rw [List.map_cons, List.map_append, List.map_cons]
      exact .group ho hc (ihinside rfl) (ih rfl)

end

/-! ## Tokens that are brackets -/

namespace Token

variable {t : Token} {b b' : Bracket}

theorem exists_opening (h : t.opens = true) : ∃ b : Bracket, t.isPunct b.opening = true := by
  simp only [opens, Bool.or_eq_true] at h
  rcases h with (h | h) | h
  · exact ⟨.round, h⟩
  · exact ⟨.square, h⟩
  · exact ⟨.curly, h⟩

theorem exists_closing (h : t.closes = true) : ∃ b : Bracket, t.isPunct b.closing = true := by
  simp only [closes, Bool.or_eq_true] at h
  rcases h with (h | h) | h
  · exact ⟨.round, h⟩
  · exact ⟨.square, h⟩
  · exact ⟨.curly, h⟩

theorem opens_of_opening (h : t.isPunct b.opening = true) : t.opens = true := by
  cases b <;> simp_all [opens, Bracket.opening]

theorem closes_of_closing (h : t.isPunct b.closing = true) : t.closes = true := by
  cases b <;> simp_all [closes, Bracket.closing]

theorem closes_of_opening (h : t.isPunct b.opening = true) : t.closes = false := by
  have hne : b.opening ≠ ')' ∧ b.opening ≠ ']' ∧ b.opening ≠ '}' := by cases b <;> decide
  rw [closes, isPunct_ne h hne.1, isPunct_ne h hne.2.1, isPunct_ne h hne.2.2]
  rfl

theorem opens_of_closing (h : t.isPunct b.closing = true) : t.opens = false := by
  have hne : b.closing ≠ '(' ∧ b.closing ≠ '[' ∧ b.closing ≠ '{' := by cases b <;> decide
  rw [opens, isPunct_ne h hne.1, isPunct_ne h hne.2.1, isPunct_ne h hne.2.2]
  rfl

/-- A token closes one kind of bracket at most. -/
theorem eq_of_closing (h : t.isPunct b.closing = true) (h' : t.isPunct b'.closing = true) :
    b = b' := by
  have hchar : b.closing = b'.closing := by
    refine Decidable.byContradiction fun hne => ?_
    rw [isPunct_ne h hne] at h'
    cases h'
  cases b <;> cases b' <;> first | rfl | exact absurd hchar (by decide)

end Token

/-! ## Brackets that are due -/

section

variable {due due' : List Char} {b : Bracket} {t start : Token} {s : Slot}
  {before rest : List Slot}

theorem trackBracket_other (hopens : t.opens = false) (hcloses : t.closes = false)
    (hdue : due ≠ []) : trackBracket due t = .ok due := by
  unfold trackBracket
  by_cases hkind : t.kind = .punct
  · have hclosing : Parser.closing? t.text = none := by
      simp [Token.opens, Token.isPunct, hkind, Char.toString] at hopens
      simp [Parser.closing?, hopens]
    rw [if_neg (not_not_intro hkind), hclosing]
    simp [hcloses]
  · rw [if_pos hkind, if_neg (by simpa using hdue)]

theorem trackBracket_of_opens (h : t.isPunct b.opening = true) :
    trackBracket due t = .ok (b.closing :: due) := by
  obtain ⟨hkind, htext⟩ : t.kind = .punct ∧ t.text = b.opening.toString := by
    simpa [Token.isPunct] using h
  rw [trackBracket, if_neg (not_not_intro hkind), htext]
  cases b <;> rfl

/-- A bracket that closes has to be the one that is due first. -/
theorem trackBracket_of_closes {c : Char} (h : t.isPunct b.closing = true) :
    trackBracket (c :: due) t =
      if c = b.closing then .ok due else .error (.wrongBracket b.closing c) := by
  obtain ⟨hkind, htext⟩ : t.kind = .punct ∧ t.text = b.closing.toString := by
    simpa [Token.isPunct] using h
  have hnone : Parser.closing? t.text = none := by
    rw [htext]
    cases b <;> rfl
  have hcloses : t.closes = true := by
    cases b <;> simp_all [Token.closes, Bracket.closing]
  have hfound : t.text.toList = [b.closing] := by
    rw [htext]
    exact String.toList_singleton _
  unfold trackBracket
  rw [if_neg (not_not_intro hkind), hnone]
  simp [hcloses, hfound]

theorem bracketRound_next (hs : s.token.isEof = false) (hrest : rest ≠ [])
    (h : trackBracket due s.token = .ok due') (hdue : due' ≠ []) :
    bracketRound start due (facing before (s :: rest)) =
      .ok (.next due') (facing (s :: before) rest) := by
  rw [bracketRound, bump_bind, Cursor.token_facing, headToken_cons, hs,
    Cursor.next_facing hs hrest]
  simp only [h]
  cases due' with
  | nil => exact absurd rfl hdue
  | cons c due' => rfl

theorem bracketRound_done (hs : s.token.isEof = false) (hrest : rest ≠ [])
    (h : trackBracket due s.token = .ok []) :
    bracketRound start due (facing before (s :: rest)) =
      .ok (.done ()) (facing (s :: before) rest) := by
  rw [bracketRound, bump_bind, Cursor.token_facing, headToken_cons, hs,
    Cursor.next_facing hs hrest]
  simp only [h]
  rfl

/-- Brackets that are due stay due over a balanced run. -/
theorem iterate_bracketRound {P : Slot → Prop} {inside : List Slot}
    (h : Balanced Slot.token P inside) (hdue : due ≠ []) (hrest : rest ≠ []) :
    iterate due (bracketRound start) (facing before (inside ++ rest)) =
      iterate due (bracketRound start) (facing (inside.reverse ++ before) rest) := by
  induction h generalizing due before rest with
  | nil => rfl
  | @single P s ss hopens hcloses heof hs hss ih =>
    have hne : ss ++ rest ≠ [] := by simp [hrest]
    rw [List.cons_append, iterate_of_next (bracketRound_next heof hne
      (trackBracket_other hopens hcloses hdue) hdue) (Cursor.remaining_facing_lt hne),
      ih hdue hrest]
    simp
  | @group P b o c inside ss ho hc hinside hss ihinside ihss =>
    -- the closing bracket of the group is due on top of the others up to that bracket
    have hclosing : trackBracket (b.closing :: due) c.token = .ok due := by
      rw [trackBracket_of_closes hc, if_pos rfl]
    have hne : inside ++ c :: (ss ++ rest) ≠ [] := by simp
    have hne' : ss ++ rest ≠ [] := by simp [hrest]
    rw [List.cons_append, List.append_assoc, List.cons_append,
      iterate_of_next (bracketRound_next (Token.isEof_of_isPunct ho) hne
        (trackBracket_of_opens ho) (List.cons_ne_nil _ _)) (Cursor.remaining_facing_lt hne),
      ihinside (List.cons_ne_nil _ _) (List.cons_ne_nil _ _),
      iterate_of_next (bracketRound_next (Token.isEof_of_isPunct hc) hne' hclosing hdue)
        (Cursor.remaining_facing_lt hne'), ihss hdue hrest]
    simp

/-- A bracketed run is taken whole. -/
theorem skipBalanced_facing {b : Bracket} {o c : Slot} {inside : List Slot}
    (ho : o.token.isPunct b.opening = true) (hc : c.token.isPunct b.closing = true)
    (hinside : Balanced Slot.token (fun _ => True) inside) (hrest : rest ≠ []) :
    skipBalanced (facing before (o :: (inside ++ c :: rest))) =
      .ok () (facing (c :: (inside.reverse ++ o :: before)) rest) := by
  have hne : inside ++ c :: rest ≠ [] := by simp
  show iterate [] (bracketRound o.token) (facing before (o :: (inside ++ c :: rest))) = _
  rw [iterate_of_next (bracketRound_next (Token.isEof_of_isPunct ho) hne
      (trackBracket_of_opens ho) (List.cons_ne_nil _ _)) (Cursor.remaining_facing_lt hne),
    iterate_bracketRound hinside (List.cons_ne_nil _ _) (List.cons_ne_nil _ _)]
  refine iterate_of_done (bracketRound_done (Token.isEof_of_isPunct hc) hrest ?_)
  rw [trackBracket_of_closes hc, if_pos rfl]

end

/-! ## Up to a token -/

section

variable {p : Token → Bool} {P : Slot → Prop} {ws : List Slot}

/-- A run is passed over, if `p` holds of none of its tokens outside brackets. -/
theorem skipUntil_facing (h : Balanced Slot.token P ws) (hslots : ∀ s, P s → p s.token = false)
    (hopening : ∀ (t : Token) (b : Bracket), t.isPunct b.opening = true → p t = false)
    (hrest : rest ≠ []) :
    skipUntil (fun c => p c.token) (facing before (ws ++ rest)) =
      skipUntil (fun c => p c.token) (facing (ws.reverse ++ before) rest) := by
  unfold skipUntil
  induction h generalizing before with
  | nil => rfl
  | @single P s ss hopens hcloses heof hs hss ih =>
    have hne : ss ++ rest ≠ [] := by simp [hrest]
    -- a slot outside brackets is one round, and so is a whole group
    have hround : untilRound (fun c => p c.token) () (facing before (s :: (ss ++ rest))) =
        .ok (.next ()) (facing (s :: before) (ss ++ rest)) := by
      rw [untilRound, get_bind, Cursor.token_facing, headToken_cons, heof, hslots s hs, hopens,
        hcloses]
      show (bump >>= fun _ => pure (Step.next ())) _ = _
      rw [bump_bind, Cursor.next_facing heof hne]
      rfl
    rw [List.cons_append, iterate_of_next hround (Cursor.remaining_facing_lt hne), ih hslots]
    simp
  | @group P b o c inside ss ho hc hinside hss _ ih =>
    have hne : ss ++ rest ≠ [] := by simp [hrest]
    have hopens : o.token.opens = true := Token.opens_of_opening ho
    have hround : untilRound (fun c => p c.token) ()
        (facing before (o :: (inside ++ c :: (ss ++ rest)))) =
        .ok (.next ()) (facing (c :: (inside.reverse ++ o :: before)) (ss ++ rest)) := by
      rw [untilRound, get_bind, Cursor.token_facing, headToken_cons, Token.isEof_of_isPunct ho,
        hopening o.token b ho, hopens]
      show (skipBalanced >>= fun _ => pure (Step.next ())) _ = _
      rw [bind_of_ok (skipBalanced_facing ho hc hinside hne)]
      rfl
    have hlt : (facing (c :: (inside.reverse ++ o :: before)) (ss ++ rest)).remaining <
        (facing before (o :: (inside ++ c :: (ss ++ rest)))).remaining := by
      simp only [Cursor.remaining_facing, List.length_cons, List.length_append]
      omega
    rw [List.cons_append, List.append_assoc, List.cons_append, iterate_of_next hround hlt,
      ih hslots]
    simp

theorem skipUntil_stop (h : p (headToken rest) = true) :
    skipUntil (fun c => p c.token) (facing before rest) = .ok () (facing before rest) := by
  unfold skipUntil
  refine iterate_of_done ?_
  rw [untilRound, get_bind, Cursor.token_facing, h, Bool.or_true]
  rfl

theorem skipUntil_closing {b : Bracket} (h : (headToken rest).isPunct b.closing = true) :
    skipUntil (fun c => p c.token) (facing before rest) = .ok () (facing before rest) := by
  unfold skipUntil
  refine iterate_of_done ?_
  rw [untilRound, get_bind, Cursor.token_facing, Token.opens_of_closing h,
    Token.closes_of_closing h]
  split <;> rfl

end

end ApiDoc.Syntax
