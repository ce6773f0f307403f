import ApiDoc.Proofs.Comment.Source

/-!
# Parsers beside plain comments

A cursor over slots with plain comments (`Cursor.plain`) stands beside the cursor over the slots
themselves. `Parser.Echoes` says of two parsers that the second one, at the cursor beside, does what
the first one does: it returns a value that is related, or reports the same error. No parser looks
at the gap before a token, so every parser echoes itself; where text is written out, the gaps show
(`Written`).
-/

namespace ApiDoc.Syntax

open Text (Position)

/-! ## Tokens -/

/-- The same token, whatever the gap before it. -/
def Token.Respaced (t t' : Token) : Prop := ∃ spaced, t' = { t with spaced }

theorem Slot.respaced_plain (s : Slot) : s.token.Respaced s.plain.token := ⟨_, rfl⟩

/-! ## Cursors -/

namespace Cursor

/-- The cursor at the same place, where doc comments are plain comments. -/
def plain (c : Cursor) : Cursor where
  before := c.before.map Slot.plain
  here := c.here.plain
  after := c.after.map Slot.plain
  index := c.index
  remaining := c.remaining
  length_before := by rw [List.length_map, c.length_before]
  length_after := by rw [List.length_map, c.length_after]

theorem next?_plain (c : Cursor) : c.plain.next? = c.next?.map plain := by
  obtain ⟨before, here, after, index, remaining, hb, ha⟩ := c
  cases after with
  | nil => rfl
  | cons s rest =>
    have heof : here.plain.token.isEof = here.token.isEof := rfl
    simp only [next?, plain, List.map_cons, heof]
    split <;> rfl

theorem next_plain (c : Cursor) : c.plain.next = c.next.plain := by
  rw [next, next?_plain, Option.getD_map, next]

theorem skipWhile_plain {p : Token → Bool} (hp : ∀ t spaced, p { t with spaced } = p t)
    (c : Cursor) : c.plain.skipWhile p = (c.skipWhile p).plain := by
  fun_induction skipWhile p c with
  | case1 c hc hnext =>
    have hend : c.plain.next? = none := by rw [next?_plain, hnext, Option.map_none]
    have hgoes : p c.plain.token = true := (hp _ _).trans hc
    rw [skipWhile, if_pos hgoes]
    split
    · rfl
    · next d hd => cases hend.symm.trans hd
  | case2 c hc d hnext ih =>
    have hgo : c.plain.next? = some d.plain := by rw [next?_plain, hnext, Option.map_some]
    have hgoes : p c.plain.token = true := (hp _ _).trans hc
    rw [skipWhile, if_pos hgoes]
    split
    · next hd => cases hgo.symm.trans hd
    · next e hd =>
      obtain rfl := Option.some.inj (hgo.symm.trans hd)
      exact ih
  | case3 c hc => exact skipWhile_of_not ((hp _ _).trans (Bool.not_eq_true _ ▸ hc))

theorem rest_plain (c : Cursor) : c.plain.rest = c.rest.map Slot.plain := rfl

theorem last_plain (c : Cursor) : c.plain.last = c.last.plain := by
  show (c.after.map Slot.plain).getLast?.getD c.here.plain = _
  rw [List.getLast?_map, last, Option.getD_map]

theorem peek_plain (c : Cursor) (n : Nat) : (c.peek n).Respaced (c.plain.peek n) := by
  have hpeek : c.plain.peek n = (c.rest[n]?.getD c.last).plain.token := by
    rw [peek, rest_plain, List.getElem?_map, last_plain, Option.getD_map]
  rw [hpeek]
  exact Slot.respaced_plain _

theorem facing_plain (slots : List Slot) :
    facing [] (slots.map Slot.plain) = (facing [] slots).plain := by
  cases slots with
  | nil => rfl
  | cons s rest => simp [facing, plain, between]

end Cursor

/-! ## Errors and texts -/

/-- The same error: at the same place, of the same sort and in the same words. -/
structure ParseError.Same (e e' : ParseError) : Prop where
  pos : e'.pos = e.pos
  isLexical : e'.fault.isLexical = e.fault.isLexical
  message : e'.fault.message = e.fault.message

theorem ParseError.Same.refl (e : ParseError) : e.Same e := ⟨rfl, rfl, rfl⟩

/-- The same run of slots, written out beside doc comments and beside plain comments. -/
def Written (slots : List Slot) (text text' : String) : Prop :=
  ∃ run, run <:+: slots.dropLast ∧ text = Token.joined (run.map Slot.token) ∧
    text' = Token.joined (run.map fun s => s.plain.token)

theorem Cursor.written_textSince (c : Cursor) (n : Nat) :
    Written c.slots (c.textSince n) (c.plain.textSince n) := by
  refine ⟨(c.before.take (c.index - n)).reverse, ?_, rfl, ?_⟩
  · have hslots : c.slots.dropLast = c.before.reverse ++ c.rest.dropLast :=
      List.dropLast_append_of_ne_nil (List.cons_ne_nil _ _)
    have hrun : c.before.reverse =
        (c.before.drop (c.index - n)).reverse ++ (c.before.take (c.index - n)).reverse := by
      rw [← List.reverse_append, List.take_append_drop]
    rw [hslots, hrun]
    exact ⟨_, _, rfl⟩
  · show Token.joined (((c.before.map Slot.plain).take _).reverse.map Slot.token) = _
    rw [← List.map_take, ← List.map_reverse, List.map_map]
    rfl

/-! ## Parsers -/

namespace Parser

variable {slots : List Slot} {σ α β γ : Type}

/-- Two parsers end alike: with values that are related, at cursors beside each other, or with the
same error. -/
inductive EndsAlike (slots : List Slot) (R : α → α → Prop) :
    EStateM.Result ParseError Cursor α → EStateM.Result ParseError Cursor α → Prop
  | ok {a a' : α} {d : Cursor} (h : R a a') (hd : d.slots = slots) :
      EndsAlike slots R (.ok a d) (.ok a' d.plain)
  | error {e e' : ParseError} {d d' : Cursor} (h : e.Same e') :
      EndsAlike slots R (.error e d) (.error e' d')

/-- Over `slots`, the second parser does beside plain comments what the first one does. -/
def Echoes (slots : List Slot) (R : α → α → Prop) (p p' : Parser α) : Prop :=
  ∀ c : Cursor, c.slots = slots → EndsAlike slots R (p c) (p' c.plain)

/-- Rounds of a repetition that decide alike. -/
inductive StepsAlike (S : σ → σ → Prop) (R : α → α → Prop) : Step σ α → Step σ α → Prop
  | next {s s' : σ} (h : S s s') : StepsAlike S R (.next s) (.next s')
  | done {a a' : α} (h : R a a') : StepsAlike S R (.done a) (.done a')

namespace Echoes

variable {R : α → α → Prop} {Q : β → β → Prop} {T : γ → γ → Prop} {p p' q q' : Parser α}

theorem pure {a a' : α} (h : R a a') : Echoes slots R (Pure.pure a) (Pure.pure a') :=
  fun _ hc => .ok h hc

theorem throw {e e' : ParseError} (h : e.Same e') :
    Echoes slots R (MonadExcept.throw e) (MonadExcept.throw e') :=
  fun _ _ => .error h

theorem bind {k k' : α → Parser β} (hp : Echoes slots R p p')
    (hk : ∀ a a', R a a' → Echoes slots Q (k a) (k' a')) :
    Echoes slots Q (p >>= k) (p' >>= k') := by
  intro c hc
  have hpc := hp c hc
  generalize hr : p c = r at hpc
  generalize hr' : p' c.plain = r' at hpc
  cases hpc with
  | @ok a a' d ha hd =>
    rw [bind_of_ok hr, bind_of_ok hr']
    exact hk a a' ha d hd
  | @error e e' d d' he =>
    rw [bind_of_error hr, bind_of_error hr']
    exact .error he

/-- A value that is the same in both. -/
theorem same {k k' : α → Parser β} (hp : Echoes slots Eq p p')
    (hk : ∀ a, Echoes slots Q (k a) (k' a)) : Echoes slots Q (p >>= k) (p' >>= k') :=
  .bind hp fun a _ ha => ha ▸ hk a

/-- A token that is the same in both, up to the gap before it. -/
theorem token {p p' : Parser Token} {k k' : Token → Parser β}
    (hp : Echoes slots Token.Respaced p p')
    (hk : ∀ t spaced, Echoes slots Q (k t) (k' { t with spaced })) :
    Echoes slots Q (p >>= k) (p' >>= k') := by
  refine .bind hp ?_
  rintro t _ ⟨spaced, rfl⟩
  exact hk t spaced

theorem get {k k' : Cursor → Parser β}
    (hk : ∀ c, c.slots = slots → Echoes slots Q (k c) (k' c.plain)) :
    Echoes slots Q (MonadState.get >>= k) (MonadState.get >>= k') :=
  fun c hc => hk c hc c hc

theorem ite {b : Prop} [Decidable b] (hp : Echoes slots R p p') (hq : Echoes slots R q q') :
    Echoes slots R (if b then p else q) (if b then p' else q') := by
  split
  · exact hp
  · exact hq

/-- A step that is left out at times, and what comes behind it. -/
theorem guarded {b : Prop} [Decidable b] {p p' : Parser PUnit} {k k' : PUnit → Parser β}
    (hp : Echoes slots Eq p p') (hk : ∀ a, Echoes slots Q (k a) (k' a)) :
    Echoes slots Q (if b then p >>= k else k ⟨⟩) (if b then p' >>= k' else k' ⟨⟩) :=
  .ite (.same hp hk) (hk ⟨⟩)

/-- One of two parts, and what comes behind them. -/
theorem branch {b : Prop} [Decidable b] {k k' : α → Parser β} (hp : Echoes slots R p p')
    (hq : Echoes slots R q q') (hk : ∀ a a', R a a' → Echoes slots Q (k a) (k' a')) :
    Echoes slots Q (if b then p >>= k else q >>= k) (if b then p' >>= k' else q' >>= k') :=
  .ite (.bind hp hk) (.bind hq hk)

/-- A part that may be missing, and what comes behind it. -/
theorem optional {b : Prop} [Decidable b] {f : α → β} {none : β} {k k' : β → Parser γ}
    (hp : Echoes slots R p p') (hf : ∀ a a', R a a' → Q (f a) (f a')) (hnone : Q none none)
    (hk : ∀ a a', Q a a' → Echoes slots T (k a) (k' a')) :
    Echoes slots T (if b then p >>= fun a => Pure.pure (f a) >>= k else Pure.pure none >>= k)
      (if b then p' >>= fun a => Pure.pure (f a) >>= k' else Pure.pure none >>= k') :=
  .ite (.bind hp fun _ _ ha => .bind (.pure (hf _ _ ha)) hk) (.bind (.pure hnone) hk)

/-- Repetitions echo if their rounds do. -/
theorem iterate {S : σ → σ → Prop} {body body' : σ → Parser (Step σ α)}
    (h : ∀ s s', S s s' → Echoes slots (StepsAlike S R) (body s) (body' s')) {s s' : σ}
    (hs : S s s') : Echoes slots R (Parser.iterate s body) (Parser.iterate s' body') := by
  intro c hc
  show EndsAlike slots R (iterateFrom body s c) (iterateFrom body' s' c.plain)
  -- The recursion is that of the first run. The second stands at `c.plain` in every round, so its
  -- rounds move on exactly when those of the first do.
  fun_induction iterateFrom body s c generalizing s' with
  | case1 s c error e hbody =>
    have hround := hbody ▸ h s s' hs c hc
    rw [iterateFrom]
    generalize body' s' c.plain = r' at hround ⊢
    cases hround with
    | error he => exact .error he
  | case2 s c result e hbody =>
    have hround := hbody ▸ h s s' hs c hc
    rw [iterateFrom]
    generalize body' s' c.plain = r' at hround ⊢
    cases hround with
    | ok hstep hd =>
      cases hstep with
      | done ha => exact .ok ha hd
  | case3 s c t e hbody hlt ih =>
    have hround := hbody ▸ h s s' hs c hc
    generalize hr' : body' s' c.plain = r' at hround
    cases hround with
    | ok hstep hd =>
      cases hstep with
      | @next _ t' ht =>
        have hgo : iterateFrom body' s' c.plain = iterateFrom body' t' e.plain :=
          iterate_of_next hr' hlt
        rw [hgo]
        exact ih ht hd
  | case4 s c t e hbody hlt =>
    have hround := hbody ▸ h s s' hs c hc
    generalize hr' : body' s' c.plain = r' at hround
    cases hround with
    | ok hstep hd =>
      cases hstep with
      | next ht =>
        have hstop : iterateFrom body' s' c.plain = .error ⟨e.plain.pos, .stalled⟩ e.plain := by
          rw [iterateFrom, hr']
          exact if_neg hlt
        rw [hstop]
        exact .error (.refl _)

end Echoes

/-! ### Single tokens -/

theorem echoes_peek : Echoes slots Token.Respaced peek peek :=
  fun c hc => .ok c.here.respaced_plain hc

theorem echoes_pos : Echoes slots Eq pos pos := fun _ hc => .ok rfl hc

theorem echoes_bump : Echoes slots Token.Respaced bump bump := by
  intro c hc
  show EndsAlike slots Token.Respaced (.ok c.token c.next) (.ok c.plain.token c.plain.next)
  rw [c.next_plain]
  exact .ok c.here.respaced_plain (c.onward_next.slots_eq.trans hc)

theorem echoes_atPunct (p : Char) : Echoes slots Eq (atPunct p) (atPunct p) :=
  fun _ hc => .ok rfl hc

theorem echoes_atKeyword (word : String) : Echoes slots Eq (atKeyword word) (atKeyword word) :=
  fun _ hc => .ok rfl hc

theorem echoes_eatIf {p : Token → Bool} (hp : ∀ t spaced, p { t with spaced } = p t) :
    Echoes slots Eq (eatIf p) (eatIf p) := by
  intro c hc
  have htoken : p c.plain.token = p c.token := hp _ _
  rw [eatIf_apply, eatIf_apply, htoken, c.next_plain]
  cases p c.token with
  | true => exact .ok rfl (c.onward_next.slots_eq.trans hc)
  | false => exact .ok rfl hc

theorem echoes_eatPunct (p : Char) : Echoes slots Eq (eatPunct p) (eatPunct p) :=
  echoes_eatIf fun _ _ => rfl

theorem echoes_eatKeyword (word : String) : Echoes slots Eq (eatKeyword word) (eatKeyword word) :=
  echoes_eatIf fun _ _ => rfl

theorem echoes_unexpected {R : α → α → Prop} (expected : String) :
    Echoes slots R (unexpected expected) (unexpected expected) := by
  intro c hc
  refine .error ?_
  have heof : c.plain.token.isEof = c.token.isEof := rfl
  rw [Cursor.unexpected, Cursor.unexpected, heof]
  cases c.token.isEof with
  | true => exact ⟨rfl, rfl, rfl⟩
  | false => exact ⟨rfl, rfl, rfl⟩

theorem echoes_expect {p : Token → Bool} (hp : ∀ t spaced, p { t with spaced } = p t)
    (expected : String) : Echoes slots Token.Respaced (expect p expected) (expect p expected) := by
  refine .token echoes_peek fun t spaced => ?_
  rw [hp t spaced]
  exact .ite echoes_bump (echoes_unexpected expected)

theorem echoes_expectPunct (p : Char) :
    Echoes slots Token.Respaced (expectPunct p) (expectPunct p) :=
  echoes_expect (fun _ _ => rfl) _

theorem echoes_expectKeyword (word : String) :
    Echoes slots Token.Respaced (expectKeyword word) (expectKeyword word) :=
  echoes_expect (fun _ _ => rfl) _

theorem echoes_expectName (soft : List String) :
    Echoes slots Token.Respaced (expectName soft) (expectName soft) :=
  echoes_expect (fun _ _ => rfl) _

theorem echoes_skipWhile {p : Token → Bool} (hp : ∀ t spaced, p { t with spaced } = p t) :
    Echoes slots Eq (modify (Cursor.skipWhile p) : Parser Unit) (modify (Cursor.skipWhile p)) := by
  intro c hc
  show EndsAlike slots Eq (.ok () (c.skipWhile p)) (.ok () (c.plain.skipWhile p))
  rw [Cursor.skipWhile_plain hp]
  exact .ok rfl ((c.onward_skipWhile p).slots_eq.trans hc)

theorem echoes_textSince (mark : Nat) :
    Echoes slots (Written slots) (textSince mark) (textSince mark) := by
  refine .same (.get fun c _ => .ite (.throw ⟨rfl, rfl, rfl⟩) (.pure rfl)) fun _ => ?_
  exact .get fun c hc => .pure (hc ▸ c.written_textSince mark)

/-! ### Runs of tokens -/

theorem echoes_bracketRound (start : Token) (spaced : Bool) (due : List Char) :
    Echoes slots (StepsAlike Eq Eq) (bracketRound start due)
      (bracketRound { start with spaced } due) := by
  refine .token echoes_bump fun t spaced => ?_
  have htrack : trackBracket due { t with spaced } = trackBracket due t := rfl
  rw [htrack]
  refine .guarded (.throw ⟨rfl, rfl, rfl⟩) fun _ => ?_
  split
  · exact .throw ⟨rfl, rfl, rfl⟩
  · exact .pure (.done rfl)
  · exact .pure (.next rfl)

theorem echoes_skipBalanced : Echoes slots Eq skipBalanced skipBalanced := by
  refine .token echoes_peek fun start spaced => ?_
  refine .iterate (S := Eq) ?_ rfl
  rintro due _ rfl
  exact echoes_bracketRound start spaced due

theorem echoes_untilRound {stop : Cursor → Bool} (hstop : ∀ c : Cursor, stop c.plain = stop c)
    (s : Unit) : Echoes slots (StepsAlike Eq Eq) (untilRound stop s) (untilRound stop s) := by
  refine .get fun c _ => ?_
  rw [hstop]
  apply Echoes.ite
  · exact .pure (.done rfl)
  apply Echoes.ite
  · exact .same echoes_skipBalanced fun _ => .pure (.next rfl)
  apply Echoes.ite
  · exact .pure (.done rfl)
  · exact .token echoes_bump fun _ _ => .pure (.next rfl)

theorem echoes_skipUntil {stop : Cursor → Bool} (hstop : ∀ c : Cursor, stop c.plain = stop c) :
    Echoes slots Eq (skipUntil stop) (skipUntil stop) :=
  .iterate (S := Eq) (fun s _ _ => echoes_untilRound hstop s) rfl

theorem echoes_atDottedIdent : Echoes slots Eq atDottedIdent atDottedIdent := by
  refine .get fun c _ => .pure ?_
  obtain ⟨spaced, hpeek⟩ := c.peek_plain 1
  rw [hpeek]
  rfl

/-- Two tokens are taken, or none. -/
theorem echoes_twoTokens {test : Bool} {f : Token → σ} (hf : ∀ t spaced, f { t with spaced } = f t)
    {a : α} :
    let round : Parser (Step σ α) := do
      if test then
        let _ ← bump
        let t ← bump
        return .next (f t)
      else return .done a
    Echoes slots (StepsAlike Eq Eq) round round := by
  apply Echoes.ite
  · refine .token echoes_bump fun _ _ => ?_
    refine .token echoes_bump fun t spaced => ?_
    exact .pure (.next (hf t spaced).symm)
  · exact .pure (.done rfl)

theorem echoes_qualifiedName (soft : List String) :
    Echoes slots Eq (qualifiedName soft) (qualifiedName soft) := by
  refine .token (echoes_expectName soft) fun first _ => ?_
  refine .iterate (S := Eq) ?_ rfl
  rintro name _ rfl
  exact .same echoes_atDottedIdent fun _ => echoes_twoTokens fun _ _ => rfl

theorem echoes_angleRound (start : Token) (spaced : Bool) (depth : Nat) :
    Echoes slots (StepsAlike Eq Eq) (angleRound start depth)
      (angleRound { start with spaced } depth) := by
  refine .token echoes_peek fun t _ => ?_
  apply Echoes.ite
  · exact .throw ⟨rfl, rfl, rfl⟩
  apply Echoes.ite
  · exact echoes_unexpected _
  refine .token echoes_bump fun _ _ => ?_
  apply Echoes.ite
  · exact .pure (.done rfl)
  · exact .pure (.next rfl)

theorem echoes_skipAngles : Echoes slots Eq skipAngles skipAngles := by
  refine .token (echoes_expectPunct _) fun start spaced => ?_
  refine .iterate (S := Eq) ?_ rfl
  rintro depth _ rfl
  exact echoes_angleRound start spaced depth

theorem echoes_atDimension : Echoes slots Eq atDimension atDimension := by
  refine .get fun c _ => .pure ?_
  obtain ⟨spaced, hpeek⟩ := c.peek_plain 1
  rw [hpeek]
  rfl

theorem echoes_dimensions : Echoes slots Eq dimensions dimensions := by
  refine .iterate (S := Eq) ?_ rfl
  rintro dims _ rfl
  exact .same echoes_atDimension fun _ => echoes_twoTokens fun _ _ => rfl

theorem echoes_skipClassType (soft : List String) :
    Echoes slots Eq (skipClassType soft) (skipClassType soft) := by
  refine .token (echoes_expectName soft) fun _ _ => ?_
  refine .iterate (S := Eq) (fun _ _ _ => ?_) rfl
  refine .same (echoes_atPunct '<') fun _ => ?_
  refine .guarded echoes_skipAngles fun _ => ?_
  exact .same echoes_atDottedIdent fun _ => echoes_twoTokens fun _ _ => rfl

theorem echoes_typeText (primitives soft : List String) :
    Echoes slots (Written slots) (typeText primitives soft) (typeText primitives soft) := by
  refine .get fun c _ => ?_
  refine .token echoes_peek fun t _ => ?_
  have hdims : ∀ _ : PUnit, Echoes slots (Written slots)
      (do let _ ← dimensions; textSince c.index) (do let _ ← dimensions; textSince c.index) :=
    fun _ => .same echoes_dimensions fun _ => echoes_textSince _
  apply Echoes.ite
  · exact .token echoes_bump fun _ _ => hdims ⟨⟩
  · exact .same (echoes_skipClassType soft) hdims

end Parser

end ApiDoc.Syntax
