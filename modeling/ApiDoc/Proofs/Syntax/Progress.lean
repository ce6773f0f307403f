import ApiDoc.Proofs.Syntax.Bounds
import ApiDoc.Syntax.Groovy

/-!
# Parsers get on

Two faults would be the parser's own: a repetition that goes on without using up a token, and a mark
ahead of the cursor. `Parser.Runs track mark p reach` says that `p`, from any place at or behind
`mark`, has neither, and that with the result `a` it comes to slot `reach a` at least.

* It passes through sequences and choices (`Runs.bind`, `Runs.ite`), and a test of the current token
  fixes the place for what comes behind it (`Runs.look`).
* It passes to a repetition whose rounds get one slot further whenever they go on (`Runs.iterate`).
  The mark of a round is where the round starts, so a round is looked at for every mark.
* From there it is followed through the grammar, one construct after the other: `mark + 1` is
  written where a construct takes at least one token.

A parser that runs and succeeds leaves the slots as they are (`Runs.slots_eq`).
-/

namespace ApiDoc.Syntax

namespace Parser

/-- From every place of `track` at or behind slot `mark`, the parser comes to a place at or behind
slot `reach a` with a result `a`, or finds a fault of the source. -/
def Runs {α : Type} (track : Track) (mark : Nat) (p : Parser α) (reach : α → Nat) : Prop :=
  ∀ c : Cursor, c.slots = track.slots → mark ≤ c.index →
    match p c with
    | .ok a d => d.slots = track.slots ∧ reach a ≤ d.index
    | .error e _ => e.fault.isInternal = false

/-- How far a round of a repetition has to come: it goes on one slot further at least, and stops
`least` slots further at least. -/
def Step.reach {σ α : Type} (mark least : Nat) : Step σ α → Nat
  | .next _ => mark + 1
  | .done _ => mark + least

namespace Runs

variable {σ α β γ : Type} {track : Track} {mark mark' : Nat} {p q : Parser α} {k : α → Parser β}
  {reach reach' : α → Nat} {goal : β → Nat}

theorem pure {a : α} (h : reach a ≤ mark) : Runs track mark (Pure.pure a) reach :=
  fun _ hc hmark => ⟨hc, Nat.le_trans h hmark⟩

theorem throw {e : ParseError} (h : e.fault.isInternal = false) :
    Runs track mark (MonadExcept.throw e) reach :=
  fun _ _ _ => h

theorem throw_bind {e : ParseError} (h : e.fault.isInternal = false) :
    Runs track mark (MonadExcept.throw e >>= k) goal :=
  fun _ _ _ => h

theorem mono (h : Runs track mark p reach) (hmark : mark ≤ mark')
    (hreach : ∀ a, reach' a ≤ reach a) : Runs track mark' p reach' := by
  intro c hc hmark'
  have hrun := h c hc (Nat.le_trans hmark hmark')
  split at hrun
  · exact ⟨hrun.1, Nat.le_trans (hreach _) hrun.2⟩
  · exact hrun

/-- A parser that succeeds leaves the slots as they are. -/
theorem slots_eq (h : Runs track 0 p reach) {c d : Cursor} {a : α} (hrun : p c = .ok a d)
    (hc : c.slots = track.slots) : d.slots = track.slots := by
  have hresult := h c hc (Nat.zero_le _)
  rw [hrun] at hresult
  exact hresult.1

theorem pure_bind {a : α} (hk : Runs track mark (k a) goal) :
    Runs track mark (Pure.pure a >>= k) goal :=
  hk

/-- Nothing needs to be known of how far a parser comes. -/
theorem stay (h : Runs track mark p fun _ => mark + 1) : Runs track mark p fun _ => mark :=
  h.mono (Nat.le_refl _) fun _ => Nat.le_succ _

theorem bind (hp : Runs track mark p reach) (hk : ∀ a, Runs track (reach a) (k a) goal) :
    Runs track mark (p >>= k) goal := by
  intro c hc hmark
  have hrun := hp c hc hmark
  show match EStateM.bind p k c with
    | .ok b d => d.slots = track.slots ∧ goal b ≤ d.index
    | .error e _ => e.fault.isInternal = false
  unfold EStateM.bind
  cases h : p c with
  | ok a d =>
    rw [h] at hrun
    exact hk a d hrun.1 hrun.2
  | error e d =>
    rw [h] at hrun
    exact hrun

theorem ite {b : Prop} [Decidable b] (hp : Runs track mark p reach)
    (hq : Runs track mark q reach) : Runs track mark (if b then p else q) reach := by
  split
  · exact hp
  · exact hq

/-- A step that is left out at times, and what comes behind it. -/
theorem guarded {b : Prop} [Decidable b] {p : Parser PUnit} {k : PUnit → Parser β}
    (hp : Runs track mark p fun _ => mark) (hk : ∀ a, Runs track mark (k a) goal) :
    Runs track mark (if b then p >>= k else k ⟨⟩) goal :=
  .ite (.bind hp hk) (hk ⟨⟩)

/-- One of two parts, and what comes behind them. -/
theorem branch {b : Prop} [Decidable b] (hp : Runs track mark p reach)
    (hq : Runs track mark q reach) (hk : ∀ a, Runs track (reach a) (k a) goal) :
    Runs track mark (if b then p >>= k else q >>= k) goal :=
  .ite (.bind hp hk) (.bind hq hk)

/-- A part that may be missing, and what comes behind it. -/
theorem optional {b : Prop} [Decidable b] {f : α → β} {none : β} {k : β → Parser γ}
    {goal : γ → Nat} (hp : Runs track mark p fun _ => mark)
    (hk : ∀ a, Runs track mark (k a) goal) :
    Runs track mark (if b then p >>= fun a => Pure.pure (f a) >>= k else Pure.pure none >>= k)
      goal :=
  .ite (.bind hp fun _ => .pure_bind (hk _)) (.pure_bind (hk _))

/-- A parser that only looks. What follows it starts where it looked. -/
theorem look {f : Cursor → α} (hp : ∀ c, p c = .ok (f c) c)
    (hk : ∀ c : Cursor, c.slots = track.slots → mark ≤ c.index →
      Runs track c.index (k (f c)) goal) :
    Runs track mark (p >>= k) goal := by
  intro c hc hmark
  rw [bind_of_ok (hp c)]
  exact hk c hc hmark c hc (Nat.le_refl _)

theorem get {k : Cursor → Parser β}
    (hk : ∀ c : Cursor, c.slots = track.slots → mark ≤ c.index → Runs track c.index (k c) goal) :
    Runs track mark (MonadState.get >>= k) goal :=
  look (fun _ => rfl) hk

theorem of_modify {f : Cursor → Cursor} (h : ∀ c : Cursor, c.Onward (f c)) :
    Runs track mark (modify f : Parser PUnit) fun _ => mark :=
  fun c hc hmark => ⟨(h c).slots_eq.trans hc, Nat.le_trans hmark (h c).index_le⟩

/-- A repetition has no fault of its own if every round that goes on uses up a token. -/
theorem iterate_least {body : σ → Parser (Step σ α)} {least : Nat}
    (h : ∀ mark s, Runs track mark (body s) (Step.reach mark least)) (s : σ) :
    Runs track mark (Parser.iterate s body) fun _ => mark + least := by
  intro c hc hmark
  show match iterateFrom body s c with
    | .ok _ d => d.slots = track.slots ∧ mark + least ≤ d.index
    | .error e _ => e.fault.isInternal = false
  fun_induction iterateFrom body s c with
  | case1 s c e d hbody =>
    have hrun := h c.index s c hc (Nat.le_refl _)
    rwa [hbody] at hrun
  | case2 s c a d hbody =>
    have hrun := h mark s c hc hmark
    rwa [hbody] at hrun
  | case3 s c s' d hbody hlt ih =>
    have hrun := h c.index s c hc (Nat.le_refl _)
    rw [hbody] at hrun
    exact ih hrun.1 (Nat.le_trans hmark (Nat.le_of_succ_le hrun.2))
  | case4 s c s' d hbody hlt =>
    -- Going on, the round has come one slot further, so that fewer remain.
    have hrun := h c.index s c hc (Nat.le_refl _)
    rw [hbody] at hrun
    have hnext : c.index + 1 ≤ d.index := hrun.2
    have hlength := congrArg List.length (hrun.1.trans hc.symm)
    rw [d.length_slots, c.length_slots] at hlength
    omega

theorem iterate {body : σ → Parser (Step σ α)}
    (h : ∀ mark s, Runs track mark (body s) (Step.reach mark 0)) (s : σ) :
    Runs track mark (Parser.iterate s body) fun _ => mark :=
  iterate_least h s

end Runs

/-! ## Tokens -/

section

variable {track : Track} {mark : Nat}

theorem runs_peek : Runs track mark peek fun _ => mark := fun _ hc hmark => ⟨hc, hmark⟩

theorem runs_pos : Runs track mark pos fun _ => mark := fun _ hc hmark => ⟨hc, hmark⟩

theorem runs_atPunct (p : Char) : Runs track mark (atPunct p) fun _ => mark :=
  fun _ hc hmark => ⟨hc, hmark⟩

theorem runs_atKeyword (word : String) : Runs track mark (atKeyword word) fun _ => mark :=
  fun _ hc hmark => ⟨hc, hmark⟩

/-- Taking a token moves the cursor unless the source has ended. -/
theorem runs_bump : Runs track mark bump fun t => if t.isEof then mark else mark + 1 := by
  intro c hc hmark
  refine ⟨c.onward_next.slots_eq.trans hc, ?_⟩
  show (if c.token.isEof then mark else mark + 1) ≤ c.next.index
  split
  · exact Nat.le_trans hmark c.onward_next.index_le
  · next heof =>
    rw [Track.index_next hc (Bool.eq_false_iff.2 heof)]
    omega

/-- Taking a token that is known. -/
theorem runs_bump_of {c : Cursor} (hc : c.slots = track.slots) (heof : c.token.isEof = false) :
    Runs track c.index bump fun _ => c.index + 1 := by
  intro d hd hle
  refine ⟨d.onward_next.slots_eq.trans hd, ?_⟩
  rcases Nat.lt_or_eq_of_le hle with hlt | heq
  · exact Nat.le_trans hlt d.onward_next.index_le
  · cases Cursor.eq_of_slots_eq (hc.trans hd.symm) heq
    exact Nat.le_of_eq (Track.index_next hc heof).symm

theorem runs_take : Runs track mark bump fun _ => mark :=
  runs_bump.mono (Nat.le_refl _) fun t => by split <;> omega

theorem runs_eatIf (p : Token → Bool) : Runs track mark (eatIf p) fun _ => mark := by
  intro c hc hmark
  rw [eatIf_apply]
  cases p c.token with
  | true => exact ⟨c.onward_next.slots_eq.trans hc, Nat.le_trans hmark c.onward_next.index_le⟩
  | false => exact ⟨hc, hmark⟩

theorem runs_eatPunct (p : Char) : Runs track mark (eatPunct p) fun _ => mark := runs_eatIf _

theorem isInternal_unexpected (c : Cursor) (expected : String) :
    (c.unexpected expected).fault.isInternal = false := by
  unfold Cursor.unexpected
  split
  · rfl
  · rfl

theorem runs_unexpected {α : Type} {reach : α → Nat} (expected : String) :
    Runs track mark (unexpected expected : Parser α) reach :=
  fun c _ _ => isInternal_unexpected c expected

theorem runs_unexpected_bind {α β : Type} {k : α → Parser β} {goal : β → Nat}
    (expected : String) : Runs track mark (unexpected expected >>= k) goal :=
  fun c _ _ => isInternal_unexpected c expected

theorem runs_expect {p : Token → Bool} (h : ∀ t, p t = true → t.isEof = false)
    (expected : String) : Runs track mark (expect p expected) fun _ => mark + 1 := by
  refine .look (f := Cursor.token) (fun _ => rfl) fun c hc hmark => ?_
  split
  · next hp => exact (runs_bump_of hc (h _ hp)).mono (Nat.le_refl _) fun _ => by omega
  · exact runs_unexpected _

theorem runs_expectPunct (p : Char) : Runs track mark (expectPunct p) fun _ => mark + 1 :=
  runs_expect (fun _ => Token.isEof_of_isPunct) _

theorem runs_expectKeyword (word : String) :
    Runs track mark (expectKeyword word) fun _ => mark + 1 :=
  runs_expect (fun _ => Token.isEof_of_isKeyword) _

theorem runs_expectName (soft : List String) :
    Runs track mark (expectName soft) fun _ => mark + 1 :=
  runs_expect (fun _ => Token.isEof_of_isName) _

/-- At the end of a line, passing over line ends gets on. -/
theorem runs_skipNewlines_of {c : Cursor} (hc : c.slots = track.slots)
    (hline : c.token.isNewline = true) :
    Runs track c.index skipNewlines fun _ => c.index + 1 := by
  intro d hd hle
  have honward := Cursor.onward_skipWhile Token.isNewline d
  refine ⟨honward.slots_eq.trans hd, ?_⟩
  rcases Nat.lt_or_eq_of_le hle with hlt | heq
  · exact Nat.le_trans hlt honward.index_le
  · cases Cursor.eq_of_slots_eq (hc.trans hd.symm) heq
    have heof : c.token.isEof = false := Token.isEof_of_kind (by simp_all [Token.isNewline])
    calc c.index + 1 = c.next.index := (Track.index_next hc heof).symm
      _ ≤ (c.next.skipWhile Token.isNewline).index := (Cursor.onward_skipWhile _ _).index_le
      _ = (c.skipWhile Token.isNewline).index := by rw [Cursor.skipWhile_of hline]

/-! ### Marks -/

theorem runs_textSince {start : Nat} (h : start ≤ mark) :
    Runs track mark (textSince start) fun _ => mark := by
  intro c hc hmark
  rw [textSince_apply (Nat.le_trans h hmark)]
  exact ⟨hc, hmark⟩

theorem runs_rewind {start : Nat} (h : start ≤ mark) :
    Runs track mark (rewind start) fun _ => start := by
  intro c hc hmark
  have hle : start ≤ c.index := Nat.le_trans h hmark
  rw [rewind_apply hle]
  exact ⟨(c.slots_moveTo start).trans hc, Nat.le_of_eq (Cursor.index_moveTo_of_le hle).symm⟩

theorem runs_succeeds {α : Type} {p : Parser α} (hp : Runs track mark p fun _ => mark)
    (hforward : p.Forward) : Runs track mark (succeeds p) fun _ => mark := by
  intro c hc hmark
  have hrun := hp c hc hmark
  have hstop := hforward c
  unfold succeeds
  unfold stop at hstop
  cases h : p c with
  | ok a d =>
    rw [h] at hrun
    exact hrun
  | error e d =>
    rw [h] at hrun hstop
    simp only [hrun, Bool.false_eq_true, if_false]
    exact ⟨hstop.slots_eq.trans hc, Nat.le_trans hmark hstop.index_le⟩

theorem runs_lookahead {α : Type} {p : Parser α} (hp : ∀ mark, Runs track mark p fun _ => mark) :
    Runs track mark (lookahead p) fun _ => mark := by
  refine .get fun c _ hmark => ?_
  refine .bind (hp c.index) fun a => ?_
  refine .bind (runs_rewind (Nat.le_refl _)) fun _ => ?_
  exact .pure hmark

/-! ## Runs of tokens -/

theorem isInternal_of_trackBracket {due : List Char} {t : Token} {fault : Fault}
    (h : trackBracket due t = .error fault) : fault.isInternal = false := by
  unfold trackBracket at h
  grind [Fault.isInternal]

theorem runs_bracketRound (start : Token) (due : List Char) :
    Runs track mark (bracketRound start due) (Step.reach mark 1) := by
  refine .bind runs_bump fun t => ?_
  cases heof : t.isEof with
  | true => exact .throw_bind rfl
  | false =>
    -- A token was taken, so every way to go on is one slot further.
    show Runs track (mark + 1) _ _
    split
    · next htrack => exact .throw (isInternal_of_trackBracket htrack)
    · exact .pure (Nat.le_refl _)
    · exact .pure (Nat.le_refl _)

theorem runs_skipBalanced : Runs track mark skipBalanced fun _ => mark + 1 := by
  refine .bind runs_peek fun start => ?_
  exact .iterate_least (fun _ due => runs_bracketRound start due) []

theorem runs_untilRound (stop : Cursor → Bool) (s : Unit) :
    Runs track mark (untilRound stop s) (Step.reach mark 0) := by
  refine .get fun c hc hmark => ?_
  split
  · exact .pure hmark
  · next hstop =>
    have heof : c.token.isEof = false := by simp_all
    apply Runs.ite
    · refine .bind runs_skipBalanced fun _ => ?_
      exact .pure (Nat.succ_le_succ hmark)
    · apply Runs.ite
      · exact .pure hmark
      · refine .bind (runs_bump_of hc heof) fun _ => ?_
        exact .pure (Nat.succ_le_succ hmark)

theorem runs_skipUntil (stop : Cursor → Bool) :
    Runs track mark (skipUntil stop) fun _ => mark :=
  .iterate (fun _ => runs_untilRound stop) ()

/-- A round that goes on behind two tokens, the first of which is known to be punctuation. -/
theorem runs_bump_bump {σ α : Type} {c : Cursor} {p : Char} {f : Token → σ}
    (hc : c.slots = track.slots) (hp : c.token.isPunct p = true) (hmark : mark ≤ c.index) :
    Runs track c.index (do
      let _ ← bump
      let second ← bump
      return (.next (f second) : Step σ α)) (Step.reach mark 0) := by
  refine .bind (runs_bump_of hc (Token.isEof_of_isPunct hp)) fun _ => ?_
  refine .bind runs_take fun second => ?_
  exact .pure (Nat.succ_le_succ hmark)

theorem runs_dotted {σ α : Type} {f : Token → σ} {a : α} :
    Runs track mark (do
      if ← atDottedIdent then
        let _ ← bump
        let segment ← bump
        return .next (f segment)
      else return .done a) (Step.reach mark 0) := by
  refine .look (p := atDottedIdent) (fun _ => rfl) fun c hc hmark => ?_
  split
  · next hdot => exact runs_bump_bump hc (Bool.and_eq_true_iff.1 hdot).1 hmark
  · exact .pure hmark

theorem runs_qualifiedName (soft : List String) :
    Runs track mark (qualifiedName soft) fun _ => mark + 1 := by
  refine .bind (runs_expectName soft) fun first => ?_
  exact .iterate (fun _ _ => runs_dotted) first.text

theorem runs_dimensions : Runs track mark dimensions fun _ => mark := by
  refine .iterate (fun mark dims => ?_) _
  refine .look (p := atDimension) (fun _ => rfl) fun c hc hmark => ?_
  split
  · next hsquare => exact runs_bump_bump hc (Bool.and_eq_true_iff.1 hsquare).1 hmark
  · exact .pure hmark

theorem runs_angleRound (start : Token) (depth : Nat) :
    Runs track mark (angleRound start depth) (Step.reach mark 0) := by
  refine .look (p := peek) (fun _ => rfl) fun c hc hmark => ?_
  split
  · exact .throw rfl
  · next heof =>
    apply Runs.ite (runs_unexpected _)
    refine .bind (runs_bump_of hc (Bool.eq_false_iff.2 heof)) fun _ => ?_
    apply Runs.ite
    · exact .pure (Nat.le_succ_of_le hmark)
    · exact .pure (Nat.succ_le_succ hmark)

theorem runs_skipAngles : Runs track mark skipAngles fun _ => mark + 1 := by
  refine .bind (runs_expectPunct '<') fun start => ?_
  exact .iterate (fun _ => runs_angleRound start) 1

theorem runs_skipClassType (soft : List String) :
    Runs track mark (skipClassType soft) fun _ => mark + 1 := by
  refine .bind (runs_expectName soft) fun first => ?_
  refine .iterate (fun mark _ => ?_) ()
  refine .bind (runs_atPunct '<') fun isAngle => ?_
  exact .guarded runs_skipAngles.stay fun _ => runs_dotted

theorem runs_typeText (primitives soft : List String) :
    Runs track mark (typeText primitives soft) fun _ => mark + 1 := by
  refine .get fun start _ hstart => ?_
  refine .look (p := peek) (fun _ => rfl) fun c hc hmark => ?_
  -- Behind the name or the primitive, one token is taken, and the text starts no later than here.
  have htail : Runs track (c.index + 1) (do
      let _ ← dimensions
      textSince start.index) fun _ => mark + 1 := by
    refine .bind runs_dimensions fun _ => ?_
    refine (runs_textSince (Nat.le_succ_of_le hmark)).mono (Nat.le_refl _) fun _ => ?_
    exact Nat.succ_le_succ (Nat.le_trans hstart hmark)
  split
  · next hword =>
    have heof : c.token.isEof = false := by
      simp only [Bool.and_eq_true, decide_eq_true_eq] at hword
      exact Token.isEof_of_kind (by simp [hword.1])
    exact .bind (runs_bump_of hc heof) fun _ => htail
  · exact .bind (runs_skipClassType soft) fun _ => htail

end

end Parser

/-! ## The grammar -/

namespace Grammar

open ApiDoc.Syntax.Parser

variable {κ : Type} (g : Grammar κ) {track : Track} {mark : Nat}

theorem onward_pastLines (c : Cursor) : c.Onward (g.pastLines c) := by
  unfold pastLines
  cases g.language with
  | java => exact .refl c
  | groovy => exact c.onward_skipWhile _

theorem onward_pastSeparators (c : Cursor) : c.Onward (g.pastSeparators c) := by
  unfold pastSeparators
  cases g.language with
  | java => exact c.onward_skipWhile _
  | groovy => exact c.onward_skipWhile _

theorem runs_passLines : Runs track mark g.passLines fun _ => mark := .of_modify g.onward_pastLines

theorem runs_passSeparators : Runs track mark g.passSeparators fun _ => mark :=
  .of_modify g.onward_pastSeparators

theorem runs_name : Runs track mark g.name fun _ => mark + 1 :=
  .bind (runs_expectName _) fun _ => .pure (Nat.le_refl _)

theorem runs_typeText : Runs track mark g.typeText fun _ => mark + 1 := Parser.runs_typeText _ _

theorem runs_endOfDeclaration : Runs track mark g.endOfDeclaration fun _ => mark := by
  unfold endOfDeclaration
  cases g.language with
  | java => exact .bind (runs_expectPunct ';') fun _ => .pure (Nat.le_succ _)
  | groovy =>
    refine .bind (runs_eatIf _) fun _ => ?_
    apply Runs.ite
    · exact .pure (Nat.le_refl _)
    · refine .bind runs_peek fun t => ?_
      exact .ite (.pure (Nat.le_refl _)) (runs_unexpected _)

/-! ### Unread expressions -/

theorem runs_lineRound (atComma : Bool) (s : Unit) :
    Runs track mark (lineRound atComma s) (Step.reach mark 0) := by
  refine .bind (runs_skipUntil _) fun _ => ?_
  refine .get fun c hc hmark => ?_
  split
  · next hline =>
    -- The line end itself is what the round uses up.
    refine .bind (runs_skipNewlines_of hc (Bool.and_eq_true_iff.1 hline).1) fun _ => ?_
    exact .pure (Nat.succ_le_succ hmark)
  · exact .pure hmark

theorem runs_skipExpression (atComma : Bool) :
    Runs track mark (g.skipExpression atComma) fun _ => mark := by
  unfold skipExpression
  cases g.language with
  | java => exact runs_skipUntil _
  | groovy => exact .iterate (fun _ => runs_lineRound atComma) ()

theorem runs_expression (atComma : Bool) :
    Runs track mark (g.expression atComma) fun _ => mark := by
  refine .get fun c _ hmark => ?_
  refine .bind (g.runs_skipExpression atComma) fun _ => ?_
  refine .bind (runs_textSince (Nat.le_refl _)) fun text => ?_
  exact .pure hmark

theorem runs_parenthesized : Runs track mark g.parenthesized fun _ => mark + 1 := by
  refine .get fun c _ hmark => ?_
  refine .bind runs_skipBalanced fun _ => ?_
  refine .bind (runs_textSince (Nat.le_succ _)) fun text => ?_
  exact .pure (Nat.succ_le_succ hmark)

theorem runs_block : Runs track mark g.block fun _ => mark + 1 := by
  refine .bind runs_pos fun p => ?_
  refine .bind runs_skipBalanced fun _ => ?_
  exact .pure (Nat.le_refl _)

/-! ### Modifiers -/

theorem runs_annotationMark : Runs track mark g.annotationMark fun _ => mark + 1 := by
  refine .bind (runs_expectPunct '@') fun sign => ?_
  refine .bind (runs_qualifiedName _).stay fun name => ?_
  refine .bind (runs_atPunct _) fun isParen => ?_
  apply Runs.ite
  · exact .bind g.runs_parenthesized.stay fun _ => .pure (Nat.le_refl _)
  · exact .pure (Nat.le_refl _)

theorem runs_modifiersRound (found : List (Tree κ)) :
    Runs track mark (g.modifiersRound found) (Step.reach mark 0) := by
  refine .get fun c hc hmark => ?_
  apply Runs.ite
  · refine .bind g.runs_annotationMark fun a => ?_
    refine .bind g.runs_passLines fun _ => ?_
    exact .pure (Nat.succ_le_succ hmark)
  · split
    · next hword =>
      have heof : c.token.isEof = false := by
        simp only [atModifier, Bool.and_eq_true, decide_eq_true_eq] at hword
        exact Token.isEof_of_kind (by simp [hword.1.1])
      refine .bind (runs_bump_of hc heof) fun t => ?_
      refine .bind g.runs_passLines fun _ => ?_
      exact .pure (Nat.succ_le_succ hmark)
    · exact .pure hmark

theorem runs_modifiers : Runs track mark g.modifiers fun _ => mark := by
  refine .bind runs_pos fun p => ?_
  refine .bind (.iterate (fun _ => g.runs_modifiersRound) []) fun found => ?_
  exact .pure (Nat.le_refl _)

/-! ### Types -/

theorem runs_typeNode : Runs track mark g.typeNode fun _ => mark + 1 := by
  refine .bind runs_pos fun p => ?_
  refine .bind g.runs_typeText fun text => ?_
  exact .pure (Nat.le_refl _)

theorem runs_typesRound (types : List (Tree κ)) :
    Runs track mark (g.typesRound types) (Step.reach mark 0) := by
  refine .bind g.runs_passLines fun _ => ?_
  refine .bind g.runs_typeNode fun type => ?_
  refine .get fun c _ hmark => ?_
  apply Runs.ite
  · refine .bind g.runs_passLines fun _ => ?_
    refine .bind runs_take fun _ => ?_
    exact .pure hmark
  · exact .pure (Nat.le_of_succ_le hmark)

theorem runs_typeList (kind : JavaKind) (keyword : String) :
    Runs track mark (g.typeList kind keyword) fun _ => mark + 1 := by
  refine .bind (runs_expectKeyword _) fun word => ?_
  refine .bind (.iterate (fun _ => g.runs_typesRound) []) fun types => ?_
  exact .pure (Nat.le_refl _)

theorem runs_bounds : Runs track mark g.bounds fun _ => mark := by
  refine .iterate (fun mark _ => ?_) ()
  refine .bind g.runs_typeText fun _ => ?_
  refine .bind (runs_eatIf _) fun isMore => ?_
  exact .ite (.pure (Nat.le_refl _)) (.pure (Nat.le_succ _))

theorem runs_typeParametersRound (found : List (Tree κ)) :
    Runs track mark (g.typeParametersRound found) (Step.reach mark 0) := by
  refine .bind g.runs_passLines fun _ => ?_
  refine .get fun c _ hmark => ?_
  refine .bind g.runs_name fun _ => ?_
  refine .bind (runs_eatIf _) fun isBounded => ?_
  refine .guarded g.runs_bounds fun _ => ?_
  refine .bind (runs_textSince (Nat.le_succ _)) fun text => ?_
  refine .bind g.runs_passLines fun _ => ?_
  refine .bind (runs_eatIf _) fun isMore => ?_
  apply Runs.ite
  · exact .pure (Nat.succ_le_succ hmark)
  · exact .bind (runs_expectPunct '>').stay fun _ => .pure (Nat.le_succ_of_le hmark)

theorem runs_typeParameters : Runs track mark g.typeParameters fun _ => mark + 1 := by
  refine .bind (runs_expectPunct '<') fun start => ?_
  refine .bind (.iterate (fun _ => g.runs_typeParametersRound) []) fun found => ?_
  exact .pure (Nat.le_refl _)

/-! ### Members -/

theorem runs_declaredType (follows : Token → Bool) :
    Runs track mark (g.declaredType follows) fun _ => mark := by
  unfold declaredType
  cases g.language with
  | java => exact g.runs_typeNode.stay
  | groovy =>
    refine .get fun c _ hmark => ?_
    refine .bind (runs_eatIf _) fun isDef => ?_
    apply Runs.ite (.pure hmark)
    apply Runs.ite (.pure hmark)
    exact g.runs_typeNode.mono (Nat.le_refl _) fun _ => Nat.le_succ_of_le hmark

theorem runs_nameDimensions : Runs track mark g.nameDimensions fun _ => mark := by
  unfold nameDimensions
  cases g.language with
  | java =>
    refine .bind runs_pos fun p => ?_
    exact .bind runs_dimensions fun dims => .pure (Nat.le_refl _)
  | groovy => exact .pure (Nat.le_refl _)

theorem runs_defaultValue : Runs track mark g.defaultValue fun _ => mark := by
  unfold defaultValue
  cases g.language with
  | java => exact .pure (Nat.le_refl _)
  | groovy =>
    refine .bind (runs_eatIf _) fun isGiven => ?_
    apply Runs.ite
    · refine .get fun c _ hmark => ?_
      refine .bind (runs_skipUntil _) fun _ => ?_
      refine .bind (runs_textSince (Nat.le_refl _)) fun text => ?_
      exact .pure hmark
    · exact .pure (Nat.le_refl _)

theorem runs_parameter : Runs track mark g.parameter fun _ => mark + 1 := by
  refine .bind runs_pos fun p => ?_
  refine .bind g.runs_modifiers fun modifiers => ?_
  refine .bind (g.runs_declaredType _) fun type => ?_
  refine .bind (runs_eatIf _) fun variadic => ?_
  refine .bind g.runs_name fun name => ?_
  refine .bind g.runs_nameDimensions fun dims => ?_
  refine .bind g.runs_defaultValue fun value => ?_
  exact .pure (Nat.le_refl _)

theorem runs_parametersRound (found : List (Tree κ)) :
    Runs track mark (g.parametersRound found) (Step.reach mark 0) := by
  refine .bind g.runs_passLines fun _ => ?_
  refine .bind (runs_eatIf _) fun isEnd => ?_
  refine .ite (.pure (Nat.le_refl _)) ?_
  refine .bind g.runs_parameter fun parameter => ?_
  refine .bind g.runs_passLines fun _ => ?_
  refine .bind (runs_eatIf _) fun isMore => ?_
  apply Runs.ite
  · exact .pure (Nat.le_refl _)
  · exact .bind (runs_expectPunct ')').stay fun _ => .pure (Nat.le_succ _)

theorem runs_parameters : Runs track mark g.parameters fun _ => mark + 1 := by
  refine .bind (runs_expectPunct '(') fun start => ?_
  refine .bind (.iterate (fun _ => g.runs_parametersRound) []) fun found => ?_
  exact .pure (Nat.le_refl _)

theorem runs_throwsClause : Runs track mark g.throwsClause fun _ => mark := by
  refine .get fun c _ hmark => ?_
  apply Runs.ite
  · refine .bind g.runs_passLines fun _ => ?_
    exact .bind (g.runs_typeList _ _).stay fun types => .pure hmark
  · exact .pure hmark

theorem runs_passToMethodEnd : Runs track mark g.passToMethodEnd fun _ => mark := by
  refine .get fun c _ hmark => ?_
  exact .ite (g.runs_passLines.mono (Nat.le_refl _) fun _ => hmark) (.pure hmark)

theorem runs_methodEnd (kind : JavaKind) (found : List (Tree κ)) :
    Runs track mark (g.methodEnd kind found) fun _ => mark := by
  refine .bind (runs_eatIf _) fun isDefault => ?_
  apply Runs.ite
  · refine .bind (g.runs_expression _) fun value => ?_
    exact .bind g.runs_endOfDeclaration fun _ => .pure (Nat.le_refl _)
  · refine .bind (runs_atPunct _) fun isBody => ?_
    apply Runs.ite
    · exact .bind g.runs_block.stay fun body => .pure (Nat.le_refl _)
    · exact .bind g.runs_endOfDeclaration fun _ => .pure (Nat.le_refl _)

theorem runs_methodRest (kind : JavaKind) :
    Runs track mark (g.methodRest kind) fun _ => mark + 1 := by
  refine .bind g.runs_parameters fun parameters => ?_
  refine .bind g.runs_nameDimensions fun dims => ?_
  refine .bind g.runs_throwsClause fun throws => ?_
  refine .bind g.runs_passToMethodEnd fun _ => ?_
  exact g.runs_methodEnd kind _

theorem runs_method (kind : JavaKind) (name : String) (start : Cursor) (head : List (Tree κ)) :
    Runs track mark (g.method kind name start head) fun _ => mark + 1 :=
  .bind (g.runs_methodRest kind) fun _ => .pure (Nat.le_refl _)

theorem runs_initialValue : Runs track mark g.initialValue fun _ => mark := by
  refine .bind (runs_eatIf _) fun isGiven => ?_
  apply Runs.ite
  · exact .bind (g.runs_expression _) fun value => .pure (Nat.le_refl _)
  · exact .pure (Nat.le_refl _)

theorem runs_fieldsRound (start : Cursor) (modifiers type : Tree κ)
    (state : List (Tree κ) × String × Text.Position) :
    Runs track mark (g.fieldsRound start modifiers type state) (Step.reach mark 0) := by
  refine .bind g.runs_nameDimensions fun dims => ?_
  refine .bind g.runs_initialValue fun value => ?_
  refine .bind (runs_eatIf _) fun isMore => ?_
  apply Runs.ite
  · refine .bind g.runs_passLines fun _ => ?_
    refine .bind runs_pos fun p => ?_
    exact .bind g.runs_name fun name => .pure (Nat.le_refl _)
  · exact .pure (Nat.le_refl _)

theorem runs_fields (first : String) (start : Cursor) (modifiers type : Tree κ) :
    Runs track mark (g.fields first start modifiers type) fun _ => mark := by
  refine .bind (.iterate (fun _ => g.runs_fieldsRound start modifiers type) _) fun found => ?_
  exact .bind g.runs_endOfDeclaration fun _ => .pure (Nat.le_refl _)

theorem runs_quotedName? : Runs track mark g.quotedName? fun _ => mark := by
  refine .get fun c _ hmark => ?_
  apply Runs.ite
  · exact .bind runs_take fun t => .pure hmark
  · exact .pure hmark

theorem runs_methodOrFields (start : Cursor) (modifiers : Tree κ) (className : Option String) :
    Runs track mark (g.methodOrFields start modifiers className) fun _ => mark + 1 := by
  refine .bind (runs_atPunct _) fun isGeneric => ?_
  refine .optional g.runs_typeParameters.stay fun parameters => ?_
  -- From here on a token is taken on every way: the name of the constructor, method or field.
  refine .get fun c _ hmark => ?_
  apply Runs.ite
  · refine .bind runs_take fun name => ?_
    exact .bind (g.runs_method _ _ _ _) fun ctor => .pure (Nat.succ_le_succ hmark)
  · refine .bind (g.runs_declaredType _) fun type => ?_
    refine .bind g.runs_quotedName? fun quoted => ?_
    cases quoted with
    | some name =>
      exact .bind (g.runs_method _ _ _ _) fun method => .pure (Nat.succ_le_succ hmark)
    | none =>
      refine .bind g.runs_name fun name => ?_
      refine .bind (runs_atPunct _) fun isMethod => ?_
      apply Runs.ite
      · exact .bind (g.runs_method _ _ _ _).stay fun method => .pure (Nat.succ_le_succ hmark)
      · cases parameters with
        | nil =>
          exact (g.runs_fields _ _ _ _).mono (Nat.le_refl _) fun _ => Nat.succ_le_succ hmark
        | cons parameters _ => exact .throw rfl

theorem runs_initializer (kind : JavaKind) (p : Text.Position) :
    Runs track mark (g.initializer kind p) fun _ => mark + 1 :=
  .bind g.runs_block fun _ => .pure (Nat.le_refl _)

/-! ### Type declarations -/

theorem runs_typeKeyword : Runs track mark g.typeKeyword fun _ => mark := by
  refine .bind (runs_eatIf _) fun isAnnotation => ?_
  apply Runs.ite
  · exact .bind (runs_expectKeyword _).stay fun _ => .pure (Nat.le_refl _)
  · exact .bind runs_take fun t => .pure (Nat.le_refl _)

theorem runs_clause (kind : JavaKind) (keyword : String) :
    Runs track mark (g.clause kind keyword) fun _ => mark := by
  refine .bind (runs_atKeyword _) fun isThere => ?_
  apply Runs.ite
  · refine .bind (g.runs_typeList _ _).stay fun types => ?_
    exact .bind g.runs_passLines fun _ => .pure (Nat.le_refl _)
  · exact .pure (Nat.le_refl _)

theorem runs_annotationsRound (found : List (Tree κ)) :
    Runs track mark (g.annotationsRound found) (Step.reach mark 0) := by
  refine .bind (runs_atPunct _) fun isAnnotation => ?_
  apply Runs.ite
  · refine .bind g.runs_annotationMark fun a => ?_
    exact .bind g.runs_passLines fun _ => .pure (Nat.le_refl _)
  · exact .pure (Nat.le_refl _)

theorem runs_annotations : Runs track mark g.annotations fun _ => mark :=
  .iterate (fun _ => g.runs_annotationsRound) []

theorem runs_endOfConstants : Runs track mark g.endOfConstants fun _ => mark := by
  unfold endOfConstants
  cases g.language with
  | groovy => exact .bind (runs_eatIf _) fun _ => .pure (Nat.le_refl _)
  | java =>
    refine .bind (runs_atPunct _) fun isEnd => ?_
    apply Runs.ite
    · exact .pure (Nat.le_refl _)
    · exact .bind (runs_expectPunct ';').stay fun _ => .pure (Nat.le_refl _)

section

variable {inside : BodyParser κ}
  (h : ∀ className isEnum mark, Runs track mark (inside className isEnum) fun _ => mark)
include h

theorem runs_typeDef (start : Cursor) (modifiers : Tree κ) :
    Runs track mark (g.typeDef inside start modifiers) fun _ => mark + 1 := by
  refine .bind g.runs_typeKeyword fun keyword => ?_
  refine .bind g.runs_name fun name => ?_
  refine .bind (runs_atPunct _) fun isGeneric => ?_
  refine .optional g.runs_typeParameters.stay fun parameters => ?_
  refine .bind g.runs_passLines fun _ => ?_
  refine .bind (g.runs_clause _ _) fun extended => ?_
  refine .bind (g.runs_clause _ _) fun implemented => ?_
  exact .bind (h _ _ _) fun body => .pure (Nat.le_refl _)

theorem runs_enumConstant : Runs track mark (g.enumConstant inside) fun _ => mark + 1 := by
  refine .get fun start _ hmark => ?_
  refine .bind g.runs_annotations fun annotations => ?_
  refine .bind g.runs_name fun name => ?_
  refine .bind (runs_atPunct _) fun hasArguments => ?_
  refine .optional g.runs_parenthesized.stay fun arguments => ?_
  refine .bind (runs_atPunct _) fun hasBody => ?_
  exact .optional (h _ _ _) fun body => .pure (Nat.succ_le_succ hmark)

theorem runs_constantsRound (found : List (Tree κ)) :
    Runs track mark (g.constantsRound inside found) (Step.reach mark 0) := by
  refine .bind g.runs_passLines fun _ => ?_
  refine .bind (runs_atPunct _) fun isEnd => ?_
  refine .ite (.pure (Nat.le_refl _)) ?_
  refine .bind (runs_eatPunct _) fun isEnd => ?_
  refine .ite (.pure (Nat.le_refl _)) ?_
  refine .bind (g.runs_enumConstant h) fun constant => ?_
  refine .bind g.runs_passLines fun _ => ?_
  refine .bind (runs_eatPunct _) fun isMore => ?_
  apply Runs.ite
  · exact .pure (Nat.le_refl _)
  · exact .bind g.runs_endOfConstants fun _ => .pure (Nat.le_succ _)

theorem runs_enumConstants : Runs track mark (g.enumConstants inside) fun _ => mark :=
  .iterate (fun _ => g.runs_constantsRound h) []

theorem runs_member (className : String) :
    Runs track mark (g.member inside className) fun _ => mark + 1 := by
  refine .get fun start _ hmark => ?_
  apply Runs.ite
  · exact .bind (g.runs_initializer _ _) fun block => .pure (Nat.succ_le_succ hmark)
  apply Runs.ite
  · refine .bind runs_take fun _ => ?_
    refine .bind g.runs_passLines fun _ => ?_
    exact .bind (g.runs_initializer _ _) fun block => .pure (Nat.succ_le_succ hmark)
  · refine .bind g.runs_modifiers fun modifiers => ?_
    refine .get fun c _ hle => ?_
    have hreach : mark + 1 ≤ c.index + 1 := Nat.succ_le_succ (Nat.le_trans hmark hle)
    apply Runs.ite
    · exact .bind (g.runs_typeDef h _ _) fun type => .pure hreach
    · exact (g.runs_methodOrFields _ _ _).mono (Nat.le_refl _) fun _ => hreach

theorem runs_membersRound (className : String) (found : List (Tree κ)) :
    Runs track mark (g.membersRound inside className found) (Step.reach mark 0) := by
  refine .bind g.runs_passSeparators fun _ => ?_
  refine .bind (runs_eatPunct _) fun isEnd => ?_
  refine .ite (.pure (Nat.le_refl _)) ?_
  refine .bind runs_peek fun t => ?_
  refine .guarded (runs_unexpected _) fun _ => ?_
  exact .bind (g.runs_member h className) fun more => .pure (Nat.le_refl _)

theorem runs_members (className : String) (isEnum : Bool) :
    Runs track mark (g.members inside className isEnum) fun _ => mark := by
  refine .bind (runs_expectPunct _).stay fun start => ?_
  refine .branch (g.runs_enumConstants h) (.pure (Nat.le_refl _)) fun constants => ?_
  refine .bind (.iterate (fun _ => g.runs_membersRound h className) _) fun found => ?_
  exact .pure (Nat.le_refl _)

end

theorem runs_body (levels : Nat) (className : String) (isEnum : Bool) (mark : Nat) :
    Runs track mark (g.body levels className isEnum) fun _ => mark := by
  induction levels generalizing className isEnum mark with
  | zero => exact .bind runs_pos fun _ => .throw rfl
  | succ levels ih => exact g.runs_members ih className isEnum

theorem runs_topTypeDef (start : Cursor) (modifiers : Tree κ) :
    Runs track mark (g.topTypeDef start modifiers) fun _ => mark + 1 :=
  g.runs_typeDef (g.runs_body maxNesting) start modifiers

/-! ### Package and imports -/

theorem runs_packageDef : Runs track mark g.packageDef fun _ => mark + 1 := by
  refine .bind (runs_expectKeyword _) fun word => ?_
  refine .bind (runs_qualifiedName _).stay fun name => ?_
  exact .bind g.runs_endOfDeclaration fun _ => .pure (Nat.le_refl _)

theorem runs_importAlias (name : String) : Runs track mark (g.importAlias name) fun _ => mark := by
  unfold importAlias
  cases g.language with
  | java => exact .pure (Nat.le_refl _)
  | groovy =>
    refine .bind (runs_eatIf _) fun isAlias => ?_
    apply Runs.ite
    · exact .bind g.runs_name.stay fun _ => .pure (Nat.le_refl _)
    · exact .pure (Nat.le_refl _)

theorem runs_importRest (name : String) : Runs track mark (g.importRest name) fun _ => mark := by
  refine .bind (runs_eatIf _) fun isStar => ?_
  apply Runs.ite
  · exact .bind (runs_expectPunct _).stay fun _ => .pure (Nat.le_refl _)
  · exact g.runs_importAlias name

theorem runs_importDef : Runs track mark g.importDef fun _ => mark + 1 := by
  refine .bind (runs_expectKeyword _) fun word => ?_
  refine .bind (runs_eatIf _) fun isStatic => ?_
  refine .bind (runs_qualifiedName _).stay fun name => ?_
  refine .bind (g.runs_importRest name) fun text => ?_
  exact .bind g.runs_endOfDeclaration fun _ => .pure (Nat.le_refl _)

end Grammar

end ApiDoc.Syntax
