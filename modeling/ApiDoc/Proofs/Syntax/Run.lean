import ApiDoc.Syntax.Grammar.Basic

/-!
# Running parsers

What a parser does at a cursor, without looking into the monad. A sequence is taken apart by
`bind_ok` and carried out by `bind_of_ok`; parsers that cannot fail have an equation of their own;
and a repetition is followed round by round (`iterate_induction`).

A construct that may be read in any monad that runs parsers is read here in parsers themselves,
where running a parser is the parser: `monadLift_eq` and `iterate_eq`.
-/

namespace ApiDoc.Syntax

variable {p : Char} {word : String} {mark : Nat}

/-! ## Cursors -/

namespace Cursor

variable {c : Cursor}

/-- The token one place ahead is the one to come next. -/
theorem token_next (h : c.token.isEof = false) : c.next.token = c.peek 1 := by
  obtain ⟨before, here, after, index, remaining, hb, ha⟩ := c
  have hhere : here.token.isEof = false := h
  cases after with
  | nil => rfl
  | cons s rest => simp [next, next?, hhere, peek, Cursor.rest, token]

theorem skipWhile_of_not {p : Token → Bool} (h : p c.token = false) : c.skipWhile p = c := by
  rw [skipWhile, if_neg (by simp [h])]

theorem skipNewlines_of_not (h : c.token.isNewline = false) : c.skipNewlines = c :=
  skipWhile_of_not h

end Cursor

/-! ## Kinds of token -/

namespace Token

variable {t : Token}

theorem kind_of_isPunct (h : t.isPunct p = true) : t.kind = .punct := by
  simp only [isPunct, Bool.and_eq_true, decide_eq_true_eq] at h
  exact h.1

theorem kind_of_isKeyword (h : t.isKeyword word = true) : t.kind = .keyword := by
  simp only [isKeyword, Bool.and_eq_true, decide_eq_true_eq] at h
  exact h.1

theorem isPunct_of_kind (h : t.kind ≠ .punct) : t.isPunct p = false := by
  simp [isPunct, h]

theorem isKeyword_of_kind (h : t.kind ≠ .keyword) : t.isKeyword word = false := by
  simp [isKeyword, h]

theorem isEof_of_kind (h : t.kind ≠ .eof) : t.isEof = false := by simp [isEof, h]

theorem isNewline_of_kind (h : t.kind ≠ .newline) : t.isNewline = false := by
  simp [isNewline, h]

theorem isEof_of_isPunct (h : t.isPunct p = true) : t.isEof = false :=
  isEof_of_kind (by simp [kind_of_isPunct h])

theorem isEof_of_isKeyword (h : t.isKeyword word = true) : t.isEof = false :=
  isEof_of_kind (by simp [kind_of_isKeyword h])

theorem isEof_of_isName {soft : List String} (h : t.isName soft = true) : t.isEof = false := by
  refine isEof_of_kind fun hkind => ?_
  simp [isName, hkind] at h

/-- A token is one punctuation character at most. -/
theorem isPunct_ne {q : Char} (h : t.isPunct p = true) (hne : p ≠ q) : t.isPunct q = false := by
  simp only [isPunct, Bool.and_eq_true, decide_eq_true_eq] at h
  rw [isPunct, Bool.and_eq_false_iff]
  refine Or.inr (decide_eq_false ?_)
  rw [h.2]
  intro heq
  have hlist := congrArg String.toList heq
  simp only [Char.toString, String.toList_singleton, List.cons.injEq, and_true] at hlist
  exact hne hlist

end Token

/-- Passing over line ends stays at a punctuation character. -/
theorem Cursor.skipNewlines_of_isPunct {c : Cursor} (h : c.token.isPunct p = true) :
    c.skipNewlines = c :=
  skipNewlines_of_not (Token.isNewline_of_kind (by simp [Token.kind_of_isPunct h]))

namespace Parser

variable {σ α β : Type} {c d e : Cursor}

/-! ## Sequences -/

/-- A sequence succeeds if its parts do, one after the other. -/
theorem bind_ok {p : Parser α} {k : α → Parser β} {b : β} :
    (p >>= k) c = .ok b d ↔ ∃ a e, p c = .ok a e ∧ k a e = .ok b d := by
  show EStateM.bind p k c = .ok b d ↔ _
  unfold EStateM.bind
  cases p c with
  | ok a e =>
    constructor
    · exact fun h => ⟨a, e, rfl, h⟩
    · rintro ⟨_, _, h, hk⟩
      cases h
      exact hk
  | error e s => simp

theorem bind_of_ok {p : Parser α} {k : α → Parser β} {a : α} (h : p c = .ok a e) :
    (p >>= k) c = k a e := by
  show EStateM.bind p k c = _
  rw [EStateM.bind, h]

theorem bind_of_error {p : Parser α} {k : α → Parser β} {error : ParseError}
    (h : p c = .error error e) : (p >>= k) c = .error error e := by
  show EStateM.bind p k c = _
  rw [EStateM.bind, h]

/-- What comes behind a parser sees only what came of it. -/
theorem bind_of_eq {p q : Parser α} (h : p c = q d) (k : α → Parser β) :
    (p >>= k) c = (q >>= k) d := by
  show EStateM.bind p k c = EStateM.bind q k d
  rw [EStateM.bind, EStateM.bind, h]

theorem pure_apply (a : α) : (pure a : Parser α) c = .ok a c := rfl

theorem pure_ok {a b : α} : (pure a : Parser α) c = .ok b d ↔ a = b ∧ c = d := by
  rw [pure_apply, EStateM.Result.ok.injEq]

theorem ite_run {p : Prop} [Decidable p] (x y : Parser α) :
    (if p then x else y) c = if p then x c else y c := by
  split <;> rfl

theorem ite_ok {p : Prop} [Decidable p] {x y : EStateM.Result ParseError Cursor α} {a : α} :
    (if p then x else y) = .ok a d ↔ p ∧ x = .ok a d ∨ ¬p ∧ y = .ok a d := by
  split <;> simp [*]

theorem branch_bind (b : Bool) (p q : Parser α) (k : α → Parser β) :
    (if b then p >>= k else q >>= k) = (if b then p else q) >>= k := by
  cases b with
  | true => rfl
  | false => rfl

theorem optional_bind {γ : Type} (b : Bool) (p : Parser α) (f : α → β) (none : β)
    (k : β → Parser γ) :
    (if b then p >>= fun a => pure (f a) >>= k else pure none >>= k) =
      (if b then p >>= fun a => pure (f a) else pure none) >>= k := by
  cases b with
  | true => exact (bind_assoc p _ k).symm
  | false => rfl

theorem not_unexpected_ok {expected : String} {a : α} :
    ¬(unexpected expected : Parser α) c = .ok a d := nofun

theorem read_ok {p : Parser α} {a : α} : p.read c = .ok a ↔ ∃ d, p c = .ok a d := by
  unfold read
  cases p c with
  | ok b e => simp
  | error error e => simp

/-! ## Parsers that do not fail -/

theorem monadLift_eq (p : Parser α) :
    @liftM Parser Parser (@instMonadLiftTOfMonadLift Parser Parser Parser _ _) α p = p := rfl

theorem iterate_eq (s : σ) (body : σ → Parser (Step σ α)) :
    MonadParser.iterate s body = iterate s body := rfl

theorem cursor_bind (k : Cursor → Parser β) : (cursor >>= k) c = k c c := rfl

theorem get_bind (k : Cursor → Parser β) : ((get : Parser Cursor) >>= k) c = k c c := rfl

theorem peek_bind (k : Token → Parser β) : (peek >>= k) c = k c.token c := rfl

theorem pos_bind (k : Text.Position → Parser β) : (pos >>= k) c = k c.pos c := rfl

theorem bump_bind (k : Token → Parser β) : (bump >>= k) c = k c.token c.next := rfl

theorem atPunct_bind (p : Char) (k : Bool → Parser β) :
    (atPunct p >>= k) c = k (c.token.isPunct p) c := rfl

theorem atKeyword_bind (word : String) (k : Bool → Parser β) :
    (atKeyword word >>= k) c = k (c.token.isKeyword word) c := rfl

theorem skipNewlines_bind (k : Unit → Parser β) :
    (skipNewlines >>= k) c = k () c.skipNewlines := rfl

theorem atDottedIdent_bind (k : Bool → Parser β) :
    (atDottedIdent >>= k) c = k (c.token.isPunct '.' && (c.peek 1).kind = .ident) c := rfl

theorem atDimension_bind (k : Bool → Parser β) :
    (atDimension >>= k) c = k (c.token.isPunct '[' && (c.peek 1).isPunct ']') c := rfl

theorem eatIf_apply (p : Token → Bool) :
    eatIf p c = if p c.token then .ok true c.next else .ok false c := by
  show (if p c.token then (set c.next >>= fun _ => pure true : Parser Bool) else pure false) c = _
  rw [ite_run]
  rfl

theorem eatIf_ok {p : Token → Bool} {b : Bool} (h : eatIf p c = .ok b d) :
    p c.token = true ∧ b = true ∧ d = c.next ∨ p c.token = false ∧ b = false ∧ d = c := by
  rw [eatIf_apply] at h
  split at h
  · next hp =>
    cases h
    exact .inl ⟨hp, rfl, rfl⟩
  · next hp =>
    cases h
    exact .inr ⟨Bool.eq_false_iff.mpr hp, rfl, rfl⟩

theorem eatIf_bind (p : Token → Bool) (k : Bool → Parser β) :
    (eatIf p >>= k) c = if p c.token then k true c.next else k false c := by
  cases h : p c.token with
  | true => exact bind_of_ok ((eatIf_apply p).trans (if_pos h))
  | false => exact bind_of_ok ((eatIf_apply p).trans (if_neg (by simp [h])))

theorem eatPunct_bind (p : Char) (k : Bool → Parser β) :
    (eatPunct p >>= k) c = if c.token.isPunct p then k true c.next else k false c :=
  eatIf_bind _ k

theorem eatKeyword_bind (word : String) (k : Bool → Parser β) :
    (eatKeyword word >>= k) c = if c.token.isKeyword word then k true c.next else k false c :=
  eatIf_bind _ k

/-! ## Marks -/

theorem checkMark_apply (mark : Nat) :
    checkMark mark c = if c.index < mark then .error ⟨c.pos, .markAhead⟩ c else .ok () c := by
  show (if c.index < mark then (throw ⟨c.pos, .markAhead⟩ : Parser Unit) else pure ()) c = _
  rw [ite_run]
  rfl

theorem textSince_apply (h : mark ≤ c.index) : textSince mark c = .ok (c.textSince mark) c := by
  have hcheck : checkMark mark c = .ok () c := by rw [checkMark_apply, if_neg (by omega)]
  exact bind_of_ok hcheck

theorem textSince_bind (h : mark ≤ c.index) (k : String → Parser β) :
    (textSince mark >>= k) c = k (c.textSince mark) c :=
  bind_of_ok (textSince_apply h)

theorem rewind_apply (h : mark ≤ c.index) : rewind mark c = .ok () (c.moveTo mark) := by
  have hcheck : checkMark mark c = .ok () c := by rw [checkMark_apply, if_neg (by omega)]
  exact bind_of_ok hcheck

/-! ## Tokens that have to be there -/

theorem expect_ok {p : Token → Bool} {expected : String} {t : Token} :
    expect p expected c = .ok t d ↔ p c.token = true ∧ t = c.token ∧ d = c.next := by
  show (if p c.token then bump else unexpected expected) c = _ ↔ _
  rw [ite_run]
  split
  · next h =>
    show EStateM.Result.ok c.token c.next = _ ↔ _
    simp [h, eq_comm]
  · next h => simp [h, not_unexpected_ok]

theorem expectPunct_ok {t : Token} :
    expectPunct p c = .ok t d ↔ c.token.isPunct p = true ∧ t = c.token ∧ d = c.next :=
  expect_ok

theorem expectName_ok {soft : List String} {t : Token} :
    expectName soft c = .ok t d ↔ c.token.isName soft = true ∧ t = c.token ∧ d = c.next :=
  expect_ok

/-! ## Repetitions -/

/-- Carry over the state or the result of a round. -/
def Step.map {τ : Type} (f : σ → τ) (g : α → β) : Step σ α → Step τ β
  | .next s => .next (f s)
  | .done a => .done (g a)

/-- What a round goes on or stops with, if that is of one type. -/
def Step.value : Step α α → α
  | .next a => a
  | .done a => a

section

variable {body : σ → Parser (Step σ α)} {s s' : σ} {a : α}

theorem iterate_of_done (h : body s c = .ok (.done a) d) : iterate s body c = .ok a d := by
  rw [iterate, iterateFrom, h]

theorem iterate_of_error {error : ParseError} (h : body s c = .error error d) :
    iterate s body c = .error error d := by
  rw [iterate, iterateFrom, h]

theorem iterate_of_next (h : body s c = .ok (.next s') e) (hlt : e.remaining < c.remaining) :
    iterate s body c = iterate s' body e := by
  rw [iterate, iterateFrom, h]
  exact if_pos hlt

/-- A repetition that succeeds runs its rounds one after the other, each of them further on, up to
one that stops. -/
theorem iterate_induction {motive : σ → Cursor → α → Cursor → Prop}
    (done : ∀ s c a d, body s c = .ok (.done a) d → motive s c a d)
    (next : ∀ s c s' e a d, body s c = .ok (.next s') e → e.remaining < c.remaining →
      motive s' e a d → motive s c a d)
    (h : iterate s body c = .ok a d) : motive s c a d := by
  have hrun : iterateFrom body s c = .ok a d := h
  clear h
  fun_induction iterateFrom body s c with
  | case1 s c error e hbody => cases hrun
  | case2 s c result e hbody =>
    cases hrun
    exact done s c _ _ hbody
  | case3 s c s' e hbody hlt ih => exact next s c s' e a d hbody hlt (ih hrun)
  | case4 s c s' e hbody hlt => cases hrun

/-- One repetition follows another: its rounds do what the rounds of the other do, with states and
results carried over. The rounds have to agree only where the repetition comes: `reached` is handed
on from its start, round by round. What the argument needs to know of a state, `good`, is handed
back from its end to its start. -/
theorem iterate_follows {τ β : Type} {other : τ → Parser (Step τ β)} (rel : σ → τ) (out : α → β)
    (reached : Cursor → Prop) (good : Step σ α → Cursor → Prop)
    (hkeep : ∀ s c r d, reached c → body s c = .ok r d → reached d)
    (hround : ∀ s c r d, reached c → body s c = .ok r d → good r d →
      other (rel s) c = .ok (r.map rel out) d ∧ good (.next s) c)
    (hc : reached c) (h : iterate s body c = .ok a d) (hgood : good (.done a) d) :
    iterate (rel s) other c = .ok (out a) d ∧ good (.next s) c := by
  refine iterate_induction (motive := fun s c a d => reached c → good (.done a) d →
    iterate (rel s) other c = .ok (out a) d ∧ good (.next s) c) ?_ ?_ h hc hgood
  · intro s c a d hbody hc hgood
    obtain ⟨hother, hstart⟩ := hround s c _ d hc hbody hgood
    exact ⟨iterate_of_done hother, hstart⟩
  · intro s c s' e a d hbody hlt ih hc hgood
    obtain ⟨hrest, hmiddle⟩ := ih (hkeep s c _ e hc hbody) hgood
    obtain ⟨hother, hstart⟩ := hround s c _ e hc hbody hmiddle
    exact ⟨(iterate_of_next hother hlt).trans hrest, hstart⟩

/-- Where nothing has to be known of the states, it is enough to follow each round. -/
theorem iterate_maps {τ β : Type} {other : τ → Parser (Step τ β)} (rel : σ → τ) (out : α → β)
    (reached : Cursor → Prop) (hkeep : ∀ s c r d, reached c → body s c = .ok r d → reached d)
    (hround : ∀ s c r d, reached c → body s c = .ok r d →
      other (rel s) c = .ok (r.map rel out) d)
    (hc : reached c) (h : iterate s body c = .ok a d) :
    iterate (rel s) other c = .ok (out a) d :=
  (iterate_follows rel out reached (fun _ _ => True) hkeep
    (fun s c r d hc hbody _ => ⟨hround s c r d hc hbody, trivial⟩) hc h trivial).1

end

end Parser

/-! ## Line ends -/

namespace Grammar

variable {κ β : Type} (g : Grammar κ) {c : Cursor}

theorem passLines_bind (k : Unit → Parser β) :
    (g.passLines >>= k) c = k () (g.pastLines c) := rfl

theorem passSeparators_bind (k : Unit → Parser β) :
    (g.passSeparators >>= k) c = k () (g.pastSeparators c) := rfl

end Grammar

end ApiDoc.Syntax
