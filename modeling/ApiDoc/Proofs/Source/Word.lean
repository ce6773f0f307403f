import ApiDoc.Proofs.Syntax.Facing
import ApiDoc.Syntax.Java

/-!
# Words, and parsers that take them

A word is a token at a spot of a source, with the doc comments in front of it. `cursor` is the place
between the words of a source that are read and those ahead, and `Takes` says that a parser takes
given words at such a place, whatever comes behind them. What a parser has to know of the words
behind is a condition on `first`, the token ahead.
-/

namespace ApiDoc.Syntax

/-- Can a token of the kind stand among the words of a Java file? Comments stand in front of words,
line ends are no tokens, and the end of the source comes behind all words. -/
def TokenKind.isProper : TokenKind → Bool
  | .docComment | .newline | .eof => false
  | _ => true

namespace Source

/-! ## Words -/

/-- A doc comment. -/
structure Comment where
  text : String
  pos : Text.Position
  spaced : Bool

def Comment.token (c : Comment) : Token := ⟨.docComment, c.text, c.pos, c.spaced⟩

/-- Where a token stands: the doc comments in front of it, its position, and whether there is a gap
before it. -/
structure Spot where
  comments : List Comment
  pos : Text.Position
  spaced : Bool

/-- A token of a Java file. -/
structure Word where
  kind : TokenKind
  text : String
  spot : Spot
  proper : kind.isProper = true

namespace Spot

/-- The doc comment of what starts at the spot is the last one in front of it. -/
def doc (s : Spot) : Option String := s.comments.getLast?.map Comment.text

def punct (s : Spot) (c : Char) : Word := ⟨.punct, c.toString, s, rfl⟩

def keyword (s : Spot) (word : String) : Word := ⟨.keyword, word, s, rfl⟩

def ident (s : Spot) (name : String) : Word := ⟨.ident, name, s, rfl⟩

def ellipsis (s : Spot) : Word := ⟨.ellipsis, "...", s, rfl⟩

/-- The end of the source. -/
def ending (s : Spot) : Token := ⟨.eof, "", s.pos, s.spaced⟩

end Spot

namespace Word

def token (w : Word) : Token := ⟨w.kind, w.text, w.spot.pos, w.spot.spaced⟩

def slot (w : Word) : Slot := ⟨w.token, w.spot.doc⟩

/-- The tokens that a word stands for: its doc comments and itself. -/
def tokens (w : Word) : List Token := w.spot.comments.map Comment.token ++ [w.token]

@[simp] theorem pos_token (w : Word) : w.token.pos = w.spot.pos := rfl

@[simp] theorem isEof_token (w : Word) : w.token.isEof = false := by
  obtain ⟨kind, text, spot, proper⟩ := w
  cases kind <;> first | rfl | cases proper

@[simp] theorem isNewline_token (w : Word) : w.token.isNewline = false := by
  obtain ⟨kind, text, spot, proper⟩ := w
  cases kind <;> first | rfl | cases proper

end Word

/-! ## Places between words -/

/-- The place behind `before`, last word first, and in front of `rest`, in a source that ends at
`e`. -/
def cursor (e : Spot) (before : List Word) : (rest : List Word) → Cursor
  | [] => .between (before.map Word.slot) ⟨e.ending, e.doc⟩ []
  | w :: rest =>
    .between (before.map Word.slot) w.slot (rest.map Word.slot ++ [⟨e.ending, e.doc⟩])

/-- The token ahead. -/
def first (e : Spot) : List Word → Token
  | [] => e.ending
  | w :: _ => w.token

/-- Where the token ahead stands. -/
def firstSpot (e : Spot) : List Word → Spot
  | [] => e
  | w :: _ => w.spot

section

variable {e : Spot} {before rest : List Word} {w : Word}

@[simp] theorem first_cons : first e (w :: rest) = w.token := rfl

theorem firstSpot_append {ws : List Word} :
    firstSpot e (ws ++ rest) = firstSpot (firstSpot e rest) ws := by
  cases ws <;> rfl

@[simp] theorem firstSpot_cons : firstSpot e (w :: rest) = w.spot := rfl

/-- A part that may be missing shows at its first token. -/
theorem first_elim {γ : Type} {p : Token → Bool} {o : Option γ} {words : γ → List Word}
    {ws : List Word} (hwords : ∀ x, p (first e (words x ++ ws)) = true)
    (hws : p (first e ws) = false) : p (first e (o.elim [] words ++ ws)) = o.isSome := by
  cases o with
  | none => exact hws
  | some x => exact hwords x

@[simp] theorem token_cursor : (cursor e before rest).token = first e rest := by
  cases rest <;> rfl

@[simp] theorem pos_cursor : (cursor e before rest).pos = (firstSpot e rest).pos := by
  cases rest <;> rfl

@[simp] theorem doc_cursor : (cursor e before rest).doc = (firstSpot e rest).doc := by
  cases rest <;> rfl

@[simp] theorem index_cursor : (cursor e before rest).index = before.length := by
  cases rest <;> simp [cursor, Cursor.between]

@[simp] theorem remaining_cursor : (cursor e before rest).remaining = rest.length := by
  cases rest <;> simp [cursor, Cursor.between]

@[simp] theorem next_cursor : (cursor e before (w :: rest)).next = cursor e (w :: before) rest := by
  have hw : w.slot.token.isEof = false := w.isEof_token
  cases rest with
  | nil => simp [cursor, Cursor.between, Cursor.next, Cursor.next?, hw]
  | cons v rest => simp [cursor, Cursor.between, Cursor.next, Cursor.next?, hw]

/-- One token further, past the end or not. -/
@[simp] theorem peek_cursor : (cursor e before rest).peek 1 = first e rest.tail := by
  match rest with
  | [] => rfl
  | [w] => rfl
  | w :: v :: rest => rfl

@[simp] theorem peek_zero_cursor : (cursor e before rest).peek 0 = first e rest := by
  cases rest <;> rfl

open Grammar (java)

@[simp] theorem peek_java (n : Nat) :
    java.peek (cursor e before rest) n = (cursor e before rest).peek n := rfl

theorem pastSeparators_cursor (h : (first e rest).isPunct ';' = false) :
    java.pastSeparators (cursor e before rest) = cursor e before rest :=
  Cursor.skipWhile_of_not (by rw [token_cursor, h])

theorem pastSeparators_semicolon {s : Spot} :
    java.pastSeparators (cursor e before (s.punct ';' :: rest)) =
      java.pastSeparators (cursor e (s.punct ';' :: before) rest) := by
  have hsemicolon : (cursor e before (s.punct ';' :: rest)).token.isPunct ';' = true := by
    rw [token_cursor]
    rfl
  have hskip := Cursor.skipWhile_of (p := (·.isPunct ';')) hsemicolon
  rw [next_cursor] at hskip
  exact hskip.symm

/-- The slots of the words stand on both sides, and the end of the source behind them. -/
theorem cursor_eq_facing : cursor e before rest =
    .facing (before.map Word.slot) (rest.map Word.slot ++ [⟨e.ending, e.doc⟩]) := by
  cases rest <;> rfl

/-- The text of the words just read. -/
theorem textSince_cursor {ws : List Word} :
    (cursor e (ws.reverse ++ before) rest).textSince before.length =
      Token.joined (ws.map Word.token) := by
  have hbefore : (cursor e (ws.reverse ++ before) rest).before =
      (ws.reverse ++ before).map Word.slot := by cases rest <;> rfl
  rw [Cursor.textSince, index_cursor, hbefore]
  simp [List.map_reverse, Function.comp_def, Word.slot]

/-- A mark that was set before some words is behind the cursor once they are read. -/
theorem mark_le {ws : List Word} :
    before.length ≤ (cursor e (ws.reverse ++ before) rest).index := by
  rw [index_cursor]
  simp

end

/-! ## Kinds of words -/

section

variable {e : Spot} {s : Spot} {c d : Char} {word other : String}

@[simp] theorem isPunct_punct : (s.punct c).token.isPunct d = decide (c = d) := by
  by_cases h : c = d
  · simp [h, Spot.punct, Word.token, Token.isPunct]
  · rw [decide_eq_false h]
    exact Token.isPunct_ne (by simp [Spot.punct, Word.token, Token.isPunct]) h

@[simp] theorem isPunct_keyword : (s.keyword word).token.isPunct d = false := rfl

@[simp] theorem isPunct_ident : (s.ident word).token.isPunct d = false := rfl

@[simp] theorem isPunct_ellipsis : s.ellipsis.token.isPunct d = false := rfl

@[simp] theorem isKeyword_punct : (s.punct c).token.isKeyword other = false := rfl

@[simp] theorem isKeyword_keyword :
    (s.keyword word).token.isKeyword other = decide (word = other) :=
  Bool.true_and _

@[simp] theorem isKeyword_ident : (s.ident word).token.isKeyword other = false := rfl

@[simp] theorem isKeyword_ellipsis : s.ellipsis.token.isKeyword other = false := rfl

end

/-! ## Taking words -/

/-- Behind `before`, the parser takes the words `ws` and returns `a`; it stops in front of
`rest`. -/
def Takes {α : Type} (e : Spot) (p : Parser α) (before ws rest : List Word) (a : α) : Prop :=
  p (cursor e before (ws ++ rest)) = .ok a (cursor e (ws.reverse ++ before) rest)

namespace Takes

open ApiDoc.Syntax.Parser

variable {σ α β : Type} {e : Spot} {before ws vs rest : List Word} {w : Word} {a : α} {b : β}

theorem pure : Takes e (Pure.pure a : Parser α) before [] rest a := rfl

theorem bind {p : Parser α} {k : α → Parser β} (hp : Takes e p before ws (vs ++ rest) a)
    (hk : Takes e (k a) (ws.reverse ++ before) vs rest b) :
    Takes e (p >>= k) before (ws ++ vs) rest b := by
  rw [Takes, List.append_assoc, bind_of_ok hp, List.reverse_append, List.append_assoc]
  exact hk

/-- The last part of a sequence takes no words. -/
theorem last {p : Parser α} {k : α → Parser β} (hp : Takes e p before ws rest a)
    (hk : Takes e (k a) (ws.reverse ++ before) [] rest b) : Takes e (p >>= k) before ws rest b := by
  rw [Takes, bind_of_ok hp]
  exact hk

/-- The first part of a sequence takes no words. -/
theorem silent {p : Parser α} {k : α → Parser β} (hp : Takes e p before [] (ws ++ rest) a)
    (hk : Takes e (k a) before ws rest b) : Takes e (p >>= k) before ws rest b :=
  bind hp hk

/-! ### Looking ahead -/

theorem get {k : Cursor → Parser β}
    (hk : Takes e (k (cursor e before (ws ++ rest))) before ws rest b) :
    Takes e (MonadState.get >>= k) before ws rest b :=
  hk

theorem peek {k : Token → Parser β} (hk : Takes e (k (first e (ws ++ rest))) before ws rest b) :
    Takes e (Parser.peek >>= k) before ws rest b := by
  rw [Takes, peek_bind, token_cursor]
  exact hk

theorem pos {k : Text.Position → Parser β}
    (hk : Takes e (k (firstSpot e (ws ++ rest)).pos) before ws rest b) :
    Takes e (Parser.pos >>= k) before ws rest b := by
  rw [Takes, pos_bind, pos_cursor]
  exact hk

theorem atPunct {p : Char} {k : Bool → Parser β}
    (hk : Takes e (k ((first e (ws ++ rest)).isPunct p)) before ws rest b) :
    Takes e (Parser.atPunct p >>= k) before ws rest b := by
  rw [Takes, atPunct_bind, token_cursor]
  exact hk

theorem atKeyword {word : String} {k : Bool → Parser β}
    (hk : Takes e (k ((first e (ws ++ rest)).isKeyword word)) before ws rest b) :
    Takes e (Parser.atKeyword word >>= k) before ws rest b := by
  rw [Takes, atKeyword_bind, token_cursor]
  exact hk

theorem atDottedIdent {k : Bool → Parser β}
    (hk : Takes e (k ((first e (ws ++ rest)).isPunct '.' &&
      (first e (ws ++ rest).tail).kind = .ident)) before ws rest b) :
    Takes e (Parser.atDottedIdent >>= k) before ws rest b := by
  rw [Takes, atDottedIdent_bind, token_cursor, peek_cursor]
  exact hk

theorem atDimension {k : Bool → Parser β}
    (hk : Takes e (k ((first e (ws ++ rest)).isPunct '[' &&
      (first e (ws ++ rest).tail).isPunct ']')) before ws rest b) :
    Takes e (Parser.atDimension >>= k) before ws rest b := by
  rw [Takes, atDimension_bind, token_cursor, peek_cursor]
  exact hk

theorem passLines {k : Unit → Parser β} (hk : Takes e (k ()) before ws rest b) :
    Takes e (Grammar.java.passLines >>= k) before ws rest b :=
  hk

theorem passSeparators {k : Unit → Parser β} (hfirst : (first e (ws ++ rest)).isPunct ';' = false)
    (hk : Takes e (k ()) before ws rest b) :
    Takes e (Grammar.java.passSeparators >>= k) before ws rest b := by
  rw [Takes, Grammar.passSeparators_bind, pastSeparators_cursor hfirst]
  exact hk

/-- The words `vs` are those read since the mark. -/
theorem text : Takes e (Parser.textSince before.length) (vs.reverse ++ before) [] rest
    (Token.joined (vs.map Word.token)) :=
  (textSince_apply mark_le).trans (congrArg (EStateM.Result.ok · _) textSince_cursor)

theorem textSince {k : String → Parser β}
    (hk : Takes e (k (Token.joined (vs.map Word.token))) (vs.reverse ++ before) ws rest b) :
    Takes e (Parser.textSince before.length >>= k) (vs.reverse ++ before) ws rest b := by
  rw [Takes, textSince_bind mark_le, textSince_cursor]
  exact hk

/-! ### Single words -/

theorem bump {k : Token → Parser β} (hk : Takes e (k w.token) (w :: before) ws rest b) :
    Takes e (Parser.bump >>= k) before (w :: ws) rest b := by
  rw [Takes, List.cons_append, bump_bind, token_cursor, next_cursor, List.reverse_cons,
    List.append_assoc]
  exact hk

theorem expect {p : Token → Bool} {expected : String} {k : Token → Parser β}
    (hw : p w.token = true) (hk : Takes e (k w.token) (w :: before) ws rest b) :
    Takes e (Parser.expect p expected >>= k) before (w :: ws) rest b := by
  have hrun : Parser.expect p expected (cursor e before (w :: (ws ++ rest))) =
      .ok w.token (cursor e (w :: before) (ws ++ rest)) := by
    rw [expect_ok, token_cursor, next_cursor]
    exact ⟨hw, rfl, rfl⟩
  rw [Takes, List.cons_append, bind_of_ok hrun, List.reverse_cons, List.append_assoc]
  exact hk

theorem expectPunct {s : Spot} {p : Char} {k : Token → Parser β}
    (hk : Takes e (k (s.punct p).token) (s.punct p :: before) ws rest b) :
    Takes e (Parser.expectPunct p >>= k) before (s.punct p :: ws) rest b :=
  expect (by simp) hk

theorem expectKeyword {s : Spot} {word : String} {k : Token → Parser β}
    (hk : Takes e (k (s.keyword word).token) (s.keyword word :: before) ws rest b) :
    Takes e (Parser.expectKeyword word >>= k) before (s.keyword word :: ws) rest b :=
  expect (by simp) hk

theorem eatIf {p : Token → Bool} {k : Bool → Parser β} (hw : p w.token = true)
    (hk : Takes e (k true) (w :: before) ws rest b) :
    Takes e (Parser.eatIf p >>= k) before (w :: ws) rest b := by
  rw [Takes, List.cons_append, eatIf_bind, token_cursor, first_cons, if_pos hw, next_cursor,
    List.reverse_cons, List.append_assoc]
  exact hk

theorem eatIf_none {p : Token → Bool} {k : Bool → Parser β}
    (hfirst : p (first e (ws ++ rest)) = false) (hk : Takes e (k false) before ws rest b) :
    Takes e (Parser.eatIf p >>= k) before ws rest b := by
  rw [Takes, eatIf_bind, token_cursor, if_neg (by simp [hfirst])]
  exact hk

/-! ### Optional parts -/

section

variable {γ : Type} {o : Option γ} {words : γ → List Word} {t : Bool}

/-- A part that may be missing, and what comes behind it; `t` says whether it is there. -/
theorem guarded {p : Parser Unit} {k : Unit → Parser β} (ht : t = o.isSome)
    (hp : ∀ x, o = some x → Takes e p before (words x) (vs ++ rest) ())
    (hk : Takes e (k ()) ((o.elim [] words).reverse ++ before) vs rest b) :
    Takes e (if t then p >>= k else k ()) before (o.elim [] words ++ vs) rest b := by
  subst ht
  cases o with
  | none => exact hk
  | some x => exact .bind (hp x rfl) hk

/-- A part that may be missing gives at most one value. -/
theorem optional {p : Parser α} {value : γ → α} {k : List α → Parser β} (ht : t = o.isSome)
    (hp : ∀ x, o = some x → Takes e p before (words x) (vs ++ rest) (value x))
    (hk : Takes e (k (o.toList.map value)) ((o.elim [] words).reverse ++ before) vs rest b) :
    Takes e (if t then p >>= fun a => Pure.pure [a] >>= k else Pure.pure [] >>= k) before
      (o.elim [] words ++ vs) rest b := by
  subst ht
  cases o with
  | none => exact hk
  | some x => exact .bind (hp x rfl) hk

end

/-! ### Repetitions -/

theorem done {s : σ} {body : σ → Parser (Step σ α)}
    (h : Takes e (body s) before ws rest (.done a)) : Takes e (iterate s body) before ws rest a :=
  iterate_of_done h

/-- A round takes words, and the repetition goes on behind them. -/
theorem next {s s' : σ} {body : σ → Parser (Step σ α)} (hne : ws ≠ [])
    (h : Takes e (body s) before ws (vs ++ rest) (.next s'))
    (hrest : Takes e (iterate s' body) (ws.reverse ++ before) vs rest a) :
    Takes e (iterate s body) before (ws ++ vs) rest a := by
  have hlt : (cursor e (ws.reverse ++ before) (vs ++ rest)).remaining <
      (cursor e before (ws ++ (vs ++ rest))).remaining := by
    have := List.length_pos_iff.mpr hne
    simp only [remaining_cursor, List.length_append]
    omega
  rw [Takes, List.append_assoc, iterate_of_next h hlt, List.reverse_append, List.append_assoc]
  exact hrest

theorem next_cons {s s' : σ} {body : σ → Parser (Step σ α)}
    (h : Takes e (body s) before [w] (vs ++ rest) (.next s'))
    (hrest : Takes e (iterate s' body) (w :: before) vs rest a) :
    Takes e (iterate s body) before (w :: vs) rest a :=
  next (List.cons_ne_nil w []) h hrest

/-- A word that a round passes over without looking at it. -/
theorem passed {s : σ} {body : σ → Parser (Step σ α)}
    (hbody : body s (cursor e before (w :: (ws ++ rest))) =
      body s (cursor e (w :: before) (ws ++ rest)))
    (h : Takes e (iterate s body) (w :: before) ws rest a) :
    Takes e (iterate s body) before (w :: ws) rest a := by
  rw [Takes, iterate, iterateFrom] at h
  rw [Takes, List.cons_append, List.reverse_cons, List.append_assoc, iterate, iterateFrom, hbody]
  cases hround : body s (cursor e (w :: before) (ws ++ rest)) with
  | error error d =>
    rw [hround] at h
    cases h
  | ok step d =>
    rw [hround] at h
    cases step with
    | done result => exact h
    -- The loop asks for fewer words than at its start, and one more is left there.
    | next s' =>
      dsimp only at h ⊢
      split at h
      · next hlt =>
        rw [if_pos (Nat.lt_trans hlt (by simp))]
        exact h
      · cases h

end Takes

end Source

end ApiDoc.Syntax
