import ApiDoc.Proofs.Syntax.Identifier
import ApiDoc.Proofs.Syntax.Layout

/-!
# One token list under every lexicon

A lexicon decides which words are reserved and whether line ends are tokens. It decides nothing
else: leave out the line ends and take every reserved word for an identifier, and the tokens of a
source are those of the lexicon without reserved words and line ends (`common_tokenize`). So any two
lexicons that agree on interpreter lines read a source alike (`tokenize_reclassifies`).
-/

namespace ApiDoc.Syntax

open Text (Position)

/-! ## What does not depend on the lexicon -/

/-- The kind of a token, if no word is reserved. -/
def TokenKind.unreserved : TokenKind → TokenKind
  | .keyword => .ident
  | kind => kind

namespace Token

/-- The token, if no word is reserved. -/
def unreserved (t : Token) : Token := { t with kind := t.kind.unreserved }

/-- The tokens without line ends, if no word is reserved. -/
def common (ts : List Token) : List Token := (ts.filter fun t => !t.isNewline).map unreserved

theorem common_cons {t : Token} (h : t.isNewline = false) (ts : List Token) :
    common (t :: ts) = t.unreserved :: common ts := by
  rw [common, List.filter_cons_of_pos (by simp [h]), List.map_cons]
  rfl

theorem common_cons_newline {t : Token} (h : t.isNewline = true) (ts : List Token) :
    common (t :: ts) = common ts := by
  rw [common, List.filter_cons_of_neg (by simp [h])]
  rfl

end Token

namespace Lexicon

/-- No word is reserved, and no line end is a token. -/
def bare (shebang : Bool) : Lexicon := { keywords := [], newlines := false, shebang }

variable (lexicon : Lexicon)

theorem tokenKind?_bare (shebang : Bool) (l : Lexeme) :
    (bare shebang).tokenKind? l = (lexicon.tokenKind? l).map TokenKind.unreserved := by
  unfold tokenKind?
  cases l.kind with
  | word => cases lexicon.keywords.contains (String.ofList l.text) <;> rfl
  | _ => rfl

/-- Line ends and reserved words apart, the lexicon has no part in reading lexemes: neither in the
positions nor in the gaps between tokens. -/
theorem common_tokensFrom (shebang : Bool) (place : Nat → Position) (offset : Nat) (spaced : Bool)
    (ls : List Lexeme) :
    Token.common (lexicon.tokensFrom place offset spaced ls) =
      (bare shebang).tokensFrom place offset spaced ls := by
  induction ls generalizing offset spaced with
  | nil => rfl
  | cons l ls ih =>
    have hbare := lexicon.tokenKind?_bare shebang l
    rw [tokensFrom, tokensFrom]
    dsimp only
    cases hkind : lexicon.tokenKind? l with
    | some kind =>
      have hline : Token.isNewline ⟨kind, String.ofList l.text, place offset, spaced⟩ = false :=
        Token.isNewline_of_kind (tokenKind?_ne hkind).1
      rw [hkind, Option.map_some] at hbare
      simp only [hbare]
      rw [Token.common_cons hline, ih]
      rfl
    | none =>
      rw [hkind, Option.map_none] at hbare
      simp only [hbare]
      -- a line end that is a token is left out again, and the gap behind it is there either way
      split
      · rw [Token.common_cons_newline rfl]
        exact ih _ _
      · exact ih _ _

/-- A source has the same tokens under every lexicon, up to line ends and reserved words. -/
theorem common_tokenize (source : String) :
    (lexicon.tokenize source).map Token.common = (bare lexicon.shebang).tokenize source := by
  unfold tokenize
  dsimp only
  have hshebang : (bare lexicon.shebang).shebang = lexicon.shebang := rfl
  rw [hshebang]
  cases Lexeme.splitAll lexicon.shebang (Text.Unescaped.ofSource source.toList).text with
  | error e => rfl
  | ok ls => exact congrArg Except.ok (lexicon.common_tokensFrom lexicon.shebang _ _ _ ls)

/-! ## Reserved words -/

variable {lexicon}

/-- A token is a line end, the end of the source, or what a lexeme makes. -/
theorem mem_tokensFrom {place : Nat → Position} {offset : Nat} {spaced : Bool} {ls : List Lexeme}
    {t : Token} (h : t ∈ lexicon.tokensFrom place offset spaced ls) :
    t.kind = .newline ∨ t.kind = .eof ∨
      ∃ l ∈ ls, lexicon.tokenKind? l = some t.kind ∧ t.text = String.ofList l.text := by
  induction ls generalizing offset spaced with
  | nil =>
    rw [List.mem_singleton.mp h]
    exact .inr (.inl rfl)
  | cons l ls ih =>
    -- what a later lexeme makes is made by a lexeme of the longer list
    have hlater : ∀ {offset spaced}, t ∈ lexicon.tokensFrom place offset spaced ls →
        t.kind = .newline ∨ t.kind = .eof ∨
          ∃ l' ∈ l :: ls, lexicon.tokenKind? l' = some t.kind ∧ t.text = String.ofList l'.text := by
      intro offset spaced ht
      obtain hkind | hkind | ⟨l', hl', hmade⟩ := ih ht
      · exact .inl hkind
      · exact .inr (.inl hkind)
      · exact .inr (.inr ⟨l', List.mem_cons_of_mem l hl', hmade⟩)
    rw [tokensFrom] at h
    dsimp only at h
    cases hl : lexicon.tokenKind? l with
    | some kind =>
      simp only [hl] at h
      rcases List.mem_cons.mp h with rfl | h
      · exact .inr (.inr ⟨l, List.mem_cons_self, hl, rfl⟩)
      · exact hlater h
    | none =>
      simp only [hl] at h
      split at h
      · rcases List.mem_cons.mp h with rfl | h
        · exact .inl rfl
        · exact hlater h
      · exact hlater h

/-- A word makes a keyword exactly if it is reserved. -/
theorem keyword_of_tokenKind? {l : Lexeme} {kind : TokenKind} (h : lexicon.tokenKind? l = some kind)
    (hword : kind = .ident ∨ kind = .keyword) :
    kind = .keyword ↔ String.ofList l.text ∈ lexicon.keywords := by
  have hl := kind_of_tokenKind? h hword
  simp only [tokenKind?, hl, Option.some.injEq, List.contains_iff_mem] at h
  rw [← h]
  split
  · next hmem => simp [hmem]
  · next hmem => simp [hmem]

theorem keyword_of_tokenize {source : String} {tokens : List Token}
    (h : lexicon.tokenize source = .ok tokens) :
    ∀ t ∈ tokens, t.kind = .ident ∨ t.kind = .keyword →
      (t.kind = .keyword ↔ t.text ∈ lexicon.keywords) := by
  intro t ht hword
  unfold tokenize at h
  dsimp only at h
  split at h
  · cases h
  · cases h
    obtain hkind | hkind | ⟨l, -, hkind, htext⟩ := mem_tokensFrom ht
    · simp [hkind] at hword
    · simp [hkind] at hword
    · rw [htext]
      exact keyword_of_tokenKind? hkind hword

/-! ## Two lexicons -/

/-- **Lexicons only reclassify.** Two lexicons that agree on interpreter lines both fail on a
source, with the same error, or both read it; then the tokens are the same, with their texts,
positions and gaps, but for line ends and for which words are reserved. A word is a keyword exactly
if the lexicon that reads it reserves it. -/
theorem tokenize_reclassifies {a b : Lexicon} (hshebang : a.shebang = b.shebang)
    (source : String) :
    (∃ e, a.tokenize source = .error e ∧ b.tokenize source = .error e) ∨
    ∃ ts us, a.tokenize source = .ok ts ∧ b.tokenize source = .ok us ∧
      Token.common ts = Token.common us ∧
      (∀ t ∈ ts, t.kind = .ident ∨ t.kind = .keyword → (t.kind = .keyword ↔ t.text ∈ a.keywords)) ∧
      ∀ u ∈ us, u.kind = .ident ∨ u.kind = .keyword →
        (u.kind = .keyword ↔ u.text ∈ b.keywords) := by
  -- what the tokens have in common does not depend on the lexicon, and neither does the error
  have hcommon : (a.tokenize source).map Token.common = (b.tokenize source).map Token.common := by
    rw [a.common_tokenize, b.common_tokenize, hshebang]
  cases hts : a.tokenize source with
  | error e =>
    cases hus : b.tokenize source with
    | error e' =>
      rw [hts, hus] at hcommon
      cases hcommon
      exact .inl ⟨e, rfl, rfl⟩
    | ok us =>
      rw [hts, hus] at hcommon
      cases hcommon
  | ok ts =>
    cases hus : b.tokenize source with
    | error e' =>
      rw [hts, hus] at hcommon
      cases hcommon
    | ok us =>
      rw [hts, hus] at hcommon
      exact .inr ⟨ts, us, rfl, rfl, Except.ok.inj hcommon, keyword_of_tokenize hts,
        keyword_of_tokenize hus⟩

/-- A lexicon that allows interpreter lines, reserves `b` alone and does without line ends. -/
def sparse : Lexicon := { keywords := ["b"], newlines := false, shebang := true }

theorem tokenize_reclassifies_script :
    Language.groovy.lexicon.shebang = sparse.shebang ∧
    ∃ ts us,
      Language.groovy.lexicon.tokenize "#!sh\nclass b/* \n */ \"in\"b\n" = .ok ts ∧
      sparse.tokenize "#!sh\nclass b/* \n */ \"in\"b\n" = .ok us ∧
      ts.map Token.kind =
        [.newline, .keyword, .ident, .newline, .stringLit, .ident, .newline, .eof] ∧
      us.map Token.kind = [.ident, .keyword, .stringLit, .keyword, .eof] ∧
      Token.common ts = Token.common us := by
  have hts : (Language.groovy.lexicon.tokenize "#!sh\nclass b/* \n */ \"in\"b\n").toOption.map
      (List.map Token.kind) =
        some [.newline, .keyword, .ident, .newline, .stringLit, .ident, .newline, .eof] := by
    decide +kernel
  have hus : (sparse.tokenize "#!sh\nclass b/* \n */ \"in\"b\n").toOption.map
      (List.map Token.kind) = some [.ident, .keyword, .stringLit, .keyword, .eof] := by
    decide +kernel
  have hshebang : Language.groovy.lexicon.shebang = sparse.shebang := rfl
  refine ⟨hshebang, ?_⟩
  obtain ⟨e, he, -⟩ | ⟨ts, us, hread, hread', hcommon, -⟩ :=
    tokenize_reclassifies hshebang "#!sh\nclass b/* \n */ \"in\"b\n"
  · rw [he] at hts
    cases hts
  · rw [hread] at hts
    rw [hread'] at hus
    exact ⟨ts, us, hread, hread', Option.some.inj hts, Option.some.inj hus, hcommon⟩

end Lexicon

end ApiDoc.Syntax
