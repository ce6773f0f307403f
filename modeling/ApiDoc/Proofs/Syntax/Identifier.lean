import ApiDoc.Proofs.Dialect.Token
import ApiDoc.Proofs.Syntax.Bounds
import ApiDoc.Proofs.Syntax.Lookahead
import ApiDoc.Proofs.Text.Blank

/-!
# Identifiers

The words of a source are identifiers: they start with a letter and hold no dot. A token carries the
text of its word, and a cursor stays among the tokens of its source, so whatever word it is at is an
identifier: `Track.Worded`.
-/

namespace ApiDoc.Syntax

variable {lexemes : List Lexeme} {l : Lexeme}

theorem Lexeme.isBlank_of_isWordPart {c : Char} (h : isWordPart c = true) :
    Text.isBlank c = false := by
  simp only [isWordPart, Bool.or_eq_true, decide_eq_true_eq] at h
  rcases h with ((rfl | rfl) | hletter) | hdigit
  · decide
  · decide
  · exact Text.isBlank_of_isAlphabetic hletter
  · exact Text.isBlank_of_isNumeric hdigit

/-- The text of an identifier or of a reserved word. -/
def IsIdentifier (text : String) : Prop :=
  ∃ c cs, text.toList = c :: cs ∧ Lexeme.isWordStart c = true ∧ ∀ d ∈ cs, Lexeme.isWordPart d = true

namespace IsIdentifier

variable {text : String}

theorem ne_empty (h : IsIdentifier text) : text ≠ "" := by
  rintro rfl
  obtain ⟨c, cs, htext, -⟩ := h
  cases htext

theorem dot_not_mem (h : IsIdentifier text) : '.' ∉ text.toList := by
  obtain ⟨c, cs, htext, hc, hcs⟩ := h
  have hstart : Lexeme.isWordStart '.' = false := by decide +kernel
  have hpart : Lexeme.isWordPart '.' = false := by decide +kernel
  rw [htext, List.mem_cons]
  rintro (rfl | hmem)
  · exact absurd (hstart.symm.trans hc) (by simp)
  · exact absurd (hpart.symm.trans (hcs _ hmem)) (by simp)

theorem isWordPart (h : IsIdentifier text) : ∀ c ∈ text.toList, Lexeme.isWordPart c = true := by
  obtain ⟨c, cs, htext, hc, hcs⟩ := h
  rw [htext]
  refine List.forall_mem_cons.mpr ⟨?_, hcs⟩
  rw [Lexeme.isWordPart, ← Lexeme.isWordStart, hc, Bool.true_or]

theorem backslash_not_mem (h : IsIdentifier text) : '\\' ∉ text.toList := by
  have hpart : Lexeme.isWordPart '\\' = false := by decide +kernel
  intro hmem
  simpa [hpart] using h.isWordPart _ hmem

/-- A word ends where no character goes on with it. -/
theorem begins (h : IsIdentifier text) {rest : List Char}
    (hrest : rest.takeWhile Lexeme.isWordPart = []) :
    Lexeme.Begins ⟨.word, text.toList⟩ rest := by
  obtain ⟨c, cs, htext, hc, hcs⟩ := h
  have hword : Lexeme.Starts c (cs ++ rest) .word _ := .word hc
  rw [Lexeme.takeWhile_append_eq_iff.mpr ⟨hcs, hrest⟩, ← htext] at hword
  exact ⟨c, cs, htext, hword⟩

end IsIdentifier

/-! ## Words of a source -/

namespace Lexeme

theorem isIdentifier_of_first {c : Char} {cs text : List Char}
    (h : first c cs = .ok (.word, text)) : IsIdentifier (String.ofList text) := by
  have hword : isWordStart c = true ∧ text = c :: cs.takeWhile isWordPart := by
    unfold first at h
    dsimp only at h
    repeat' split at h
    all_goals cases h
    exact ⟨‹_›, rfl⟩
  obtain ⟨hc, rfl⟩ := hword
  refine ⟨c, cs.takeWhile isWordPart, String.toList_ofList, hc, fun d hd => ?_⟩
  exact List.all_eq_true.mp List.all_takeWhile d hd

theorem isIdentifier_of_split {text : List Char} (h : split text = .ok lexemes) (hl : l ∈ lexemes)
    (hkind : l.kind = .word) : IsIdentifier (String.ofList l.text) := by
  obtain ⟨c, cs, hfirst⟩ := first_of_mem_split h l hl
  rw [hkind] at hfirst
  exact isIdentifier_of_first hfirst

theorem isIdentifier_of_splitAll {shebang : Bool} {text : List Char}
    (h : splitAll shebang text = .ok lexemes) (hl : l ∈ lexemes) (hkind : l.kind = .word) :
    IsIdentifier (String.ofList l.text) := by
  unfold splitAll at h
  split at h
  · split at h
    · cases h
    · next rest hrest =>
      cases h
      rcases List.mem_cons.mp hl with rfl | hl
      · cases hkind
      · exact isIdentifier_of_split hrest hl hkind
  · exact isIdentifier_of_split h hl hkind

end Lexeme

/-- The words among the tokens are identifiers. -/
def Token.Worded (t : Token) : Prop :=
  t.kind = .ident ∨ t.kind = .keyword → IsIdentifier t.text

namespace Lexicon

open Text (Position)

/-- No lexeme but a word makes an identifier or a reserved word. -/
theorem kind_of_tokenKind? {lexicon : Lexicon} {kind : TokenKind}
    (h : lexicon.tokenKind? l = some kind) (hword : kind = .ident ∨ kind = .keyword) :
    l.kind = .word := by
  unfold tokenKind? at h
  grind

theorem worded_tokensFrom (lexicon : Lexicon) (place : Nat → Position) (offset : Nat)
    (spaced : Bool) (h : ∀ l ∈ lexemes, l.kind = .word → IsIdentifier (String.ofList l.text)) :
    ∀ t ∈ lexicon.tokensFrom place offset spaced lexemes, t.Worded := by
  induction lexemes generalizing offset spaced with
  | nil =>
    intro t ht
    rw [tokensFrom, List.mem_singleton] at ht
    subst ht
    rintro (hkind | hkind) <;> cases hkind
  | cons l ls ih =>
    obtain ⟨hl, hls⟩ := List.forall_mem_cons.mp h
    rw [tokensFrom]
    dsimp only
    split
    · next kind hkind =>
      refine List.forall_mem_cons.mpr ⟨?_, ih _ _ hls⟩
      intro hword
      exact hl (kind_of_tokenKind? hkind hword)
    · -- A lexeme that is no token may leave a line end, which is no word.
      split
      · refine List.forall_mem_cons.mpr ⟨?_, ih _ _ hls⟩
        rintro (hkind | hkind) <;> cases hkind
      · exact ih _ _ hls

theorem worded_of_tokenize {lexicon : Lexicon} {source : String} {tokens : List Token}
    (h : lexicon.tokenize source = .ok tokens) : ∀ t ∈ tokens, t.Worded := by
  unfold tokenize at h
  dsimp only at h
  split at h
  · cases h
  · next lexemes hsplit =>
    cases h
    exact lexicon.worded_tokensFrom _ _ _ fun l hl hkind =>
      Lexeme.isIdentifier_of_splitAll hsplit hl hkind

end Lexicon

/-- The words of the source are identifiers. -/
def Track.Worded (track : Track) : Prop := ∀ s ∈ track.slots, s.token.Worded

theorem Track.Worded.here {track : Track} (h : track.Worded) {c : Cursor}
    (hc : c.slots = track.slots) : c.token.Worded :=
  h c.here (hc ▸ List.mem_of_getElem? c.getElem?_index)

theorem Track.worded_ofTokens {tokens : List Token} (h : ∀ t ∈ tokens, t.Worded) :
    (ofTokens tokens).Worded := by
  intro s hs hword
  rw [← Cursor.slots_ofTokens] at hs
  rcases Cursor.mem_slots_ofTokens hs with hmem | heof
  · exact h s.token hmem hword
  · simp only [Token.isEof, decide_eq_true_eq] at heof
    simp [heof] at hword

end ApiDoc.Syntax
