import ApiDoc.Proofs.Syntax.Lexeme
import ApiDoc.Syntax.Grammar.Basic

/-!
# One token list for both languages

Java and Groovy cut a text into the same lexemes, up to a first line that names an interpreter. They
read the lexemes as different tokens where a line ends and where a word is reserved in Groovy alone.
A source on one line without such words has the same tokens in both: `tokenize_groovy_of_java`.
-/

namespace ApiDoc.Syntax

open Text (Position Unescaped)

variable {lexemes : List Lexeme} {text : List Char} {l : Lexeme} {tokens : List Token} {s : Slot}

/-! ## Line ends -/

namespace Lexeme

theorem mem_text_of_lineFeed (h : split text = .ok lexemes) (hl : l ∈ lexemes)
    (hkind : l.kind = .lineFeed) : '\n' ∈ l.text := by
  obtain ⟨c, cs, hfirst⟩ := first_of_mem_split h l hl
  rw [hkind] at hfirst
  unfold first at hfirst
  grind

/-- On a text without line feeds, no lexeme ends a line. -/
theorem endsLine_of_mem_split (h : split text = .ok lexemes) (hline : '\n' ∉ text)
    (hl : l ∈ lexemes) : Lexicon.endsLine l = false := by
  have hclean : '\n' ∉ l.text := by
    intro hmem
    rw [← flatten_split h] at hline
    exact hline (List.mem_flatten.mpr ⟨l.text, List.mem_map_of_mem hl, hmem⟩)
  unfold Lexicon.endsLine
  split
  · next hkind => exact absurd (mem_text_of_lineFeed h hl hkind) hclean
  · simpa using hclean
  · rfl

/-- A text that starts like an interpreter line cannot be cut as plain text. -/
theorem not_isPrefixOf_of_split (h : split text = .ok lexemes) :
    ['#', '!'].isPrefixOf text = false := by
  rw [Bool.eq_false_iff]
  intro hprefix
  obtain ⟨rest, rfl⟩ := List.isPrefixOf_iff_prefix.mp hprefix
  have hstray : first '#' ('!' :: rest) = .error (.strayCharacter '#') := by
    have hword : isWordStart '#' = false := by decide +kernel
    have hgap : isGap '#' = false := by decide
    have hpunct : '#' ∉ punctuation := by decide
    simp [first, hword, hgap, hpunct]
  rw [List.cons_append, List.cons_append, List.nil_append, split, hstray] at h
  cases h

end Lexeme

/-! ## Reserved words -/

namespace Language

/-- The words that are reserved in Groovy and not in Java. -/
def groovyOnlyWords : List String := ["def", "as", "in", "trait", "threadsafe"]

theorem groovyKeywords_perm : groovyKeywords.Perm (groovyOnlyWords ++ javaKeywords) := by
  decide +kernel

theorem contains_groovyKeywords {word : String} (h : word ∉ groovyOnlyWords) :
    groovyKeywords.contains word = javaKeywords.contains word := by
  rw [Bool.eq_iff_iff, List.contains_iff_mem, List.contains_iff_mem,
    groovyKeywords_perm.mem_iff, List.mem_append]
  exact or_iff_right h

theorem tokenKind?_groovy (h : l.kind = .word → String.ofList l.text ∉ groovyOnlyWords) :
    groovy.lexicon.tokenKind? l = java.lexicon.tokenKind? l := by
  unfold Lexicon.tokenKind?
  cases hkind : l.kind with
  | word =>
    show some (if groovyKeywords.contains _ then _ else _) = _
    rw [contains_groovyKeywords (h hkind)]
    rfl
  | _ => rfl

theorem tokensFrom_groovy (hline : ∀ l ∈ lexemes, Lexicon.endsLine l = false)
    (place : Nat → Position) (offset : Nat) (spaced : Bool)
    (hwords : ∀ t ∈ java.lexicon.tokensFrom place offset spaced lexemes, t.text ∉ groovyOnlyWords) :
    groovy.lexicon.tokensFrom place offset spaced lexemes =
      java.lexicon.tokensFrom place offset spaced lexemes := by
  induction lexemes generalizing offset spaced with
  | nil => rfl
  | cons l ls ih =>
    obtain ⟨hl, hls⟩ := List.forall_mem_cons.mp hline
    unfold Lexicon.tokensFrom at hwords ⊢
    cases hkind : java.lexicon.tokenKind? l with
    | some kind =>
      simp only [hkind, List.forall_mem_cons] at hwords
      have hgroovy : groovy.lexicon.tokenKind? l = some kind :=
        (tokenKind?_groovy fun _ => hwords.1).trans hkind
      simp only [hgroovy, ih hls _ _ hwords.2]
    | none =>
      -- What is no token in Java is none in Groovy on one line: only a line end would be.
      have hnoWord : l.kind ≠ .word := by
        intro hword
        simp [Lexicon.tokenKind?, hword] at hkind
      have hgroovy : groovy.lexicon.tokenKind? l = none :=
        (tokenKind?_groovy fun hword => absurd hword hnoWord).trans hkind
      have hjava : java.lexicon.newlines = false := rfl
      simp only [hkind, hjava, Bool.false_and, Bool.false_eq_true, if_false] at hwords
      simp only [hgroovy, hjava, hl, Bool.and_false, Bool.false_eq_true, if_false,
        ih hls _ _ hwords]

/-- A source on one line without words of Groovy's own has the same tokens in both languages. -/
theorem tokenize_groovy_of_java {source : String} (h : java.lexicon.tokenize source = .ok tokens)
    (hline : '\n' ∉ (Unescaped.ofSource source.toList).text)
    (hwords : ∀ t ∈ tokens, t.text ∉ groovyOnlyWords) :
    groovy.lexicon.tokenize source = .ok tokens := by
  unfold Lexicon.tokenize at h ⊢
  have hjava : Lexeme.splitAll java.lexicon.shebang (Unescaped.ofSource source.toList).text =
      Lexeme.split (Unescaped.ofSource source.toList).text := rfl
  simp only [hjava] at h
  cases hsplit : Lexeme.split (Unescaped.ofSource source.toList).text with
  | error e =>
    rw [hsplit] at h
    cases h
  | ok lexemes =>
    rw [hsplit] at h
    cases h
    have hgroovy : Lexeme.splitAll groovy.lexicon.shebang (Unescaped.ofSource source.toList).text =
        .ok lexemes := by
      rw [Lexeme.splitAll, Lexeme.not_isPrefixOf_of_split hsplit, Bool.and_false,
        if_neg Bool.false_ne_true, hsplit]
    simp only [hgroovy]
    rw [tokensFrom_groovy (fun l hl => Lexeme.endsLine_of_mem_split hsplit hline hl) _ _ _ hwords]

end Language

/-! ## Slots -/

theorem Slot.token_mem_of_mem_attachFrom {pending : Option String}
    (h : s ∈ attachFrom pending tokens) : s.token ∈ tokens := by
  fun_induction attachFrom pending tokens with
  | case1 => cases h
  | case2 pending t ts hkind ih => exact List.mem_cons_of_mem _ (ih h)
  | case3 pending t ts hkind ih =>
    rcases List.mem_cons.mp h with rfl | h
    · exact List.mem_cons_self
    · exact List.mem_cons_of_mem _ (ih h)
  | case4 pending t ts hdoc hnewline ih =>
    rcases List.mem_cons.mp h with rfl | h
    · exact List.mem_cons_self
    · exact List.mem_cons_of_mem _ (ih h)

theorem Slot.mem_terminated {slots : List Slot} (h : s ∈ terminated slots) :
    s ∈ slots ∨ s.token.isEof = true := by
  unfold terminated at h
  split at h
  · rw [List.mem_singleton.mp h]
    exact .inr rfl
  · split at h
    · exact .inl h
    · rcases List.mem_append.mp h with h | h
      · exact .inl h
      · rw [List.mem_singleton.mp h]
        exact .inr rfl

/-- The slots of a cursor hold the tokens it was made from, and the end of the source. -/
theorem Cursor.mem_slots_ofTokens (h : s ∈ (Cursor.ofTokens tokens).slots) :
    s.token ∈ tokens ∨ s.token.isEof = true := by
  have hslots : s ∈ Slot.terminated (Slot.attach tokens) ∨ s.token.isEof = true := by
    unfold ofTokens at h
    split at h
    · rw [List.mem_singleton.mp h]
      exact .inr rfl
    · next heq => exact .inl (heq ▸ h)
  rcases hslots with hslots | heof
  · exact (Slot.mem_terminated hslots).imp_left Slot.token_mem_of_mem_attachFrom
  · exact .inr heof

end ApiDoc.Syntax
