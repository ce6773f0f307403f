import ApiDoc.Syntax.Lexeme

/-!
# Cutting loses nothing

`Starts` says which lexeme a text starts with, one rule for each class, and `first` follows it
(`starts_of_first`). So each lexeme is a non-empty start of the text that is left (`first_ok`), and
the lexemes of a text, put together, are the text (`flatten_split`).
-/

namespace ApiDoc.Syntax.Lexeme

variable {cs text : List Char} {quote : Char} {lexemes : List Lexeme}

theorem throughCommentEnd_isPrefix (h : throughCommentEnd cs = some text) : text <+: cs := by
  fun_induction throughCommentEnd cs generalizing text with
  | case1 => cases h
  | case2 rest =>
    cases h
    exact ⟨rest, rfl⟩
  | case3 c cs hend ih =>
    obtain ⟨rest, hrest, rfl⟩ := Option.map_eq_some_iff.mp h
    exact (List.prefix_cons_inj c).mpr (ih hrest)

theorem throughQuote_isPrefix (h : throughQuote quote cs = some text) : text <+: cs := by
  fun_induction throughQuote quote cs generalizing text with
  | case1 => cases h
  | case2 =>
    cases h
    exact List.prefix_refl _
  | case3 c hquote => cases h
  | case4 d cs =>
    cases h
    exact ⟨d :: cs, rfl⟩
  | case5 d cs hquote ih =>
    obtain ⟨rest, hrest, rfl⟩ := Option.map_eq_some_iff.mp h
    exact (List.prefix_cons_inj _).mpr ((List.prefix_cons_inj d).mpr (ih hrest))
  | case6 d cs hquote hescape => cases h
  | case7 c d cs hquote hescape hline ih =>
    obtain ⟨rest, hrest, rfl⟩ := Option.map_eq_some_iff.mp h
    exact (List.prefix_cons_inj c).mpr (ih hrest)

theorem throughTripleQuote_isPrefix (h : throughTripleQuote quote cs = some text) :
    text <+: cs := by
  fun_induction throughTripleQuote quote cs generalizing text with
  | case1 => cases h
  | case2 c => cases h
  | case3 d cs ih =>
    obtain ⟨rest, hrest, rfl⟩ := Option.map_eq_some_iff.mp h
    exact (List.prefix_cons_inj _).mpr ((List.prefix_cons_inj d).mpr (ih hrest))
  | case4 c d cs hescape hquotes =>
    cases h
    obtain ⟨_, _, hhead⟩ := hquotes
    obtain ⟨rest, rfl⟩ := List.head?_eq_some_iff.mp hhead
    exact ⟨rest, rfl⟩
  | case5 c d cs hescape hquotes ih =>
    obtain ⟨rest, hrest, rfl⟩ := Option.map_eq_some_iff.mp h
    exact (List.prefix_cons_inj c).mpr (ih hrest)

/-- A literal starts with its quote and goes on in the text. -/
theorem literal?_ok (h : literal? quote cs = some text) :
    ∃ tail, text = quote :: tail ∧ tail <+: cs := by
  have hplain : ∀ ds, (throughQuote quote ds).map (quote :: ·) = some text →
      ∃ tail, text = quote :: tail ∧ tail <+: ds := by
    intro ds hds
    obtain ⟨rest, hrest, rfl⟩ := Option.map_eq_some_iff.mp hds
    exact ⟨rest, rfl, throughQuote_isPrefix hrest⟩
  unfold literal? at h
  split at h
  · next d e rest =>
    split at h
    · next hquotes =>
      obtain ⟨rfl, rfl⟩ := hquotes
      obtain ⟨inner, hinner, rfl⟩ := Option.map_eq_some_iff.mp h
      refine ⟨_, rfl, ?_⟩
      exact (List.prefix_cons_inj _).mpr
        ((List.prefix_cons_inj _).mpr (throughTripleQuote_isPrefix hinner))
    · exact hplain _ h
  · exact hplain _ h

/-- A number starts with its first digit and goes on in the text. -/
theorem numberOf_cons {c : Char} (hc : isNumberPart c = true) (cs : List Char) :
    ∃ tail, numberOf (c :: cs) = c :: tail ∧ tail <+: cs := by
  have hsplit : cs.takeWhile isNumberPart ++ cs.dropWhile isNumberPart = cs :=
    List.takeWhile_append_dropWhile
  unfold numberOf
  simp only [List.takeWhile_cons, List.dropWhile_cons, hc, if_true]
  split
  · next d rest hrest =>
    rw [hrest] at hsplit
    split
    · refine ⟨_, List.cons_append, rest.dropWhile isNumberPart, ?_⟩
      rw [List.append_assoc, List.cons_append, List.cons_append,
        List.takeWhile_append_dropWhile, hsplit]
    · exact ⟨_, rfl, _, hsplit⟩
  · exact ⟨_, rfl, _, hsplit⟩

/-! ## Rules -/

/-- `Starts c cs kind text`: the text that starts with `c` and goes on in `cs` starts with the
lexeme `text`. -/
inductive Starts (c : Char) (cs : List Char) : LexemeKind → List Char → Prop
  | blank (hc : isGap c = true) : Starts c cs .blank (c :: cs.takeWhile isGap)
  | lineFeed (hc : c = '\n') : Starts c cs .lineFeed [c]
  | lineComment (hc : c = '/') (hcs : cs.head? = some '/') :
      Starts c cs .lineComment (c :: cs.takeWhile (· ≠ '\n'))
  | comment {body : List Char} (hc : c = '/') (hcs : cs.head? = some '*')
      (hbody : throughCommentEnd cs.tail = some body) :
      Starts c cs (if isDocComment ('/' :: '*' :: body) then .docComment else .blockComment)
        ('/' :: '*' :: body)
  | literal {text : List Char} (hc : c = '"' ∨ c = '\'') (htext : literal? c cs = some text) :
      Starts c cs (if c = '\'' ∧ isCharLiteral text then .charLit else .stringLit) text
  | word (hc : isWordStart c = true) : Starts c cs .word (c :: cs.takeWhile isWordPart)
  | number (hc : c.isDigit = true) : Starts c cs .number (numberOf (c :: cs))
  | ellipsis (hc : c = '.') (hcs : cs.take 2 = ['.', '.']) : Starts c cs .ellipsis ['.', '.', '.']
  | punct (hc : c ∈ punctuation)
      (hslash : c = '/' → cs.head? ≠ some '/' ∧ cs.head? ≠ some '*')
      (hdot : c = '.' → cs.take 2 ≠ ['.', '.']) : Starts c cs .punct [c]

theorem starts_of_first {c : Char} {kind : LexemeKind} (h : first c cs = .ok (kind, text)) :
    Starts c cs kind text := by
  unfold first at h
  split at h
  · next hc =>
    cases h
    exact .blank hc
  split at h
  · next hc =>
    cases h
    exact .lineFeed hc
  split at h
  · next hc =>
    cases h
    exact .lineComment hc.1 hc.2
  split at h
  · next hc =>
    split at h
    · cases h
    · next hbody =>
      cases h
      exact .comment hc.1 hc.2 hbody
  split at h
  · next hc =>
    split at h
    · cases h
    · next htext =>
      cases h
      exact .literal hc htext
  split at h
  · next hc =>
    cases h
    exact .word hc
  split at h
  · next hc =>
    cases h
    exact .number hc
  split at h
  · next hc =>
    cases h
    exact .ellipsis hc.1 hc.2
  split at h
  · next hline hcomment _ _ _ hdots hc =>
    cases h
    refine .punct (List.contains_iff_mem.mp hc) (fun hslash => ?_) fun hdot htwo =>
      hdots ⟨hdot, htwo⟩
    exact ⟨fun hhead => hline ⟨hslash, hhead⟩, fun hhead => hcomment ⟨hslash, hhead⟩⟩
  · cases h

/-- A lexeme is the next character and some of the text behind it. -/
theorem first_ok {c : Char} {kind : LexemeKind} (h : first c cs = .ok (kind, text)) :
    ∃ tail, text = c :: tail ∧ tail <+: cs := by
  cases starts_of_first h with
  | blank hc => exact ⟨_, rfl, List.takeWhile_prefix _⟩
  | lineFeed hc => exact ⟨_, rfl, List.nil_prefix⟩
  | lineComment hc hslash => exact ⟨_, rfl, List.takeWhile_prefix _⟩
  | comment hc hstar hbody =>
    subst hc
    obtain ⟨behind, rfl⟩ := List.head?_eq_some_iff.mp hstar
    exact ⟨_, rfl, (List.prefix_cons_inj _).mpr (throughCommentEnd_isPrefix hbody)⟩
  | literal hc htext => exact literal?_ok htext
  | word hc => exact ⟨_, rfl, List.takeWhile_prefix _⟩
  | number hc =>
    refine numberOf_cons ?_ cs
    simp [isNumberPart, Char.isAlphanum, hc]
  | ellipsis hc hdots =>
    subst hc
    exact ⟨_, rfl, hdots ▸ List.take_prefix 2 cs⟩
  | punct hc hslash hdot => exact ⟨_, rfl, List.nil_prefix⟩

/-! ## Lexemes of a text -/

/-- A text that can be cut is empty, or a lexeme and a text that can be cut. -/
@[elab_as_elim]
theorem split_induction {motive : List Char → List Lexeme → Prop} (nil : motive [] [])
    (cons : ∀ c tail behind kind rest, first c (tail ++ behind) = .ok (kind, c :: tail) → motive
      behind rest → motive (c :: tail ++ behind) (⟨kind, c :: tail⟩ :: rest))
    (h : split text = .ok lexemes) : motive text lexemes := by
  fun_induction split text generalizing lexemes with
  | case1 =>
    cases h
    exact nil
  | case2 c cs fault hfirst => cases h
  | case3 c cs kind text hfirst error hrest ih => cases h
  | case4 c cs kind text hfirst rest hrest ih =>
    cases h
    obtain ⟨tail, rfl, behind, rfl⟩ := first_ok hfirst
    have hcut : (tail ++ behind).drop ((c :: tail).length - 1) = behind := by simp
    rw [hcut] at hrest ih
    exact cons c tail behind kind rest hfirst (ih hrest)

/-- The lexemes of a text, put together, are the text. -/
theorem flatten_split (h : split text = .ok lexemes) :
    (lexemes.map Lexeme.text).flatten = text := by
  refine split_induction rfl ?_ h
  intro c tail behind kind rest hfirst ih
  rw [List.map_cons, List.flatten_cons, ih]

/-- Every lexeme of a text is cut off at some place of it. -/
theorem first_of_mem_split (h : split text = .ok lexemes) :
    ∀ l ∈ lexemes, ∃ c cs, first c cs = .ok (l.kind, l.text) := by
  refine split_induction (fun _ h => nomatch h) ?_ h
  intro c tail behind kind rest hfirst ih
  exact List.forall_mem_cons.mpr ⟨⟨c, _, hfirst⟩, ih⟩

end ApiDoc.Syntax.Lexeme
