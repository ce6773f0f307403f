import ApiDoc.Proofs.Dialect.TypeDef
import ApiDoc.Proofs.Syntax.Total

/-!
# Groovy reads what Java reads: files

A Java file is a Groovy file with the same tree, under conditions that keep Groovy from reading it
another way: it stands on one line, none of its words is reserved in Groovy alone, its package
clause stands without modifiers and no name has dimensions behind it.
-/

namespace ApiDoc.Syntax

open ApiDoc.Syntax.Parser

variable {c d e : Cursor} {t : Tree JavaKind} {text : String}

/-! ## Package and imports -/

namespace Grammar

theorem packageDef_groovy (h : java.packageDef c = .ok t d) :
    groovy.packageDef c = .ok t.normalized d := by
  simp only [packageDef, bind_ok, pure_ok] at h ⊢
  obtain ⟨word, e, hword, name, f, hname, _, g, hend, rfl, rfl⟩ := h
  exact ⟨word, e, hword, name, f, qualifiedName_soft hname, (), g, endOfDeclaration_groovy hend,
    (normalized_leaf ..).symm, rfl⟩

theorem importAlias_groovy {name : String} (hc : c.Shared)
    (h : java.importAlias name c = .ok text d) : groovy.importAlias name c = .ok text d := by
  have h : (pure name : Parser String) c = .ok text d := h
  rw [pure_ok] at h
  obtain ⟨rfl, rfl⟩ := h
  have hnot : c.token.isKeyword "as" = false := hc.isKeyword (by decide)
  simp only [importAlias, groovy_language, eatKeyword_bind, hnot, Bool.false_eq_true, if_false,
    pure_apply]

theorem importRest_groovy {name : String} (hc : c.Shared)
    (h : java.importRest name c = .ok text d) : groovy.importRest name c = .ok text d := by
  simp only [importRest, eatPunct_bind, ite_ok, bind_ok, pure_ok, Bool.false_eq_true, if_true,
    if_false] at h ⊢
  rcases h with hstar | ⟨hdot, halias⟩
  · exact .inl hstar
  · exact .inr ⟨hdot, importAlias_groovy hc halias⟩

theorem importDef_groovy (hc : c.Shared) (h : java.importDef c = .ok t d) :
    groovy.importDef c = .ok t.normalized d := by
  simp only [importDef, bind_ok, pure_ok] at h ⊢
  obtain ⟨word, c₁, hword, isStatic, c₂, hstatic, name, c₃, hname, whole, c₄, hwhole, _, c₅, hend,
    rfl, rfl⟩ := h
  have hc₁ : c₁.Shared := hc.of_ok (fun _ => runs_expectKeyword "import") hword
  have hc₂ : c₂.Shared := hc₁.of_ok (fun _ => runs_eatIf _) hstatic
  have hc₃ : c₃.Shared := hc₂.of_ok (fun _ => runs_qualifiedName _) hname
  exact ⟨word, c₁, hword, isStatic, c₂, hstatic, name, c₃, qualifiedName_soft hname, whole, c₄,
    importRest_groovy hc₃ hwhole, (), c₅, endOfDeclaration_groovy hend, (normalized_leaf ..).symm,
    rfl⟩

/-- Modifiers that are none leave the cursor where it is. -/
theorem modifiers_of_nil (h : java.modifiers c = .ok t d) (hnil : t.children = []) : d = c := by
  simp only [modifiers, pos_bind, bind_ok, pure_ok] at h
  obtain ⟨found, e, hfound, rfl, rfl⟩ := h
  have hstay : found = [] → ([] : List (Tree JavaKind)) = [] ∧ e = c := by
    refine iterate_induction (motive := fun s c a d => a = [] → s = [] ∧ d = c) ?_ ?_ hfound
    · intro found c found' d hround hnil
      simp only [modifiersRound, get_bind, ite_run, ite_ok, bump_bind, passLines_bind, bind_ok,
        pure_ok, reduceCtorEq, false_and, and_false, exists_false, false_or, Step.done.injEq]
        at hround
      obtain ⟨-, -, rfl, rfl⟩ := hround
      exact ⟨hnil, rfl⟩
    · intro found c found' e found'' d hround hlt ih hnil
      obtain ⟨hfound', -⟩ := ih hnil
      simp only [modifiersRound, get_bind, ite_run, ite_ok, bump_bind, passLines_bind, bind_ok,
        pure_ok, reduceCtorEq, false_and, and_false, or_false, Step.next.injEq, hfound',
        List.append_eq_nil_iff, List.cons_ne_nil, exists_false] at hround
  exact (hstay hnil).2

end Grammar

/-! ## Declarations -/

namespace Java

/-- Where the declarations of a file start, from the cursor on. -/
def declarationStarts (c : Cursor) : List Cursor :=
  Grammar.java.pastSeparators c ::
    match declaration (Grammar.java.pastSeparators c) with
    | .ok _ d => if d.remaining < c.remaining then declarationStarts d else []
    | .error _ _ => []
termination_by c.remaining

/-- If a package clause is declared at the cursor, does it stand without modifiers? -/
def hasBarePackage (c : Cursor) : Bool :=
  match Grammar.java.modifiers c with
  | .ok modifiers d => !d.token.isKeyword "package" || modifiers.children.isEmpty
  | .error _ _ => true

end Java

namespace Grammar

/-- The words that start a package clause or an import are no modifiers. -/
theorem modifiers_of_keyword {word : String} (h : c.token.isKeyword word = true)
    (hword : word ∉ Language.java.modifierWords) (hmodifiers : java.modifiers c = .ok t d) :
    t.children = [] ∧ d = c := by
  have hkind := Token.kind_of_isKeyword h
  simp only [Token.isKeyword, Bool.and_eq_true, decide_eq_true_eq] at h
  have hnone : java.modifiers c = .ok _ c :=
    modifiers_of_none (Token.isPunct_of_kind (by simp [hkind]))
      (by simp [atModifier, java_language, h.2, hword])
  cases hnone.symm.trans hmodifiers
  exact ⟨rfl, rfl⟩

/-- A declaration at the top of a Java file, as a Groovy file takes it. -/
theorem declaration_groovy (hc : c.Shared) (h : Java.declaration c = .ok t d)
    (hpackage : Java.hasBarePackage c = true) (hplain : t.Plain) :
    (if c.token.isKeyword "package" then groovy.packageDef
      else if c.token.isKeyword "import" then groovy.importDef
      else Groovy.declaration) c = .ok t.normalized d := by
  simp only [Java.declaration, get_bind, ite_run, ite_ok, bind_ok, not_unexpected_ok, and_false,
    or_false] at h ⊢
  obtain ⟨modifiers, e, hmodifiers, ⟨hword, hdef⟩ | ⟨hnoPackage, ⟨hword, hdef⟩ | ⟨hnoImport, hat,
    hdef⟩⟩⟩ := h
  · have hnil : modifiers.children = [] := by
      simpa [Java.hasBarePackage, hmodifiers, hword] using hpackage
    cases modifiers_of_nil hmodifiers hnil
    exact .inl ⟨hword, packageDef_groovy hdef⟩
  · simp only [Bool.and_eq_true, List.isEmpty_iff] at hword
    cases modifiers_of_nil hmodifiers hword.2
    exact .inr ⟨hnoPackage, .inl ⟨hword.1, importDef_groovy hc hdef⟩⟩
  · -- Groovy looks at the first word, and Java at the one behind the modifiers
    have hfirst : ¬c.token.isKeyword "package" = true := by
      intro hfirst
      obtain ⟨-, rfl⟩ := modifiers_of_keyword hfirst (by decide) hmodifiers
      exact hnoPackage hfirst
    have hfirst' : ¬c.token.isKeyword "import" = true := by
      intro hfirst'
      obtain ⟨hnil, rfl⟩ := modifiers_of_keyword hfirst' (by decide) hmodifiers
      exact hnoImport (by simp [hfirst', hnil])
    have he : e.Shared := hc.of_ok (fun _ => java.runs_modifiers) hmodifiers
    refine .inr ⟨hfirst, .inr ⟨hfirst', ?_⟩⟩
    simp only [Groovy.declaration, get_bind, bind_ok]
    refine ⟨modifiers.normalized, e, modifiers_groovy hc hmodifiers (isPunct_of_atTypeDef hat), ?_⟩
    rw [ite_run, atTypeDef_groovy he, if_pos hat]
    exact topTypeDef_groovy he hdef hat hplain

end Grammar

/-! ## Files -/

theorem Groovy.fileRound_of_declaration {found : List (Tree NodeKind)} {n : Tree NodeKind}
    (hpast : Grammar.groovy.pastSeparators c = e) (heof : e.token.isEof = false)
    (h : (if e.token.isKeyword "package" then Grammar.groovy.packageDef
      else if e.token.isKeyword "import" then Grammar.groovy.importDef
      else Groovy.declaration) e = .ok n d) :
    Groovy.fileRound found c = .ok (.next (found ++ [n])) d := by
  simp only [Groovy.fileRound, Grammar.passSeparators_bind, peek_bind, hpast, heof,
    Bool.false_eq_true, if_false, ite_run] at h ⊢
  split at h
  · rw [if_pos ‹_›, bind_of_ok h, pure_apply]
  · rw [if_neg ‹_›]
    split at h
    · rw [if_pos ‹_›, bind_of_ok h, pure_apply]
    · rw [if_neg ‹_›, bind_of_ok h, pure_apply]

/-- The declarations of a Java file, one after the other. -/
theorem fileRounds_groovy {found all : List (Tree JavaKind)} (hc : c.Shared)
    (h : iterate found Java.fileRound c = .ok all d)
    (hpackages : ∀ start ∈ Java.declarationStarts c, Java.hasBarePackage start = true)
    (hplain : ∀ t ∈ all, t.Plain) :
    iterate (found.map Tree.normalized) Groovy.fileRound c = .ok (all.map Tree.normalized) d ∧
      ∀ t ∈ found, t.Plain := by
  revert hc hpackages hplain
  refine iterate_induction (motive := fun found c all d => c.Shared →
    (∀ start ∈ Java.declarationStarts c, Java.hasBarePackage start = true) →
    (∀ t ∈ all, t.Plain) →
    iterate (found.map Tree.normalized) Groovy.fileRound c = .ok (all.map Tree.normalized) d ∧
      ∀ t ∈ found, t.Plain) ?_ ?_ h
  · intro found c all d hround hc _ hplain
    obtain ⟨heof, hdone, rfl⟩ | ⟨-, n, -, hnext⟩ := Java.fileRound_ok hround
    · cases hdone
      refine ⟨iterate_of_done ?_, hplain⟩
      simp only [Groovy.fileRound, Grammar.passSeparators_bind, peek_bind, hc.pastSeparators, heof,
        if_true, pure_apply]
    · cases hnext
  · intro found c found' e all d hround hlt ih hc hpackages hplain
    obtain ⟨-, hdone, -⟩ | ⟨heof, n, hn, hnext⟩ := Java.fileRound_ok hround
    · cases hdone
    · cases hnext
      -- the start of this declaration is the first of the starts, the others are those from here on
      rw [Java.declarationStarts, List.forall_mem_cons, hn] at hpackages
      simp only [hlt, if_true] at hpackages
      have hstart : (Grammar.java.pastSeparators c).Shared :=
        hc.onward (Grammar.java.onward_pastSeparators c)
      have he : e.Shared := hstart.of_ok (fun _ => Java.runs_declaration) hn
      obtain ⟨hrest, hfound⟩ := ih he hpackages.2 hplain
      rw [List.forall_mem_append, List.forall_mem_singleton] at hfound
      rw [List.map_append] at hrest
      have hdeclaration := Grammar.declaration_groovy hstart hn hpackages.1 hfound.2
      exact ⟨(iterate_of_next (Groovy.fileRound_of_declaration hc.pastSeparators heof hdeclaration)
        hlt).trans hrest, hfound.1⟩

theorem isNewline_of_mem_tokensFrom {lexicon : Lexicon} (hlines : lexicon.newlines = false)
    {place : Nat → Text.Position} {offset : Nat} {spaced : Bool} {lexemes : List Lexeme}
    {token : Token} (h : token ∈ lexicon.tokensFrom place offset spaced lexemes) :
    token.isNewline = false := by
  fun_induction Lexicon.tokensFrom lexicon place offset spaced lexemes with
  | case1 =>
    rw [List.mem_singleton.mp h]
    rfl
  | case2 offset spaced l ls behind kind hkind ih =>
    rcases List.mem_cons.mp h with rfl | h
    · exact Token.isNewline_of_kind (Lexicon.tokenKind?_ne hkind).1
    · exact ih h
  | case3 offset spaced l ls behind hkind rest hends ih =>
    rw [hlines, Bool.false_and] at hends
    cases hends
  | case4 offset spaced l ls behind hkind rest hends ih => exact ih h

/-- In Java a line end is no token, so the tokens are those of a shared source if no word is
Groovy's own. -/
theorem shared_ofTokens {source : String} {tokens : List Token}
    (htokens : Language.java.lexicon.tokenize source = .ok tokens)
    (h : ∀ token ∈ tokens, token.text ∉ Language.groovyOnlyWords) :
    (Cursor.ofTokens tokens).Shared := by
  refine ⟨Track.ofTokens tokens, Cursor.slots_ofTokens tokens, fun s hs => ?_⟩
  rw [← Cursor.slots_ofTokens] at hs
  rcases Cursor.mem_slots_ofTokens hs with htoken | heof
  · refine ⟨?_, fun _ => h _ htoken⟩
    unfold Lexicon.tokenize at htokens
    dsimp only at htokens
    split at htokens
    · cases htokens
    · cases htokens
      exact isNewline_of_mem_tokensFrom rfl htoken
  · simp only [Token.isEof, decide_eq_true_eq] at heof
    exact ⟨Token.isNewline_of_kind (by simp [heof]), fun hkind => absurd hkind (by simp [heof])⟩

theorem file_groovy (hc : c.Shared) (h : Java.file c = .ok t d)
    (hpackages : ∀ start ∈ Java.declarationStarts c, Java.hasBarePackage start = true)
    (hplain : t.Plain) : Groovy.file c = .ok t.normalized d := by
  obtain ⟨all, e, hall, hunit⟩ := bind_ok.mp h
  cases hunit
  have hall : iterate [] Java.fileRound c = .ok all d := hall
  obtain ⟨hrounds, -⟩ := fileRounds_groovy hc hall hpackages fun t ht => hplain.of_mem ht
  refine bind_ok.mpr ⟨all.map Tree.normalized, d, hrounds, ?_⟩
  exact congrArg (EStateM.Result.ok · d) (Grammar.normalized_node ..).symm

/-- The Groovy parser reads a Java file on one line as the Java parser does: if no token is a word
of Groovy's own, no package clause has modifiers and no name has dimensions behind it, a source that
has a Java tree has a Groovy tree, and that is the Java tree in the normalized vocabulary. -/
theorem groovy_parse_eq_normalized_java {source : String} {t : Tree JavaKind}
    (hline : '\n' ∉ (Text.Unescaped.ofSource source.toList).text)
    (hwords : ∀ tokens, Language.java.lexicon.tokenize source = .ok tokens →
      ∀ token ∈ tokens, token.text ∉ ["def", "as", "in", "trait", "threadsafe"])
    (hpackages : ∀ tokens, Language.java.lexicon.tokenize source = .ok tokens →
      ∀ start ∈ Java.declarationStarts (Cursor.ofTokens tokens), Java.hasBarePackage start = true)
    (hjava : Java.parse source = .ok t) (hdims : ∀ n ∈ t.preorder, n.kind ≠ .arrayDeclarator) :
    ∃ t', Groovy.parse source = .ok t' ∧ TagTable.java.normalize t = .ok t' := by
  refine ⟨t.normalized, ?_, TagTable.normalize_java t⟩
  cases htokens : Language.java.lexicon.tokenize source with
  | error e =>
    simp only [Java.parse, htokens] at hjava
    cases hjava
  | ok tokens =>
    -- The tokens are the same, so both parsers run from one cursor.
    have hgroovy := Language.tokenize_groovy_of_java htokens hline (hwords tokens htokens)
    have hshared : (Cursor.ofTokens tokens).Shared :=
      shared_ofTokens htokens (hwords tokens htokens)
    rw [Java.parse, htokens] at hjava
    rw [Groovy.parse, hgroovy]
    have hread : Java.file.read (Cursor.ofTokens tokens) = .ok t := hjava
    obtain ⟨d, hfile⟩ := read_ok.mp hread
    exact read_ok.mpr ⟨d, file_groovy hshared hfile (hpackages tokens htokens) hdims⟩

/-- A package clause, and a class with fields, a constructor and an enum. -/
def oneLineClass : String :=
  "package a; @B class C<T> \x7b int x = 1, y; C(int... z) \x7b \x7d enum E \x7b P \x7d \x7d"

theorem groovy_parse_eq_normalized_java_class :
    ∃ t t', Java.parse oneLineClass = .ok t ∧ Groovy.parse oneLineClass = .ok t' ∧
      TagTable.java.normalize t = .ok t' := by
  have htokens : ∀ tokens ∈ (Language.java.lexicon.tokenize oneLineClass).toOption,
      (∀ token ∈ tokens, token.text ∉ ["def", "as", "in", "trait", "threadsafe"]) ∧
      ∀ start ∈ Java.declarationStarts (Cursor.ofTokens tokens),
        Java.hasBarePackage start = true := by
    decide +kernel
  have htree : (Java.parse oneLineClass).toOption.isSome = true ∧
      ∀ t ∈ (Java.parse oneLineClass).toOption, ∀ n ∈ t.preorder, n.kind ≠ .arrayDeclarator := by
    decide +kernel
  cases hjava : Java.parse oneLineClass with
  | error e =>
    rw [hjava] at htree
    cases htree.1
  | ok t =>
    obtain ⟨t', hgroovy, hnormalize⟩ := groovy_parse_eq_normalized_java (by decide +kernel)
      (fun tokens h => (htokens tokens (by rw [h]; rfl)).1)
      (fun tokens h => (htokens tokens (by rw [h]; rfl)).2) hjava (htree.2 t (by rw [hjava]; rfl))
    exact ⟨t, t', rfl, hgroovy, hnormalize⟩

end ApiDoc.Syntax
