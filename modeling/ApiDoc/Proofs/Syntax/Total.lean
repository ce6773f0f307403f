import ApiDoc.Proofs.Syntax.Facing
import ApiDoc.Proofs.Syntax.GroovyFile
import ApiDoc.Proofs.Syntax.Layout

/-!
# Reading whole files

Every source is read to its end or has a fault. No repetition stalls, no mark is ahead of the
cursor, and the cursor is at one of the slots of the source all the time: `parse_total`.

What a round of a file takes is known from the grammar (`Runs`); here it is put together for whole
files, from the first token of a source to the token that ends it.
-/

namespace ApiDoc.Syntax

open ApiDoc.Syntax.Parser

variable {lexicon : Lexicon} {source : String} {tokens : List Token}

variable {track : Track} {mark : Nat} {c d : Cursor}

/-- A repetition that is done at the end of the source only goes on to the end. -/
theorem isEof_of_iterate {σ α : Type} {round : σ → Parser (Step σ α)} {s : σ} {a : α}
    (hdone : ∀ s c a d, round s c = .ok (.done a) d → d.token.isEof = true)
    (h : iterate s round c = .ok a d) : d.token.isEof = true := by
  refine iterate_induction (motive := fun _ _ _ d => d.token.isEof = true) hdone ?_ h
  intro s c s' e a d hround hlt ih
  exact ih

/-! ## Java files -/

namespace Java

theorem runs_declaration : Runs track mark declaration fun _ => mark + 1 := by
  refine .get fun start _ hmark => ?_
  refine .bind Grammar.java.runs_modifiers fun modifiers => ?_
  refine .get fun c _ hle => ?_
  have hreach : ∀ _ : Tree JavaKind, mark + 1 ≤ c.index + 1 := fun _ =>
    Nat.succ_le_succ (Nat.le_trans hmark hle)
  apply Runs.ite
  · exact Grammar.java.runs_packageDef.mono (Nat.le_refl _) hreach
  apply Runs.ite
  · exact Grammar.java.runs_importDef.mono (Nat.le_refl _) hreach
  apply Runs.ite
  · exact (Grammar.java.runs_topTypeDef _ _).mono (Nat.le_refl _) hreach
  · exact runs_unexpected _

theorem runs_fileRound (found : List (Tree JavaKind)) :
    Runs track mark (fileRound found) (Step.reach mark 0) := by
  refine .bind Grammar.java.runs_passSeparators fun _ => ?_
  refine .bind runs_peek fun t => ?_
  apply Runs.ite
  · exact .pure (Nat.le_refl _)
  · refine .bind runs_declaration fun _ => ?_
    exact .pure (Nat.le_refl _)

theorem runs_file : Runs track mark file fun _ => mark := by
  refine .bind (.iterate (fun _ => runs_fileRound) []) fun _ => ?_
  exact .pure (Nat.le_refl _)

theorem fileRound_ok {found : List (Tree JavaKind)}
    {r : Step (List (Tree JavaKind)) (List (Tree JavaKind))}
    (h : fileRound found c = .ok r d) :
    (Grammar.java.pastSeparators c).token.isEof = true ∧ r = .done found ∧
        d = Grammar.java.pastSeparators c ∨
      (Grammar.java.pastSeparators c).token.isEof = false ∧
        ∃ n, declaration (Grammar.java.pastSeparators c) = .ok n d ∧ r = .next (found ++ [n]) := by
  simp only [fileRound, Grammar.passSeparators_bind, peek_bind, ite_run, ite_ok, bind_ok, pure_ok,
    Bool.not_eq_true] at h
  rcases h with ⟨heof, rfl, rfl⟩ | ⟨heof, n, e, hn, rfl, rfl⟩
  · exact .inl ⟨heof, rfl, rfl⟩
  · exact .inr ⟨heof, n, hn, rfl⟩

/-- A file is read to the end of the source. -/
theorem isEof_of_file {t : Tree JavaKind} (h : file c = .ok t d) : d.token.isEof = true := by
  obtain ⟨all, e, hall, hunit⟩ := bind_ok.mp h
  cases hunit
  refine isEof_of_iterate (fun found c all d hround => ?_) hall
  obtain ⟨heof, -, rfl⟩ | ⟨-, n, -, hnext⟩ := fileRound_ok hround
  · exact heof
  · cases hnext

end Java

/-! ## Groovy files -/

namespace Groovy

theorem runs_methodType (hasModifiers : Bool) :
    Runs track mark (methodType hasModifiers) fun _ => mark := by
  refine .bind (runs_eatIf _) fun _ => ?_
  refine .ite (.pure (Nat.le_refl _)) ?_
  refine .get fun c _ hmark => ?_
  refine .ite (.pure hmark) ?_
  exact (runs_succeeds (runs_typeText _ _).stay (forward_typeText _ _)).mono (Nat.le_refl _)
    fun _ => hmark

theorem runs_methodHead (hasModifiers : Bool) :
    Runs track mark (methodHead hasModifiers) fun _ => mark := by
  refine .bind (runs_methodType hasModifiers) fun typed => ?_
  refine .get fun c _ hmark => ?_
  refine .ite (.pure hmark) ?_
  refine .bind runs_take fun _ => ?_
  refine .bind (runs_succeeds runs_skipBalanced.stay forward_skipBalanced) fun _ => ?_
  apply Runs.ite
  · exact .get fun d _ hle => .pure (Nat.le_trans hmark hle)
  · exact .pure hmark

theorem runs_looksLikeMethod (hasModifiers : Bool) :
    Runs track mark (looksLikeMethod hasModifiers) fun _ => mark :=
  runs_lookahead fun _ => runs_methodHead hasModifiers

theorem runs_statement : Runs track mark statement fun _ => mark + 1 := by
  refine .get fun start _ hmark => ?_
  refine .bind (Grammar.groovy.runs_skipExpression false) fun _ => ?_
  refine .get fun c _ hle => ?_
  split
  · exact runs_unexpected_bind _
  · -- The statement is not empty, so the cursor has come further.
    next hne =>
    have hlt : start.index + 1 ≤ c.index := Nat.lt_of_le_of_ne hle fun heq => hne heq.symm
    refine .bind (runs_textSince hle) fun _ => ?_
    exact .pure (Nat.le_trans (Nat.succ_le_succ hmark) hlt)

theorem runs_declaration : Runs track mark declaration fun _ => mark + 1 := by
  refine .get fun start _ hmark => ?_
  refine .bind Grammar.groovy.runs_modifiers fun modifiers => ?_
  have hreach : ∀ _ : Tree NodeKind, mark + 1 ≤ start.index + 1 := fun _ => Nat.succ_le_succ hmark
  refine .get fun c _ hle => ?_
  apply Runs.ite
  · exact (Grammar.groovy.runs_topTypeDef _ _).mono hle hreach
  refine .bind (runs_looksLikeMethod _) fun _ => ?_
  apply Runs.ite
  · refine .bind (Grammar.groovy.runs_methodOrFields _ _ _) fun found => ?_
    split
    · exact .pure (Nat.succ_le_succ (Nat.le_trans hmark hle))
    · exact runs_unexpected _
  · refine .bind (runs_rewind hle) fun _ => ?_
    exact runs_statement.mono (Nat.le_refl _) hreach

theorem runs_fileRound (found : List (Tree NodeKind)) :
    Runs track mark (fileRound found) (Step.reach mark 0) := by
  refine .bind Grammar.groovy.runs_passSeparators fun _ => ?_
  refine .bind runs_peek fun t => ?_
  apply Runs.ite
  · exact .pure (Nat.le_refl _)
  apply Runs.ite
  · exact .bind Grammar.groovy.runs_packageDef fun _ => .pure (Nat.le_refl _)
  apply Runs.ite
  · exact .bind Grammar.groovy.runs_importDef fun _ => .pure (Nat.le_refl _)
  · exact .bind runs_declaration fun _ => .pure (Nat.le_refl _)

theorem runs_file : Runs track mark file fun _ => mark := by
  refine .bind (.iterate (fun _ => runs_fileRound) []) fun _ => ?_
  exact .pure (Nat.le_refl _)

/-- A file is read to the end of the source. -/
theorem isEof_of_file {t : Tree NodeKind} (h : file c = .ok t d) : d.token.isEof = true := by
  obtain ⟨all, e, hall, hunit⟩ := bind_ok.mp h
  cases hunit
  refine isEof_of_iterate (fun found c all d hround => ?_) hall
  obtain ⟨heof, -, rfl⟩ | ⟨n, hnext, -⟩ := fileRound_ok hround
  · exact heof
  · cases hnext

end Groovy

/-! ## The end of the source -/

/-- Attaching comments keeps the last token last. -/
theorem Slot.attachFrom_append_last {body : List Token} {last : Token} (hlast : last.kind = .eof)
    (pending : Option String) :
    ∃ front s, attachFrom pending (body ++ [last]) = front ++ [s] ∧ s.token = last ∧
      ∀ t ∈ front, t.token ∈ body := by
  induction body generalizing pending with
  | nil =>
    refine ⟨[], ⟨last, pending⟩, ?_, rfl, by simp⟩
    simp [attachFrom, hlast]
  | cons t body ih =>
    have hmore : ∀ {front : List Slot}, (∀ u ∈ front, u.token ∈ body) →
        ∀ u ∈ front, u.token ∈ t :: body :=
      fun hfront u hu => List.mem_cons_of_mem _ (hfront u hu)
    -- A doc comment becomes pending, a line end leaves it so, and any other token takes it.
    rw [List.cons_append, attachFrom]
    split
    · obtain ⟨front, s, hslots, hs, hfront⟩ := ih (some t.text)
      exact ⟨front, s, hslots, hs, hmore hfront⟩
    · obtain ⟨front, s, hslots, hs, hfront⟩ := ih pending
      exact ⟨⟨t, none⟩ :: front, s, by rw [hslots, List.cons_append], hs,
        List.forall_mem_cons.mpr ⟨List.mem_cons_self, hmore hfront⟩⟩
    · obtain ⟨front, s, hslots, hs, hfront⟩ := ih none
      exact ⟨⟨t, pending⟩ :: front, s, by rw [hslots, List.cons_append], hs,
        List.forall_mem_cons.mpr ⟨List.mem_cons_self, hmore hfront⟩⟩

theorem Lexicon.eof_of_tokenize (h : lexicon.tokenize source = .ok tokens) :
    ∃ body last, tokens = body ++ [last] ∧ last.kind = .eof ∧ ∀ t ∈ body, t.kind ≠ .eof := by
  unfold tokenize at h
  dsimp only at h
  split at h
  · cases h
  · next lexemes hsplit =>
    obtain ⟨body, last, hbody, hlast, hothers⟩ := @lexicon.eof_tokensFrom
      (Text.placeIn source.toList) 0 false lexemes
    exact ⟨body, last, (Except.ok.inj h).symm.trans hbody, hlast, hothers⟩

/-- The tokens of a source need no end put behind them. -/
theorem Lexicon.slots_eq_attach (h : lexicon.tokenize source = .ok tokens) :
    (Cursor.ofTokens tokens).slots = Slot.attach tokens := by
  obtain ⟨body, last, rfl, hlast, -⟩ := eof_of_tokenize h
  obtain ⟨front, s, hslots, rfl, -⟩ := Slot.attachFrom_append_last hlast none
  have hattach : Slot.attach (body ++ [s.token]) = front ++ [s] := hslots
  have heof : s.token.isEof = true := by simp [Token.isEof, hlast]
  rw [Cursor.slots_ofTokens]
  show Slot.terminated (Slot.attach (body ++ [s.token])) = Slot.attach (body ++ [s.token])
  rw [hattach, Slot.terminated]
  simp [heof]

/-- A source is read from its first slot on. -/
theorem Cursor.ofTokens_eq_facing (h : lexicon.tokenize source = .ok tokens) :
    ofTokens tokens = facing [] (Slot.attach tokens) := by
  have hslots := Lexicon.slots_eq_attach h
  have hplace : ofTokens tokens = facing [] (Slot.terminated (Slot.attach tokens)) := by
    unfold ofTokens
    cases Slot.terminated (Slot.attach tokens) <;> rfl
  rw [slots_ofTokens] at hslots
  rw [hplace]
  exact congrArg (facing []) hslots

/-- In the slots of a source, the end stands at the end only. -/
theorem Lexicon.slots_of_tokenize (h : lexicon.tokenize source = .ok tokens) :
    ∃ front s, (Cursor.ofTokens tokens).slots = front ++ [s] ∧
      ∀ t ∈ front, t.token.isEof = false := by
  rw [slots_eq_attach h]
  obtain ⟨body, last, rfl, hlast, hothers⟩ := eof_of_tokenize h
  obtain ⟨front, s, hslots, rfl, hfront⟩ := Slot.attachFrom_append_last hlast none
  exact ⟨front, s, hslots, fun t ht => Token.isEof_of_kind (hothers _ (hfront t ht))⟩

/-- A cursor at the end of a source has nothing behind it. -/
theorem Cursor.after_eq_nil {front : List Slot} {s : Slot} (hslots : c.slots = front ++ [s])
    (hfront : ∀ t ∈ front, t.token.isEof = false) (heof : c.token.isEof = true) :
    c.after = [] := by
  have hindex : front.length ≤ c.index := by
    by_contra hlt
    have hhere := c.getElem?_index
    rw [hslots, List.getElem?_append_left (by omega)] at hhere
    have hfalse := hfront _ (List.mem_of_getElem? hhere)
    rw [show c.here.token.isEof = true from heof] at hfalse
    cases hfalse
  have hlength := congrArg List.length hslots
  rw [c.length_slots, List.length_append, List.length_singleton] at hlength
  rw [← List.length_eq_zero_iff, c.length_after]
  omega

/-! ## Faults in the tokens -/

namespace Lexeme

theorem isLexical_of_first {c : Char} {cs : List Char} {fault : Fault}
    (h : first c cs = .error fault) : fault.isLexical = true := by
  unfold first at h
  grind [Fault.isLexical]

theorem isLexical_of_split {text : List Char} {e : CutError} (h : split text = .error e) :
    e.fault.isLexical = true := by
  fun_induction split text generalizing e with
  | case1 => cases h
  | case2 c cs fault hfirst =>
    cases h
    exact isLexical_of_first hfirst
  | case3 c cs kind text hfirst e' hrest ih =>
    have hfault : e'.fault.isLexical = true := ih hrest
    cases h
    exact hfault
  | case4 c cs kind text hfirst rest hrest ih => cases h

theorem isLexical_of_splitAll {shebang : Bool} {text : List Char} {e : CutError}
    (h : splitAll shebang text = .error e) : e.fault.isLexical = true := by
  unfold splitAll at h
  split at h
  · split at h
    · next e' hrest =>
      have hfault : e'.fault.isLexical = true := isLexical_of_split hrest
      cases h
      exact hfault
    · cases h
  · exact isLexical_of_split h

end Lexeme

theorem Lexicon.isInternal_of_tokenize {e : ParseError} (h : lexicon.tokenize source = .error e) :
    e.fault.isInternal = false := by
  unfold tokenize at h
  dsimp only at h
  split at h
  · next e' hsplit =>
    cases h
    have hlexical := Lexeme.isLexical_of_splitAll hsplit
    cases hfault : e'.fault <;> simp_all [Fault.isLexical, Fault.isInternal]
  · cases h

/-! ## Any source -/

/-- Reading a source by a parser that gets on ends in a value, or in a fault of the source. -/
theorem isInternal_of_read {α : Type} {p : Parser α}
    (hp : ∀ track mark, Runs track mark p fun _ => mark) {e : ParseError}
    (h : (lexicon.tokenize source >>= fun tokens => p.read (Cursor.ofTokens tokens)) = .error e) :
    e.fault.isInternal = false := by
  cases htokens : lexicon.tokenize source with
  | error e' =>
    rw [htokens] at h
    cases h
    exact lexicon.isInternal_of_tokenize htokens
  | ok tokens =>
    rw [htokens] at h
    have hrun := hp _ 0 (Cursor.ofTokens tokens) (Cursor.slots_ofTokens tokens) (Nat.zero_le _)
    have hread : p.read (Cursor.ofTokens tokens) = .error e := h
    unfold Parser.read at hread
    split at hread
    · cases hread
    · next e' d hresult =>
      cases hread
      rwa [hresult] at hrun

/-- Where a parser that gets on and stops at an end stops, nothing is left. -/
theorem atEnd_of_file {α : Type} {p : Parser α} {a : α}
    (hp : ∀ track mark, Runs track mark p fun _ => mark)
    (htokens : lexicon.tokenize source = .ok tokens) (h : p (Cursor.ofTokens tokens) = .ok a d)
    (heof : d.token.isEof = true) :
    d.slots = (Cursor.ofTokens tokens).slots ∧ d.token.isEof = true ∧ d.after = [] := by
  have hrun := hp _ 0 (Cursor.ofTokens tokens) (Cursor.slots_ofTokens tokens) (Nat.zero_le _)
  rw [h] at hrun
  have hslots : d.slots = (Cursor.ofTokens tokens).slots :=
    hrun.1.trans (Cursor.slots_ofTokens tokens).symm
  obtain ⟨front, s, hfront, hothers⟩ := lexicon.slots_of_tokenize htokens
  exact ⟨hslots, heof, Cursor.after_eq_nil (hslots.trans hfront) hothers heof⟩

/-- Parsing is total and stays in bounds. Reading a Java or a Groovy source ends in a tree or in a
fault of the source: no round of a repetition goes on without taking a token, and no text is cut and
no cursor taken back from a mark that is ahead of it. A tree is returned at the end of the source,
where no token is left. And however a cursor is moved, it is at one of the slots of the source,
which end in its end; so unless it is at an end there is a slot behind it, and taking a token moves
it there. -/
theorem parse_total (source : String) :
    (∀ e, Java.parse source = .error e → e.fault.isInternal = false) ∧
      (∀ e, Groovy.parse source = .error e → e.fault.isInternal = false) ∧
      (∀ tokens tree stop, Language.java.lexicon.tokenize source = .ok tokens →
        Java.file (Cursor.ofTokens tokens) = .ok tree stop →
          stop.slots = (Cursor.ofTokens tokens).slots ∧ stop.token.isEof = true ∧
            stop.after = []) ∧
      (∀ tokens tree stop, Language.groovy.lexicon.tokenize source = .ok tokens →
        Groovy.file (Cursor.ofTokens tokens) = .ok tree stop →
          stop.slots = (Cursor.ofTokens tokens).slots ∧ stop.token.isEof = true ∧
            stop.after = []) ∧
      ∀ tokens c, (Cursor.ofTokens tokens).Moves c →
        c.slots = (Cursor.ofTokens tokens).slots ∧ c.slots[c.index]? = some c.here ∧
          (∃ s ∈ c.slots.getLast?, s.token.isEof = true) ∧
          (c.token.isEof = false →
            c.next.index = c.index + 1 ∧ c.slots[c.index + 1]? = some c.next.here) := by
  refine ⟨fun e h => ?_, fun e h => ?_, fun tokens tree stop htokens h => ?_,
    fun tokens tree stop htokens h => ?_, fun tokens c h => ?_⟩
  · exact isInternal_of_read (fun _ _ => Java.runs_file) h
  · exact isInternal_of_read (fun _ _ => Groovy.runs_file) h
  · exact atEnd_of_file (fun _ _ => Java.runs_file) htokens h (Java.isEof_of_file h)
  · exact atEnd_of_file (fun _ _ => Groovy.runs_file) htokens h (Groovy.isEof_of_file h)
  · have hslots : c.slots = (Track.ofTokens tokens).slots :=
      h.slots_eq.trans (Cursor.slots_ofTokens tokens)
    refine ⟨h.slots_eq, c.getElem?_index, ?_, fun heof => ?_⟩
    · rw [hslots]
      exact (Track.ofTokens tokens).ended
    · have hindex := Track.index_next hslots heof
      have hhere := c.next.getElem?_index
      rw [hindex, c.onward_next.slots_eq] at hhere
      exact ⟨hindex, hhere⟩

end ApiDoc.Syntax
