import ApiDoc.Proofs.Syntax.Joined
import ApiDoc.Proofs.Syntax.Lookahead
import ApiDoc.Proofs.Syntax.Total
import ApiDoc.Proofs.Text.Parity

/-!
# Tokens written out and read again

A run of tokens is written with one space for each gap in the source, and without line ends and
comments. That text reads as the same tokens again (`textSince_reads_again`): two tokens that stand
side by side in it stood side by side in the source, so what a token looks ahead at has not changed,
or a blank has taken its place.
-/

namespace ApiDoc.Syntax

open Text (Position Unescaped)

variable {text : List Char} {tokens ts : List Token} {l : Lexeme} {t : Token}

/-! ## Tokens in a text -/

/-- What a token is, wherever it stands. -/
def Token.face (t : Token) : TokenKind × String := (t.kind, t.text)

/-- The token that a lexeme makes, wherever it stands. -/
def Lexicon.face? (lexicon : Lexicon) (l : Lexeme) : Option (TokenKind × String) :=
  (lexicon.tokenKind? l).map fun kind => (kind, String.ofList l.text)

/-- A text is read as tokens, line ends apart. Behind a token without a gap, the next one follows at
once. -/
inductive Lexicon.Reads (lexicon : Lexicon) : List Char → List Token → Prop
  | eof {text : List Char} {t : Token} (hkind : t.kind = .eof) : Reads lexicon text [t]
  | token {gap rest : List Char} {l : Lexeme} {t : Token} {ts : List Token}
      (hgap : t.spaced = false → gap = []) (hface : lexicon.face? l = some t.face)
      (hl : l.Begins rest) (h : Reads lexicon rest ts) :
      Reads lexicon (gap ++ (l.text ++ rest)) (t :: ts)

namespace Lexicon

variable {lexicon : Lexicon}

theorem face?_eq_some (h : lexicon.face? l = some t.face) :
    lexicon.tokenKind? l = some t.kind ∧ t.text = String.ofList l.text := by
  obtain ⟨kind, hkind, hface⟩ := Option.map_eq_some_iff.mp h
  obtain ⟨rfl, htext⟩ := Prod.mk.inj hface
  exact ⟨hkind, htext.symm⟩

theorem reads_tokensFrom {text gap : List Char} {ls : List Lexeme} (h : Lexeme.Splits text ls)
    (place : Nat → Position) (offset : Nat) {spaced : Bool} (hgap : spaced = false → gap = []) :
    lexicon.Reads (gap ++ text)
      ((lexicon.tokensFrom place offset spaced ls).filter fun t => !t.isNewline) := by
  induction h generalizing spaced gap offset with
  | nil => exact .eof rfl
  | @cons l rest ls hl h ih =>
    rw [tokensFrom]
    dsimp only
    cases hkind : lexicon.tokenKind? l with
    | some kind =>
      have hline : Token.isNewline ⟨kind, String.ofList l.text, place offset, spaced⟩ = false :=
        Token.isNewline_of_kind (tokenKind?_ne hkind).1
      have hface : lexicon.face? l = some (kind, String.ofList l.text) := by simp [face?, hkind]
      dsimp only
      rw [List.filter_cons_of_pos (by simp [hline])]
      exact .token hgap hface hl (@ih [] _ _ (fun _ => rfl))
    | none =>
      -- what is dropped widens the gap before the next token
      have hwide := @ih (gap ++ l.text) (offset + Text.byteLength l.text) true (by simp)
      rw [List.append_assoc] at hwide
      dsimp only
      split
      · rw [List.filter_cons_of_neg (by simp [Token.isNewline])]
        exact hwide
      · exact hwide

theorem reads_of_splitAll {ls : List Lexeme} (h : Lexeme.splitAll lexicon.shebang text = .ok ls)
    (place : Nat → Position) (offset : Nat) :
    lexicon.Reads text
      ((lexicon.tokensFrom place offset false ls).filter fun t => !t.isNewline) := by
  unfold Lexeme.splitAll at h
  split at h
  · dsimp only at h
    split at h
    · cases h
    · next rest hrest =>
      cases h
      -- a line that names an interpreter is a gap before the first token
      have hread := @reads_tokensFrom lexicon _ (text.takeWhile (· ≠ '\n')) _
        (Lexeme.split_eq_ok_iff.mp hrest) place
        (offset + Text.byteLength (text.takeWhile (· ≠ '\n'))) true (by simp)
      rw [List.takeWhile_append_dropWhile] at hread
      rw [tokensFrom]
      simpa [tokenKind?, endsLine] using hread
  · exact @reads_tokensFrom lexicon _ [] _ (Lexeme.split_eq_ok_iff.mp h) place offset false
      fun _ => rfl

theorem reads_of_tokenize {source : String} (h : lexicon.tokenize source = .ok tokens) :
    lexicon.Reads (Unescaped.ofSource source.toList).text
      (tokens.filter fun t => !t.isNewline) := by
  unfold tokenize at h
  dsimp only at h
  split at h
  · cases h
  · next ls hls =>
    cases h
    exact reads_of_splitAll hls _ _

/-- The first of several tokens stands behind its gap. -/
theorem Reads.uncons (h : lexicon.Reads text (t :: ts)) (hts : ts ≠ []) :
    ∃ gap l rest, text = gap ++ (l.text ++ rest) ∧ (t.spaced = false → gap = []) ∧
      lexicon.face? l = some t.face ∧ l.Begins rest ∧ lexicon.Reads rest ts := by
  cases h with
  | eof hkind => exact absurd rfl hts
  | @token gap rest l t ts hgap hface hl h => exact ⟨gap, l, rest, rfl, hgap, hface, hl, h⟩

/-- Reading can start at any token. -/
theorem Reads.behind {front : List Token} (hts : ts ≠ []) (h : lexicon.Reads text (front ++ ts)) :
    ∃ rest, rest <:+ text ∧ lexicon.Reads rest ts := by
  induction front generalizing text with
  | nil => exact ⟨text, List.suffix_refl text, h⟩
  | cons t front ih =>
    obtain ⟨gap, l, rest, rfl, -, -, -, hrest⟩ := Reads.uncons h (by simp [hts])
    obtain ⟨behind, hsuffix, hbehind⟩ := ih hrest
    refine ⟨behind, hsuffix.trans ?_, hbehind⟩
    rw [← List.append_assoc]
    exact List.suffix_append _ _

end Lexicon

/-! ## Reading again -/

/-- Behind a text, what agrees with the source up to a blank brings about no escape. -/
theorem not_escape_append {front rest rest' : List Char} (h : ¬['\\', 'u'] <:+: front ++ rest)
    (hagrees : Lexeme.Agrees rest rest') (hrest' : ¬['\\', 'u'] <:+: rest') :
    ¬['\\', 'u'] <:+: front ++ rest' := by
  induction front with
  | nil => exact hrest'
  | cons c front ih =>
    intro hpair
    rcases List.infix_cons_iff.mp hpair with hhead | htail
    · obtain ⟨rfl, behind, hbehind⟩ := List.cons_prefix_cons.mp hhead
      have hu : (front ++ rest').head? = some 'u' := congrArg List.head? hbehind.symm
      obtain ⟨more, hmore⟩ := List.head?_eq_some_iff.mp
        ((hagrees.append front).head? hu (by decide))
      refine h ?_
      rw [List.cons_append, hmore]
      exact (List.prefix_append ['\\', 'u'] more).isInfix
    · exact ih (fun hfront => h (hfront.trans (List.suffix_cons c _).isInfix)) htail

theorem Lexicon.isToken_of_face? {lexicon : Lexicon} (h : lexicon.face? l = some t.face)
    (hdoc : t.kind ≠ .docComment) : Lexeme.isToken l.kind = true := by
  have hkind := (face?_eq_some h).1
  unfold tokenKind? at hkind
  cases hl : l.kind <;> simp_all [Lexeme.isToken]

/-- Before a token, a space is a lexeme of its own. -/
theorem Lexeme.begins_blank {rest : List Char} (h : l.Begins rest) (hkind : isToken l.kind = true) :
    Begins ⟨.blank, [' ']⟩ (l.text ++ rest) := by
  obtain ⟨c, tail, htext, hstarts⟩ := h
  have hstop : (l.text ++ rest).takeWhile isGap = [] := by
    rw [htext, List.cons_append, List.takeWhile_cons, hstarts.isGap_eq_false hkind]
    rfl
  have hblank : Starts ' ' (l.text ++ rest) .blank _ := .blank rfl
  rw [hstop] at hblank
  exact ⟨' ', [], rfl, hblank⟩

/-- Tokens in a row, written out behind other tokens, are read again, and what is written agrees
with the source up to the first blank. -/
theorem Lexicon.Reads.again {lexicon : Lexicon} {more : List Token}
    (h : lexicon.Reads text (ts ++ more)) (hmore : more ≠ [])
    (hdoc : ∀ t ∈ ts, t.kind ≠ .docComment) (hescape : ¬['\\', 'u'] <:+: text) :
    ∃ ls, Lexeme.Splits (ts.flatMap Token.gapped) ls ∧
      ls.filterMap lexicon.face? = ts.map Token.face ∧
      Lexeme.Agrees text (ts.flatMap Token.gapped) ∧
      ¬['\\', 'u'] <:+: ts.flatMap Token.gapped := by
  induction ts generalizing text with
  | nil => exact ⟨[], .nil, rfl, .nil, by simp⟩
  | cons t ts ih =>
    obtain ⟨ht, hdoc⟩ := List.forall_mem_cons.mp hdoc
    obtain ⟨gap, l, rest, rfl, hgap, hface, hl, h⟩ := h.uncons (by simp [hmore])
    have hlexeme : ¬['\\', 'u'] <:+: l.text ++ rest := fun hpair =>
      hescape (hpair.trans (List.suffix_append gap _).isInfix)
    have hrest : ¬['\\', 'u'] <:+: rest := fun hpair =>
      hlexeme (hpair.trans (List.suffix_append l.text rest).isInfix)
    obtain ⟨ls, hsplits, hfaces, hagrees, hclean⟩ := ih h hdoc hrest
    have hkind := isToken_of_face? hface ht
    have htext : t.text.toList = l.text := by
      rw [(face?_eq_some hface).2, String.toList_ofList]
    -- a token looks no further than to the next blank, up to where the texts agree
    have hbegins := hl.of_agrees hkind hagrees
    have hclean' := not_escape_append hlexeme hagrees hclean
    rw [List.flatMap_cons, Token.gapped, htext]
    cases hspaced : t.spaced with
    | false =>
      refine ⟨l :: ls, .cons hbegins hsplits, ?_, ?_, hclean'⟩
      · rw [List.filterMap_cons_some hface, hfaces, List.map_cons]
      · rw [hgap hspaced]
        exact hagrees.append l.text
    | true =>
      refine ⟨⟨.blank, [' ']⟩ :: l :: ls, ?_, ?_, .blank, ?_⟩
      · exact .cons (Lexeme.begins_blank hbegins hkind) (.cons hbegins hsplits)
      · rw [List.filterMap_cons_none rfl, List.filterMap_cons_some hface, hfaces, List.map_cons]
      · intro hpair
        rcases List.infix_cons_iff.mp hpair with hhead | htail
        · exact absurd (List.cons_prefix_cons.mp hhead).1 (by decide)
        · exact hclean' htail

/-- Tokens in a row, written out on their own, are read again. -/
theorem Lexicon.Reads.splits_joined {lexicon : Lexicon} {more : List Token}
    (h : lexicon.Reads text (ts ++ more)) (hmore : more ≠ [])
    (hdoc : ∀ t ∈ ts, t.kind ≠ .docComment) (hlines : ∀ t ∈ ts, t.isNewline = false)
    (hescape : ¬['\\', 'u'] <:+: text) :
    ∃ ls, Lexeme.Splits (Token.joined ts).toList ls ∧
      ls.filterMap lexicon.face? = ts.map Token.face ∧
      ¬['\\', 'u'] <:+: (Token.joined ts).toList := by
  cases ts with
  | nil => exact ⟨[], .nil, rfl, by decide⟩
  | cons t ts =>
    obtain ⟨ht, hts⟩ := List.forall_mem_cons.mp hdoc
    obtain ⟨gap, l, rest, rfl, -, hface, hl, hrest⟩ := h.uncons (by simp [hmore])
    -- nothing is written before the first token, so it is read as one without a gap
    have hfirst : lexicon.Reads (l.text ++ rest) ({ t with spaced := false } :: ts ++ more) :=
      @Lexicon.Reads.token lexicon [] _ _ _ _ (fun _ => rfl) hface hl hrest
    obtain ⟨ls, hsplits, hfaces, -, hclean⟩ := hfirst.again hmore
      (List.forall_mem_cons.mpr ⟨ht, hts⟩)
      fun hpair => hescape (hpair.trans (List.suffix_append gap _).isInfix)
    have htext : t.text ≠ "" := by
      rw [(face?_eq_some hface).2]
      simpa using hl.ne_nil
    have hjoined : (Token.joined (t :: ts)).toList =
        ({ t with spaced := false } :: ts).flatMap Token.gapped :=
      Token.toList_joined_cons htext hlines
    rw [hjoined]
    exact ⟨ls, hsplits, hfaces, hclean⟩

/-- If no line end counts, the tokens of lexemes are those that the lexemes make. -/
theorem Lexicon.map_face_tokensAt {lexicon : Lexicon} (pos : Position) (spaced : Bool)
    {ls : List Lexeme} (hlines : ∀ l ∈ ls, (lexicon.newlines && endsLine l) = false) :
    (lexicon.tokensAt pos spaced ls).map Token.face =
      ls.filterMap lexicon.face? ++ [(.eof, "")] := by
  induction ls generalizing pos spaced with
  | nil => rfl
  | cons l ls ih =>
    obtain ⟨hl, hls⟩ := List.forall_mem_cons.mp hlines
    rw [tokensAt, lineEnd, hl, if_neg Bool.false_ne_true]
    cases hkind : lexicon.tokenKind? l with
    | some kind =>
      have hface : lexicon.face? l = some (kind, String.ofList l.text) := by simp [face?, hkind]
      dsimp only
      rw [List.filterMap_cons_some hface, List.map_cons, ih _ _ hls]
      rfl
    | none =>
      have hface : lexicon.face? l = none := by simp [face?, hkind]
      rw [List.filterMap_cons_none hface]
      exact ih _ _ hls

/-- A text whose lexemes are known gives the tokens that they make. -/
theorem Lexicon.tokenize_of_splits {lexicon : Lexicon} {source : String} {ls : List Lexeme}
    (hshebang : (lexicon.shebang && ['#', '!'].isPrefixOf source.toList) = false)
    (hescape : ¬['\\', 'u'] <:+: source.toList) (h : Lexeme.Splits source.toList ls) :
    lexicon.tokenize source = .ok (lexicon.tokensAt .start false ls) := by
  have hsplit :
      Lexeme.splitAll lexicon.shebang (Unescaped.ofSource source.toList).text = .ok ls := by
    rw [Unescaped.text_ofSource_self hescape, Lexeme.splitAll, hshebang]
    exact Lexeme.split_eq_ok_iff.mpr h
  rw [tokenize, hsplit]
  refine congrArg Except.ok (tokensFrom_eq_tokensAt ?_ false)
  rw [Lexeme.flatten_split (Lexeme.split_eq_ok_iff.mpr h)]
  exact Text.keepsCount_placeIn hescape

/-! ## Marks of a cursor -/

/-- Without comments, there is nothing to attach. -/
theorem Slot.attach_eq_map (hdoc : ∀ t ∈ tokens, t.kind ≠ .docComment) :
    attach tokens = tokens.map (Slot.mk · none) := by
  show attachFrom none tokens = _
  induction tokens with
  | nil => rfl
  | cons t ts ih =>
    obtain ⟨ht, hts⟩ := List.forall_mem_cons.mp hdoc
    rw [attachFrom]
    split
    · next hkind => exact absurd hkind ht
    · rw [List.map_cons, ih hts]
    · rw [List.map_cons, ih hts]

/-- The tokens from slot `n` up to the cursor. -/
def Cursor.tokensSince (c : Cursor) (n : Nat) : List Token :=
  ((c.slots.take c.index).drop n).map Slot.token

theorem Cursor.textSince_eq (c : Cursor) (n : Nat) :
    c.textSince n = Token.joined (c.tokensSince n) := by
  have htake : c.slots.take c.index = c.before.reverse := by
    rw [slots, List.take_left' (by rw [List.length_reverse, c.length_before])]
  rw [textSince, tokensSince, htake, List.drop_reverse, c.length_before]

/-- The tokens between two marks of a source, line ends apart, stand in it side by side. -/
theorem reads_tokensSince {lexicon : Lexicon} {source : String} {c : Cursor}
    (h : lexicon.tokenize source = .ok tokens) (hdoc : ∀ t ∈ tokens, t.kind ≠ .docComment)
    (hc : c.slots = (Cursor.ofTokens tokens).slots) (i : Nat) :
    ∃ rest more, rest <:+ (Unescaped.ofSource source.toList).text ∧ more ≠ [] ∧
      lexicon.Reads rest (((c.tokensSince i).filter fun t => !t.isNewline) ++ more) ∧
      ∀ t ∈ c.tokensSince i, t.kind ≠ .docComment := by
  have htokens : c.slots.map Slot.token = tokens := by
    rw [hc, Lexicon.slots_eq_attach h, Slot.attach_eq_map hdoc, List.map_map]
    exact List.map_id tokens
  obtain ⟨front, back, hsplit, hback⟩ : ∃ front back,
      tokens = front ++ (c.tokensSince i ++ back) ∧ back ≠ [] := by
    refine ⟨((c.slots.take c.index).take i).map Slot.token,
      (c.slots.drop c.index).map Slot.token, ?_, ?_⟩
    · rw [← htokens, Cursor.tokensSince, ← List.append_assoc, ← List.map_append,
        List.take_append_drop, ← List.map_append, List.take_append_drop]
    · intro hnil
      have hlength := c.length_slots
      rw [List.map_eq_nil_iff, List.drop_eq_nil_iff] at hnil
      omega
  -- the last token, the end of the source, is behind both marks
  obtain ⟨body, last, hbody, hlast, -⟩ := Lexicon.eof_of_tokenize h
  have hmem : last ∈ back := by
    have hend := congrArg List.getLast? (hsplit.symm.trans hbody)
    rw [← List.append_assoc, List.getLast?_append_of_ne_nil _ hback, List.getLast?_concat] at hend
    exact List.mem_of_getLast? hend
  have hreads := Lexicon.reads_of_tokenize h
  rw [hsplit, List.filter_append, List.filter_append] at hreads
  have hmore : (back.filter fun t => !t.isNewline) ≠ [] := by
    refine List.ne_nil_of_mem (List.mem_filter.mpr ⟨hmem, ?_⟩)
    simp [Token.isNewline, hlast]
  obtain ⟨rest, hrest, hread⟩ := hreads.behind (by simp [hmore])
  refine ⟨rest, _, hrest, hmore, hread, fun t ht => hdoc t ?_⟩
  rw [hsplit]
  exact List.mem_append_right _ (List.mem_append_left _ ht)

/-- The tokens between two marks, written out and read again with the same reserved words, are the
same tokens. -/
theorem textSince_reads_again {lexicon : Lexicon} {source : String} {tokens : List Token}
    {c : Cursor} (hescape : ¬['\\', 'u'] <:+: source.toList)
    (h : lexicon.tokenize source = .ok tokens) (hdoc : ∀ t ∈ tokens, t.kind ≠ .docComment)
    (hc : c.slots = (Cursor.ofTokens tokens).slots) (i : Nat) :
    ∃ again,
      { lexicon with newlines := false, shebang := false }.tokenize (c.textSince i) = .ok again ∧
      again.map Token.face =
        ((c.tokensSince i).filter fun t => !t.isNewline).map Token.face ++ [(.eof, "")] := by
  obtain ⟨rest, more, hrest, hmore, hreads, hplain⟩ := reads_tokensSince h hdoc hc i
  rw [Unescaped.text_ofSource_self hescape] at hrest
  have hclean : ¬['\\', 'u'] <:+: rest := fun hpair => hescape (hpair.trans hrest.isInfix)
  obtain ⟨ls, hsplits, hfaces, hagain⟩ := hreads.splits_joined hmore
    (fun t ht => hplain t (List.mem_of_mem_filter ht))
    (fun t ht => by simpa using List.of_mem_filter ht) hclean
  rw [Token.joined_filter, ← c.textSince_eq] at hsplits hagain
  refine ⟨_, Lexicon.tokenize_of_splits rfl hagain hsplits, ?_⟩
  rw [← hfaces]
  exact Lexicon.map_face_tokensAt _ _ fun l _ => rfl

/-- A script that names its interpreter, where dots, quotes and strokes crowd. -/
def denseScript : String := "#!sh\n1..x/*c*/y\n''\"\" 'a'/b...3.5e+"

theorem textSince_reads_again_denseScript :
    ¬['\\', 'u'] <:+: denseScript.toList ∧
    ∃ tokens again, Lexicon.tokenize ⟨["y"], true, true⟩ denseScript = .ok tokens ∧
      (∀ t ∈ tokens, t.kind ≠ .docComment) ∧
      ((Cursor.ofTokens tokens).ahead 12).textSince 2 = "..x y ''\"\" 'a'/b" ∧
      Lexicon.tokenize ⟨["y"], false, false⟩ (((Cursor.ofTokens tokens).ahead 12).textSince 2) =
        .ok again ∧
      again.map Token.face =
        ((((Cursor.ofTokens tokens).ahead 12).tokensSince 2).filter fun t => !t.isNewline).map
          Token.face ++ [(.eof, "")] := by
  have hescape : ¬['\\', 'u'] <:+: denseScript.toList := by decide +kernel
  have hread : (Lexicon.tokenize ⟨["y"], true, true⟩ denseScript).toOption.map (fun tokens =>
      (tokens.all (·.kind ≠ .docComment), ((Cursor.ofTokens tokens).ahead 12).textSince 2)) =
        some (true, "..x y ''\"\" 'a'/b") := by
    decide +kernel
  cases htokens : Lexicon.tokenize ⟨["y"], true, true⟩ denseScript with
  | error e =>
    rw [htokens] at hread
    cases hread
  | ok tokens =>
    rw [htokens] at hread
    obtain ⟨hdoc, htext⟩ := Prod.mk.inj (Option.some.inj hread)
    have hplain : ∀ t ∈ tokens, t.kind ≠ .docComment := by simpa using hdoc
    obtain ⟨again, hagain, hfaces⟩ := textSince_reads_again hescape htokens hplain
      (Cursor.slots_ahead 12 _) 2
    exact ⟨hescape, tokens, again, rfl, hplain, htext, hagain, hfaces⟩

end ApiDoc.Syntax
