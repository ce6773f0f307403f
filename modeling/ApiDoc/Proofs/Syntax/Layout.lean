import ApiDoc.Proofs.Syntax.Gap
import ApiDoc.Proofs.Text.Unescaped

/-!
# How tokens lie in a source

Reading tokens loses nothing: the text is the tokens and the gaps between them, in turn, and each
token stands in the source where its position says (`tokenize_layout`). The proof keeps, beside each
token, the gap that was dropped before it: `Lexicon.placedFrom` reads lexemes as `tokensFrom` does
and forgets nothing.
-/

namespace ApiDoc.Syntax

open Text (IsBoundary LineIndex Position Unescaped byteLength)

/-- A token that is no line end, together with what stands before it. -/
structure Placed where
  /-- The text between the token and the one before it, line ends apart. -/
  gap : List Char
  /-- The line ends in the gap. -/
  lineEnds : List Token
  token : Token

namespace Placed

/-- The token behind the line ends before it. -/
def tokens (p : Placed) : List Token := p.lineEnds ++ [p.token]

/-- The text of the token behind the gap. -/
def text (p : Placed) : List Char := p.gap ++ p.token.text.toList

/-- The token lies between the tokens of `front` and those of `back`. -/
structure Lies (lexicon : Lexicon) (source : List Char) (front : List Placed) (p : Placed)
    (back : List Placed) : Prop where
  /-- Only blanks and comments are dropped, and the line ends among them are tokens where line ends
  count. -/
  gap : ∃ n, OpeningGap (front.isEmpty && lexicon.shebang)
      (p.token.text.toList ++ back.flatMap Placed.text) p.gap n ∧
    p.lineEnds.length = if lexicon.newlines then n else 0
  lineEnds : ∀ t ∈ p.lineEnds, t.kind = .newline
  kind : p.token.kind ≠ .newline
  /-- The end of the source stands at the end, and nowhere else. -/
  eof : p.token.kind = .eof ↔ back = []
  text_eof : p.token.kind = .eof → p.token.text = ""
  spaced : p.token.spaced = true ↔ p.gap ≠ []
  /-- The position is looked up where the first character stands in the source as it is written. -/
  place : p.token.pos = (LineIndex.ofSource source).position
    ((Unescaped.ofSource source).sourceOffset
      (byteLength (front.flatMap Placed.text ++ p.gap)))
  /-- It is the position behind what stands before this character there. -/
  pos : ∃ before, before <+: source ∧
    byteLength before = (Unescaped.ofSource source).sourceOffset
      (byteLength (front.flatMap Placed.text ++ p.gap)) ∧
    p.token.pos = .behind before

end Placed

/-- How the tokens of a source lie in it. -/
structure Layout (lexicon : Lexicon) (source : List Char) (tokens : List Token)
    (placed : List Placed) : Prop where
  tokens_eq : tokens = placed.flatMap Placed.tokens
  text_eq : (Unescaped.ofSource source).text = placed.flatMap Placed.text
  lies : ∀ front p back, placed = front ++ p :: back → p.Lies lexicon source front back
  ordered : tokens.Pairwise fun s t => s.pos.Before t.pos
  eof : ∃ body last, tokens = body ++ [last] ∧ last.kind = .eof ∧ ∀ t ∈ body, t.kind ≠ .eof

/-! ## Tokens with their gaps -/

namespace Placed

/-- Put text and line ends before the gap of the first token. -/
def widen (text : List Char) (ends : List Token) : List Placed → List Placed
  | [] => []
  | p :: ps => { p with gap := text ++ p.gap, lineEnds := ends ++ p.lineEnds } :: ps

theorem flatMap_tokens_widen (text : List Char) (ends : List Token) {ps : List Placed}
    (h : ps ≠ []) : (widen text ends ps).flatMap tokens = ends ++ ps.flatMap tokens := by
  cases ps with
  | nil => exact absurd rfl h
  | cons p ps => simp [widen, tokens]

theorem flatMap_text_widen (text : List Char) (ends : List Token) {ps : List Placed}
    (h : ps ≠ []) : (widen text ends ps).flatMap Placed.text = text ++ ps.flatMap Placed.text := by
  cases ps with
  | nil => exact absurd rfl h
  | cons p ps => simp [widen, Placed.text]

end Placed

namespace Lexicon

variable (lexicon : Lexicon)

/-- The token that a lexeme makes between tokens, if line ends count and it ends a line. -/
def lineEnd (pos : Position) (spaced : Bool) (l : Lexeme) : List Token :=
  if lexicon.newlines && endsLine l then [⟨.newline, "\n", pos, spaced⟩] else []

/-- The tokens of lexemes as `tokensFrom` reads them, each with the gap before it. -/
def placedFrom (place : Nat → Position) (offset : Nat) (spaced : Bool) : List Lexeme → List Placed
  | [] => [⟨[], [], ⟨.eof, "", place offset, spaced⟩⟩]
  | l :: ls =>
    let behind := offset + byteLength l.text
    match lexicon.tokenKind? l with
    | some kind =>
      ⟨[], [], ⟨kind, String.ofList l.text, place offset, spaced⟩⟩ ::
        placedFrom place behind false ls
    | none =>
      Placed.widen l.text (lexicon.lineEnd (place offset) spaced l)
        (placedFrom place behind true ls)

variable {lexicon} (place : Nat → Position)

theorem placedFrom_ne_nil (offset : Nat) (spaced : Bool) (ls : List Lexeme) :
    lexicon.placedFrom place offset spaced ls ≠ [] := by
  induction ls generalizing offset spaced with
  | nil => exact List.cons_ne_nil _ _
  | cons l ls ih =>
    unfold placedFrom
    dsimp only
    cases lexicon.tokenKind? l with
    | some kind => exact List.cons_ne_nil _ _
    | none =>
      dsimp only
      cases hps : lexicon.placedFrom place (offset + byteLength l.text) true ls with
      | nil => exact absurd hps (ih _ _)
      | cons p ps => exact List.cons_ne_nil _ _

theorem flatMap_tokens_placedFrom (offset : Nat) (spaced : Bool) (ls : List Lexeme) :
    (lexicon.placedFrom place offset spaced ls).flatMap Placed.tokens =
      lexicon.tokensFrom place offset spaced ls := by
  induction ls generalizing offset spaced with
  | nil => rfl
  | cons l ls ih =>
    unfold placedFrom tokensFrom
    dsimp only
    cases lexicon.tokenKind? l with
    | some kind => exact congrArg (List.cons _) (ih ..)
    | none =>
      dsimp only
      rw [Placed.flatMap_tokens_widen _ _ (placedFrom_ne_nil place _ _ _), ih, lineEnd]
      split
      · rfl
      · rfl

theorem flatMap_text_placedFrom (offset : Nat) (spaced : Bool) (ls : List Lexeme) :
    (lexicon.placedFrom place offset spaced ls).flatMap Placed.text =
      (ls.map Lexeme.text).flatten := by
  induction ls generalizing offset spaced with
  | nil => rfl
  | cons l ls ih =>
    unfold placedFrom
    dsimp only
    cases lexicon.tokenKind? l with
    | some kind =>
      rw [List.flatMap_cons, ih]
      simp [Placed.text]
    | none =>
      dsimp only
      rw [Placed.flatMap_text_widen _ _ (placedFrom_ne_nil place _ _ _), ih, List.map_cons,
        List.flatten_cons]

end Lexicon

/-! ## Tokens in a row -/

namespace Placed

variable {newlines shebang spaced : Bool} {place : Nat → Position} {offset : Nat} {p : Placed}
  {ps : List Placed}

/-- The token fits before those of `behind`, if what stands before it starts at byte `offset`;
`spaced` says whether something was dropped there. -/
structure Fits (newlines shebang spaced : Bool) (place : Nat → Position) (offset : Nat) (p : Placed)
    (behind : List Placed) : Prop where
  gap : ∃ n, OpeningGap shebang (p.token.text.toList ++ behind.flatMap Placed.text) p.gap n ∧
    p.lineEnds.length = if newlines then n else 0
  lineEnds : ∀ t ∈ p.lineEnds, t.kind = .newline
  kind : p.token.kind ≠ .newline
  eof : p.token.kind = .eof ↔ behind = []
  text_eof : p.token.kind = .eof → p.token.text = ""
  spaced : p.token.spaced = (spaced || !p.gap.isEmpty)
  pos : p.token.pos = place (offset + byteLength p.gap)

/-- Each token fits before the rest. Only the first may follow a line that names an interpreter. -/
def FitAll (newlines shebang spaced : Bool) (place : Nat → Position) (offset : Nat) :
    List Placed → Prop
  | [] => True
  | p :: ps =>
    p.Fits newlines shebang spaced place offset ps ∧
      FitAll newlines false false place (offset + byteLength p.text) ps

/-- Tokens in a row still fit if a text is dropped before them. -/
theorem FitAll.widen {text : List Char} {ends : List Token} {k : Nat} (hne : text ≠ [])
    (hends : ends.length = if newlines then k else 0) (hkind : ∀ t ∈ ends, t.kind = .newline)
    (hgap : ∀ behind gap n, gap ++ behind = ps.flatMap Placed.text → Gap behind gap n →
      OpeningGap shebang behind (text ++ gap) (n + k))
    (h : FitAll newlines false true place (offset + byteLength text) ps) :
    FitAll newlines shebang spaced place offset (Placed.widen text ends ps) := by
  cases ps with
  | nil => trivial
  | cons p ps =>
    obtain ⟨hp, hps⟩ := h
    refine ⟨?_, ?_⟩
    · obtain ⟨n, hopening, hlength⟩ := hp.gap
      -- a gap inside the source is no interpreter line
      have hinner : Gap _ p.gap n := hopening.resolve_right fun h => Bool.false_ne_true h.1
      refine ⟨⟨n + k, hgap _ _ _ ?_ hinner, ?_⟩, ?_, hp.kind, hp.eof, hp.text_eof, ?_, ?_⟩
      · rw [List.flatMap_cons, Placed.text, List.append_assoc]
      · cases newlines with
        | true => simp_all [Nat.add_comm]
        | false => simp_all
      · intro t ht
        rcases List.mem_append.mp ht with ht | ht
        · exact hkind t ht
        · exact hp.lineEnds t ht
      · simp [hp.spaced, hne]
      · rw [hp.pos, Text.byteLength_append, Nat.add_assoc]
    · have hlength : offset + byteLength text + byteLength p.text = offset + byteLength ({ p with
          gap := text ++ p.gap, lineEnds := ends ++ p.lineEnds } : Placed).text := by
        simp [Placed.text, Nat.add_assoc]
      rwa [hlength] at hps

theorem FitAll.opening (h : FitAll newlines false spaced place offset ps) :
    FitAll newlines shebang spaced place offset ps := by
  cases ps with
  | nil => trivial
  | cons p ps =>
    obtain ⟨hp, hps⟩ := h
    obtain ⟨n, hopening, hlength⟩ := hp.gap
    have hgap := hopening.resolve_right fun h => Bool.false_ne_true h.1
    exact ⟨{ hp with gap := ⟨n, hgap.opening shebang, hlength⟩ }, hps⟩

/-- A token in the middle of a row fits there. -/
theorem FitAll.fits {front : List Placed}
    (h : FitAll newlines shebang spaced place offset (front ++ p :: ps)) :
    p.Fits newlines (front.isEmpty && shebang) (front.isEmpty && spaced) place
      (offset + byteLength (front.flatMap Placed.text)) ps := by
  induction front generalizing shebang spaced offset with
  | nil => exact h.1
  | cons q front ih =>
    have hp := ih h.2
    rw [Nat.add_assoc, ← Text.byteLength_append, ← List.flatMap_cons] at hp
    simpa using hp

end Placed

namespace Lexicon

variable {lexicon : Lexicon}

theorem tokenKind?_ne {l : Lexeme} {kind : TokenKind} (h : lexicon.tokenKind? l = some kind) :
    kind ≠ .newline ∧ kind ≠ .eof := by
  unfold tokenKind? at h
  split at h
  all_goals first
    | cases h
      decide
    | cases h
      split <;> decide
    | cases h

theorem length_lineEnd (pos : Position) (spaced : Bool) (l : Lexeme) :
    (lexicon.lineEnd pos spaced l).length =
      if lexicon.newlines then if endsLine l then 1 else 0 else 0 := by
  unfold lineEnd
  cases lexicon.newlines <;> cases endsLine l <;> rfl

theorem kind_of_mem_lineEnd {pos : Position} {spaced : Bool} {l : Lexeme} {t : Token}
    (h : t ∈ lexicon.lineEnd pos spaced l) : t.kind = .newline := by
  unfold lineEnd at h
  split at h
  · rw [List.mem_singleton.mp h]
  · cases h

/-- The tokens of a text that is cut into lexemes fit. -/
theorem fitAll_placedFrom {text : List Char} {ls : List Lexeme} (h : Lexeme.Cut text ls)
    (place : Nat → Position) (offset : Nat) (spaced : Bool) :
    Placed.FitAll lexicon.newlines false spaced place offset
      (lexicon.placedFrom place offset spaced ls) := by
  induction h generalizing offset spaced with
  | nil =>
    refine ⟨⟨⟨0, Gap.nil.opening false, ?_⟩, nofun, nofun, ?_, fun _ => rfl, ?_, rfl⟩, trivial⟩
    · simp
    · simp
    · simp
  | @cons l rest ls hne hfiller h ih =>
    unfold placedFrom
    dsimp only
    cases hkind : lexicon.tokenKind? l with
    | some kind =>
      obtain ⟨hnewline, heof⟩ := tokenKind?_ne hkind
      refine ⟨⟨⟨0, Gap.nil.opening false, ?_⟩, nofun, hnewline, ?_, ?_, ?_, rfl⟩, ?_⟩
      · simp
      · exact iff_of_false heof (placedFrom_ne_nil place _ _ _)
      · exact fun h => absurd h heof
      · simp
      · simpa [Placed.text] using ih _ _
    -- The gap in front of what follows is wider by this lexeme.
    | none =>
      refine Placed.FitAll.widen hne (length_lineEnd (place offset) spaced l)
        (fun t ht => kind_of_mem_lineEnd ht) ?_ (ih ..)
      intro behind gap n hrest hgap
      rw [flatMap_text_placedFrom, h.flatten] at hrest
      exact (hgap.lexeme (hrest ▸ hfiller) hkind).opening false

/-! ## Positions -/

/-- The tokens of lexemes, the first of which starts at `pos`, if positions are counted along the
lexemes. -/
def tokensAt (lexicon : Lexicon) (pos : Position) (spaced : Bool) : List Lexeme → List Token
  | [] => [⟨.eof, "", pos, spaced⟩]
  | l :: ls =>
    match lexicon.tokenKind? l with
    | some kind =>
      ⟨kind, String.ofList l.text, pos, spaced⟩ :: tokensAt lexicon (pos.past l.text) false ls
    | none => lexicon.lineEnd pos spaced l ++ tokensAt lexicon (pos.past l.text) true ls

/-- Looking up positions comes to counting them, if the look-up keeps count along the lexemes. -/
theorem tokensFrom_eq_tokensAt {place : Nat → Position} {offset : Nat} {pos : Position}
    {ls : List Lexeme} (h : Text.KeepsCount place offset pos (ls.map Lexeme.text).flatten)
    (spaced : Bool) :
    lexicon.tokensFrom place offset spaced ls = lexicon.tokensAt pos spaced ls := by
  induction ls generalizing offset pos spaced with
  | nil => rw [tokensFrom, tokensAt, h.pos]
  | cons l ls ih =>
    rw [List.map_cons, List.flatten_cons] at h
    rw [tokensFrom, tokensAt, h.pos]
    dsimp only
    cases lexicon.tokenKind? l with
    | some kind =>
      dsimp only
      rw [ih h.behind]
    | none =>
      dsimp only
      rw [ih h.behind, lineEnd]
      split
      · rfl
      · rfl

/-- If positions grow along a text, they grow from token to token, starting behind `before`. -/
theorem ordered_tokensFrom {place : Nat → Position} {ls : List Lexeme} {before : List Char}
    (hne : ∀ l ∈ ls, l.text ≠ [])
    (hgrows : ∀ i j, IsBoundary (before ++ (ls.map Lexeme.text).flatten) i →
      IsBoundary (before ++ (ls.map Lexeme.text).flatten) j → i < j → (place i).Before (place j))
    (spaced : Bool) :
    (lexicon.tokensFrom place (byteLength before) spaced ls).Pairwise
        (fun s t => s.pos.Before t.pos) ∧
      ∀ t ∈ lexicon.tokensFrom place (byteLength before) spaced ls,
        t.pos = place (byteLength before) ∨ (place (byteLength before)).Before t.pos := by
  induction ls generalizing before spaced with
  | nil =>
    refine ⟨List.pairwise_singleton _ _, fun t ht => .inl ?_⟩
    rw [List.mem_singleton.mp ht]
  | cons l ls ih =>
    obtain ⟨hl, hne⟩ := List.forall_mem_cons.mp hne
    rw [List.map_cons, List.flatten_cons, ← List.append_assoc] at hgrows
    have hbefore : (place (byteLength before)).Before (place (byteLength (before ++ l.text))) := by
      refine hgrows _ _ ⟨before, ?_, rfl⟩ ⟨before ++ l.text, List.prefix_append _ _, rfl⟩ ?_
      · exact (List.prefix_append before l.text).trans (List.prefix_append _ _)
      · have hlength := Text.length_le_byteLength l.text
        have hpos := List.length_pos_iff.mpr hl
        rw [Text.byteLength_append]
        omega
    have hrest := ih hne hgrows
    -- all tokens behind the lexeme stand behind its start
    have hbehind : ∀ spaced,
        ∀ t ∈ lexicon.tokensFrom place (byteLength (before ++ l.text)) spaced ls,
        (place (byteLength before)).Before t.pos := by
      intro spaced t ht
      rcases (hrest spaced).2 t ht with heq | hlt
      · exact heq ▸ hbefore
      · exact hbefore.trans hlt
    unfold tokensFrom
    rw [← Text.byteLength_append]
    dsimp only
    cases lexicon.tokenKind? l with
    | some kind =>
      dsimp only
      refine ⟨List.pairwise_cons.mpr ⟨hbehind false, (hrest false).1⟩, fun t ht => ?_⟩
      rcases List.mem_cons.mp ht with rfl | ht
      · exact .inl rfl
      · exact .inr (hbehind false t ht)
    | none =>
      dsimp only
      split
      · refine ⟨List.pairwise_cons.mpr ⟨hbehind true, (hrest true).1⟩, fun t ht => ?_⟩
        rcases List.mem_cons.mp ht with rfl | ht
        · exact .inl rfl
        · exact .inr (hbehind true t ht)
      · exact ⟨(hrest true).1, fun t ht => .inr (hbehind true t ht)⟩

/-! ## The end of the source -/

theorem eof_tokensFrom (place : Nat → Position) (offset : Nat) (spaced : Bool) (ls : List Lexeme) :
    ∃ body last, lexicon.tokensFrom place offset spaced ls = body ++ [last] ∧ last.kind = .eof ∧
      ∀ t ∈ body, t.kind ≠ .eof := by
  induction ls generalizing offset spaced with
  | nil => exact ⟨[], _, rfl, rfl, nofun⟩
  | cons l ls ih =>
    unfold tokensFrom
    dsimp only
    cases hkind : lexicon.tokenKind? l with
    | some kind =>
      obtain ⟨body, last, hbody, hlast, hothers⟩ := ih (offset + byteLength l.text) false
      refine ⟨_ :: body, last, congrArg (List.cons _) hbody, hlast, fun t ht => ?_⟩
      rcases List.mem_cons.mp ht with rfl | ht
      · exact (tokenKind?_ne hkind).2
      · exact hothers t ht
    | none =>
      -- With a line end or without, what follows ends as before.
      obtain ⟨body, last, hbody, hlast, hothers⟩ := ih (offset + byteLength l.text) true
      dsimp only
      split
      · refine ⟨_ :: body, last, congrArg (List.cons _) hbody, hlast, fun t ht => ?_⟩
        rcases List.mem_cons.mp ht with rfl | ht
        · exact nofun
        · exact hothers t ht
      · exact ⟨body, last, hbody, hlast, hothers⟩

/-! ## The whole source -/

/-- The tokens of a whole text fit. -/
theorem fitAll_of_splitAll {text : List Char} {ls : List Lexeme}
    (h : Lexeme.splitAll lexicon.shebang text = .ok ls) (place : Nat → Position) (offset : Nat) :
    Placed.FitAll lexicon.newlines lexicon.shebang false place offset
      (lexicon.placedFrom place offset false ls) := by
  rcases Lexeme.cut_of_splitAll h with hcut | ⟨hallowed, line, rest, ls', rfl, rfl, hline⟩
  · exact (fitAll_placedFrom hcut place offset false).opening
  · obtain ⟨hstarts, hfeed, hend, hcut⟩ := hline
    have hne : line ≠ [] := by
      rintro rfl
      exact absurd hstarts.length_le (by decide)
    refine Placed.FitAll.widen (k := 0) hne ?_ ?_ ?_ (fitAll_placedFrom hcut place _ true)
    · rw [length_lineEnd]
      cases lexicon.newlines <;> rfl
    · exact fun t ht => kind_of_mem_lineEnd ht
    · intro behind gap n hrest hgap
      rw [flatMap_text_placedFrom, hcut.flatten] at hrest
      exact .inr ⟨hallowed, line, gap, rfl, hstarts, hfeed, hrest.symm ▸ hend, hgap⟩

/-- Nothing of a whole text is lost, and no lexeme is empty. -/
theorem flatten_splitAll {shebang : Bool} {text : List Char} {ls : List Lexeme}
    (h : Lexeme.splitAll shebang text = .ok ls) :
    (ls.map Lexeme.text).flatten = text ∧ ∀ l ∈ ls, l.text ≠ [] := by
  rcases Lexeme.cut_of_splitAll h with hcut | ⟨-, line, rest, ls', rfl, rfl, hstarts, -, -, hcut⟩
  · exact ⟨hcut.flatten, hcut.text_ne_nil⟩
  · refine ⟨?_, List.forall_mem_cons.mpr ⟨?_, hcut.text_ne_nil⟩⟩
    · rw [List.map_cons, List.flatten_cons, hcut.flatten]
    · rintro rfl
      exact absurd hstarts.length_le (by decide)

end Lexicon

/-- Where the characters up to a token end, characters of the source end. -/
theorem Placed.Fits.lies {lexicon : Lexicon} {source : List Char} {front back : List Placed}
    {p : Placed} (htext : (Unescaped.ofSource source).text = (front ++ p :: back).flatMap text)
    (h : p.Fits lexicon.newlines (front.isEmpty && lexicon.shebang) false (Text.placeIn source)
      (byteLength (front.flatMap text)) back) :
    p.Lies lexicon source front back where
  gap := h.gap
  lineEnds := h.lineEnds
  kind := h.kind
  eof := h.eof
  text_eof := h.text_eof
  spaced := by simp [h.spaced]
  place := by rw [h.pos, Text.byteLength_append, Text.placeIn]
  pos := by
    have hboundary : IsBoundary (Unescaped.ofSource source).text
        (byteLength (front.flatMap text ++ p.gap)) := by
      refine ⟨front.flatMap text ++ p.gap, ⟨p.token.text.toList ++ back.flatMap text, ?_⟩, rfl⟩
      simp [htext, text]
    rw [h.pos, ← Text.byteLength_append]
    exact Text.exists_placeIn hboundary

/-- Reading tokens loses nothing: the tokens of a source and the gaps between them are its text, and
each token lies where its position says. -/
theorem tokenize_layout {lexicon : Lexicon} {source : String} {tokens : List Token}
    (h : lexicon.tokenize source = .ok tokens) :
    ∃ placed, Layout lexicon source.toList tokens placed := by
  unfold Lexicon.tokenize at h
  dsimp only at h
  split at h
  · cases h
  · next ls hls =>
    cases h
    obtain ⟨hflatten, hne⟩ := Lexicon.flatten_splitAll hls
    have htext : (Unescaped.ofSource source.toList).text =
        (lexicon.placedFrom (Text.placeIn source.toList) 0 false ls).flatMap Placed.text := by
      rw [Lexicon.flatMap_text_placedFrom, hflatten]
    refine ⟨lexicon.placedFrom (Text.placeIn source.toList) 0 false ls,
      (Lexicon.flatMap_tokens_placedFrom ..).symm, htext, ?_, ?_,
      Lexicon.eof_tokensFrom _ 0 false ls⟩
    · intro front p back hplaced
      -- Offsets in the text lead to positions in the source, so each token lies at its own.
      have hfits := Lexicon.fitAll_of_splitAll hls (Text.placeIn source.toList) 0
      rw [hplaced] at hfits htext
      have hp := hfits.fits
      rw [Bool.and_false, Nat.zero_add] at hp
      exact hp.lies htext
    · have hgrows : ∀ i j, IsBoundary (Unescaped.ofSource source.toList).text i →
          IsBoundary (Unescaped.ofSource source.toList).text j → i < j →
          (Text.placeIn source.toList i).Before (Text.placeIn source.toList j) :=
        fun i j hi hj hlt => Text.placeIn_before hi hj hlt
      rw [← hflatten] at hgrows
      exact (@Lexicon.ordered_tokensFrom lexicon _ ls [] hne hgrows false).1

/-- A script that names its interpreter, with comments of all sorts and an escaped blank. -/
def annotatedScript : String := "#!sh\n/* a\n */ b\\u0020= 'c' // d\n/** e */"

theorem tokenize_layout_annotatedScript :
    ∃ tokens placed, Lexicon.tokenize ⟨[], true, true⟩ annotatedScript = .ok tokens ∧
      tokens.map Token.kind = [.newline, .newline, .ident, .punct, .charLit, .newline, .docComment,
        .eof] ∧
      Layout ⟨[], true, true⟩ annotatedScript.toList tokens placed := by
  have hkinds : (Lexicon.tokenize ⟨[], true, true⟩ annotatedScript).toOption.map
      (List.map Token.kind) = some [.newline, .newline, .ident, .punct, .charLit, .newline,
        .docComment, .eof] := by
    decide +kernel
  cases htokens : Lexicon.tokenize ⟨[], true, true⟩ annotatedScript with
  | error e =>
    rw [htokens] at hkinds
    cases hkinds
  | ok tokens =>
    rw [htokens] at hkinds
    obtain ⟨placed, hplaced⟩ := tokenize_layout htokens
    exact ⟨tokens, placed, rfl, Option.some.inj hkinds, hplaced⟩

end ApiDoc.Syntax
