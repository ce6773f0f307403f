import ApiDoc.Proofs.Syntax.Identifier
import ApiDoc.Proofs.Syntax.Rendering

/-!
# Classes inside classes

A source that declares classes and nothing else: classes side by side, each with classes in its
body. Behind every brace stands the same gap of blanks and line feeds. The tokens of such a source
are known, and so is the place of every brace in it (`Classes.At`).
-/

namespace ApiDoc.Syntax

open Text (Position)

variable {keywords : List String} {rest : List Char} {fillers : List Lexeme} {F : Classes}

/-- Classes side by side, with classes in their bodies. -/
inductive Classes where
  | nil
  | cons (name : String) (inside more : Classes)

namespace Classes

/-! ## Text -/

/-- The largest number of bodies inside each other. -/
def depth : Classes → Nat
  | nil => 0
  | cons _ inside more => max (inside.depth + 1) more.depth

/-- The names of the classes. -/
def names : Classes → List String
  | nil => []
  | cons name inside more => name :: (inside.names ++ more.names)

/-- What is written in front of the body of a class. -/
def head (name : String) : List Char := "class".toList ++ ' ' :: (name.toList ++ [' '])

-- stated by hand, since the literal makes the generated equation slow
theorem head_eq (name : String) : head name = "class".toList ++ ' ' :: (name.toList ++ [' ']) := rfl

/-- The classes as they are written, with a gap behind every brace. -/
def text (gap : List Char) : Classes → List Char
  | nil => []
  | cons name inside more =>
    head name ++ '{' :: (gap ++ (inside.text gap ++ '}' :: (gap ++ more.text gap)))

/-- What is written in front of the first body that stands in `levels` others. -/
def front (gap : List Char) : Classes → (levels : Nat) → List Char
  | nil, _ => []
  | cons name _ _, 0 => head name
  | cons name inside more, levels + 1 =>
    if inside.depth ≤ levels then
      head name ++ '{' :: (gap ++ (inside.text gap ++ '}' :: (gap ++ more.front gap (levels + 1))))
    else head name ++ '{' :: (gap ++ inside.front gap levels)

/-- The classes are written in a language that reserves some words. -/
def Fits (keywords : List String) (F : Classes) : Prop :=
  ∀ name ∈ F.names, IsIdentifier name ∧ name ∉ keywords

theorem fits_cons {name : String} {inside more : Classes} :
    (cons name inside more).Fits keywords ↔
      (IsIdentifier name ∧ name ∉ keywords) ∧ inside.Fits keywords ∧ more.Fits keywords := by
  rw [Fits, names, List.forall_mem_cons, List.forall_mem_append]
  rfl

/-! ## Lexemes -/

/-- The lexemes of the classes, if those of a gap are `fillers`. -/
def lexemes (fillers : List Lexeme) : Classes → List Lexeme
  | nil => []
  | cons name inside more =>
    ⟨.word, "class".toList⟩ :: ⟨.blank, [' ']⟩ :: ⟨.word, name.toList⟩ :: ⟨.blank, [' ']⟩ ::
      ⟨.punct, ['{']⟩ :: (fillers ++ (inside.lexemes fillers ++
        ⟨.punct, ['}']⟩ :: (fillers ++ more.lexemes fillers)))

/-- The lexeme is a run of blanks or a line feed. -/
def IsFiller (l : Lexeme) : Prop := l.kind = .blank ∨ l.kind = .lineFeed

/-- The lexemes of a gap, whatever stands behind it. -/
structure Fills (gap : List Char) (fillers : List Lexeme) : Prop where
  isFiller : ∀ l ∈ fillers, IsFiller l
  text : (fillers.map Lexeme.text).flatten = gap
  splits : ∀ {rest ls}, rest.takeWhile Lexeme.isGap = [] → Lexeme.Splits rest ls →
    Lexeme.Splits (gap ++ rest) (fillers ++ ls)

theorem takeWhile_dropWhile_append {p : Char → Bool} (cs : List Char) (h : rest.takeWhile p = []) :
    (cs.dropWhile p ++ rest).takeWhile p = [] := by
  have hhead := List.head?_dropWhile_not p cs
  cases hmore : cs.dropWhile p with
  | nil => exact h
  | cons d ds =>
    have hd : p d = false := by simpa [hmore] using hhead
    rw [List.cons_append, List.takeWhile_cons, hd]
    rfl

/-- A run of blanks is one lexeme, and a line feed is one. -/
theorem exists_fills {gap : List Char} (h : ∀ c ∈ gap, Lexeme.isGap c = true ∨ c = '\n') :
    ∃ fillers, Fills gap fillers := by
  induction hlength : gap.length using Nat.strong_induction_on generalizing gap with
  | _ length ih =>
    cases gap with
    | nil => exact ⟨[], nofun, rfl, fun _ hsplits => hsplits⟩
    | cons c cs =>
      obtain ⟨hc, hcs⟩ := List.forall_mem_cons.mp h
      -- the lexeme at the front, and what is left behind it
      obtain ⟨l, rest, hl, htext, hbegins⟩ : ∃ l rest, IsFiller l ∧ l.text ++ rest = c :: cs ∧
          ∀ behind, behind.takeWhile Lexeme.isGap = [] → l.Begins (rest ++ behind) := by
        by_cases hgap : Lexeme.isGap c = true
        · refine ⟨⟨.blank, c :: cs.takeWhile Lexeme.isGap⟩, cs.dropWhile Lexeme.isGap, .inl rfl,
            by simp, fun behind hbehind => ⟨c, _, rfl, ?_⟩⟩
          have hrun : Lexeme.Starts c (cs.takeWhile Lexeme.isGap ++ (cs.dropWhile Lexeme.isGap ++
              behind)) .blank _ := .blank hgap
          rwa [Lexeme.takeWhile_append_eq_iff.mpr ⟨fun d hd => List.mem_takeWhile_imp hd,
            takeWhile_dropWhile_append cs hbehind⟩] at hrun
        · exact ⟨⟨.lineFeed, [c]⟩, cs, .inr rfl, rfl, fun _ _ =>
            ⟨c, [], rfl, .lineFeed (hc.resolve_left hgap)⟩⟩
      have hshorter : rest.length < length := by
        have hne := List.length_pos_iff.mpr (hbegins [] rfl).ne_nil
        rw [← hlength, ← htext, List.length_append]
        omega
      have hrest : ∀ d ∈ rest, Lexeme.isGap d = true ∨ d = '\n' := fun d hd =>
        h d (htext ▸ List.mem_append_right _ hd)
      obtain ⟨fillers, hfillers⟩ := ih rest.length hshorter hrest rfl
      refine ⟨l :: fillers, List.forall_mem_cons.mpr ⟨hl, hfillers.isFiller⟩, ?_, ?_⟩
      · rw [List.map_cons, List.flatten_cons, hfillers.text, htext]
      · intro behind ls hbehind hsplits
        rw [← htext, List.append_assoc]
        exact .cons (hbegins behind hbehind) (hfillers.splits hbehind hsplits)

theorem takeWhile_isGap (gap : List Char) (F : Classes) (h : rest.takeWhile Lexeme.isGap = []) :
    (F.text gap ++ rest).takeWhile Lexeme.isGap = [] := by
  cases F with
  | nil => exact h
  | cons name inside more => rfl

theorem isIdentifier_class : IsIdentifier "class" :=
  ⟨'c', ['l', 'a', 's', 's'], rfl, by decide +kernel, List.all_eq_true.mp (by decide +kernel)⟩

theorem begins_brace {c : Char} (h : c = '{' ∨ c = '}') (rest : List Char) :
    Lexeme.Begins ⟨.punct, [c]⟩ rest := by
  refine ⟨c, [], rfl, .punct ?_ ?_ ?_⟩
  · rcases h with rfl | rfl <;> decide
  · rcases h with rfl | rfl <;> exact fun h => absurd h (by decide)
  · rcases h with rfl | rfl <;> exact fun h => absurd h (by decide)

theorem takeWhile_space (rest : List Char) :
    (' ' :: rest).takeWhile Lexeme.isWordPart = [] := by
  rw [List.takeWhile_cons, if_neg (by decide +kernel)]

/-- The text is cut into the lexemes. -/
theorem splits_text {gap : List Char} (hgap : Fills gap fillers) (hF : F.Fits keywords)
    {ls : List Lexeme} (hrest : rest.takeWhile Lexeme.isGap = []) (h : Lexeme.Splits rest ls) :
    Lexeme.Splits (F.text gap ++ rest) (F.lexemes fillers ++ ls) := by
  induction F generalizing rest ls with
  | nil => exact h
  | cons name inside more ihInside ihMore =>
    obtain ⟨⟨hname, -⟩, hinside, hmore⟩ := fits_cons.mp hF
    have hbehind := hgap.splits (takeWhile_isGap gap more hrest) (ihMore hmore hrest h)
    have hclosing := Lexeme.Splits.cons (begins_brace (.inr rfl) _) hbehind
    have hbody := hgap.splits (takeWhile_isGap gap inside rfl) (ihInside hinside rfl hclosing)
    have hopening := begins_brace (.inl rfl) (gap ++ (inside.text gap ++
      (['}'] ++ (gap ++ (more.text gap ++ rest)))))
    have hword := hname.begins (takeWhile_space ('{' :: (gap ++ (inside.text gap ++
      (['}'] ++ (gap ++ (more.text gap ++ rest)))))))
    have hsplits := Lexeme.Splits.cons (isIdentifier_class.begins (takeWhile_space _))
      (.cons (Lexeme.begins_blank hword rfl) (.cons hword
        (.cons (Lexeme.begins_blank hopening rfl) (.cons hopening hbody))))
    simpa [text, head_eq, lexemes] using hsplits

/-- The text escapes nothing. -/
theorem backslash_not_mem_text {gap : List Char}
    (hgap : ∀ c ∈ gap, Lexeme.isGap c = true ∨ c = '\n') (hF : F.Fits keywords) :
    '\\' ∉ F.text gap := by
  have hblank : '\\' ∉ gap := fun hmem => by
    rcases hgap _ hmem with h | h
    · exact absurd h (by decide)
    · exact absurd h (by decide)
  induction F with
  | nil => exact List.not_mem_nil
  | cons name inside more ihInside ihMore =>
    obtain ⟨⟨hname, -⟩, hinside, hmore⟩ := fits_cons.mp hF
    have hword := hname.backslash_not_mem
    have hhead : '\\' ∉ head name := by simp [head_eq, hword]
    simp [text, hhead, hblank, ihInside hinside, ihMore hmore]

end Classes

/-! ## Tokens -/

namespace Lexicon

variable {lexicon : Lexicon}

/-- The token of a lexeme stands where the lexeme does. -/
theorem tokensAt_some {l : Lexeme} {kind : TokenKind} (h : lexicon.tokenKind? l = some kind)
    (pos : Position) (spaced : Bool) (ls : List Lexeme) :
    lexicon.tokensAt pos spaced (l :: ls) =
      ⟨kind, String.ofList l.text, pos, spaced⟩ :: lexicon.tokensAt (pos.past l.text) false ls := by
  rw [tokensAt, h]

theorem tokensAt_none {l : Lexeme} (h : lexicon.tokenKind? l = none) (pos : Position)
    (spaced : Bool) (ls : List Lexeme) :
    lexicon.tokensAt pos spaced (l :: ls) =
      lexicon.lineEnd pos spaced l ++ lexicon.tokensAt (pos.past l.text) true ls := by
  rw [tokensAt, h]

/-- Of a gap, line ends are left. -/
theorem tokensAt_fillers (h : ∀ l ∈ fillers, Classes.IsFiller l) (pos : Position) (spaced : Bool)
    (ls : List Lexeme) :
    ∃ lines spaced', (∀ t ∈ lines, t.kind = .newline) ∧ (lexicon.newlines = false → lines = []) ∧
      lexicon.tokensAt pos spaced (fillers ++ ls) =
        lines ++ lexicon.tokensAt (pos.past (fillers.map Lexeme.text).flatten) spaced' ls := by
  induction fillers generalizing pos spaced with
  | nil => exact ⟨[], spaced, nofun, fun _ => rfl, rfl⟩
  | cons l fillers ih =>
    obtain ⟨hl, h⟩ := List.forall_mem_cons.mp h
    have hkind : lexicon.tokenKind? l = none := by
      rcases hl with hl | hl <;> rw [tokenKind?, hl]
    obtain ⟨lines, spaced', hlines, hnone, htokens⟩ := ih h (pos.past l.text) true
    refine ⟨lexicon.lineEnd pos spaced l ++ lines, spaced', ?_, ?_, ?_⟩
    · exact List.forall_mem_append.mpr ⟨fun t ht => kind_of_mem_lineEnd ht, hlines⟩
    · intro hnewlines
      simp [lineEnd, hnewlines, hnone hnewlines]
    · rw [List.map_cons, List.flatten_cons, List.cons_append, tokensAt_none hkind, htokens,
        List.append_assoc, Position.past_append]

end Lexicon

namespace Classes

variable {gap : List Char}

/-- The slots are those of the classes, written from `pos` on. Line ends may stand behind braces. -/
inductive At (newlines : Bool) (gap : List Char) :
    (pos : Position) → Classes → List Slot → Prop
  | nil {pos : Position} : At newlines gap pos .nil []
  | cons {pos : Position} {name : String} {inside more : Classes}
      {word ident opening closing : Slot} {lines lines' inner outer : List Slot}
      (hword : word.token.isKeyword "class" = true) (hident : ident.token.kind = .ident)
      (hopening : opening.token.isPunct '{' = true)
      (hpos : opening.token.pos = pos.past (head name))
      (hlines : LineEnds newlines lines)
      (hinside : At newlines gap (pos.past (head name ++ '{' :: gap)) inside inner)
      (hclosing : closing.token.isPunct '}' = true)
      (hlines' : LineEnds newlines lines')
      (hmore : At newlines gap
        (pos.past (head name ++ '{' :: (gap ++ (inside.text gap ++ '}' :: gap)))) more outer) :
      At newlines gap pos (.cons name inside more)
        (word :: ident :: opening :: (lines ++ (inner ++ closing :: (lines' ++ outer))))

/-- In front of the body of a class stand two tokens. -/
theorem tokensAt_head {lexicon : Lexicon} (hclass : "class" ∈ lexicon.keywords) {name : String}
    (hname : name ∉ lexicon.keywords) (pos : Position) (spaced : Bool) (ls : List Lexeme) :
    ∃ word ident : Token, word.isKeyword "class" = true ∧ ident.kind = .ident ∧
      lexicon.tokensAt pos spaced
          (⟨.word, "class".toList⟩ :: ⟨.blank, [' ']⟩ :: ⟨.word, name.toList⟩ :: ⟨.blank, [' ']⟩ ::
            ls) =
        word :: ident :: lexicon.tokensAt (pos.past (head name)) true ls := by
  have hword : lexicon.tokenKind? ⟨.word, "class".toList⟩ = some .keyword := by
    simp [Lexicon.tokenKind?, hclass]
  have hident : lexicon.tokenKind? ⟨.word, name.toList⟩ = some .ident := by
    simp [Lexicon.tokenKind?, hname]
  -- The two blanks give no token, and no line end either.
  have hblank : lexicon.tokenKind? ⟨.blank, [' ']⟩ = none := rfl
  have hspace : ∀ pos spaced, lexicon.lineEnd pos spaced ⟨.blank, [' ']⟩ = [] := by
    simp [Lexicon.lineEnd, Lexicon.endsLine]
  have hpast : (((pos.past "class".toList).past [' ']).past name.toList).past [' '] =
      pos.past (head name) := by
    simp only [← Position.past_append, List.append_assoc]
    rfl
  refine ⟨⟨.keyword, "class", pos, spaced⟩,
    ⟨.ident, name, (pos.past "class".toList).past [' '], true⟩, by simp [Token.isKeyword], rfl, ?_⟩
  rw [Lexicon.tokensAt_some hword, Lexicon.tokensAt_none hblank, hspace, List.nil_append,
    Lexicon.tokensAt_some hident, Lexicon.tokensAt_none hblank, hspace, List.nil_append, hpast,
    String.ofList_toList, String.ofList_toList]

/-- A brace is a token, and line ends may stand behind it. -/
theorem tokensAt_brace {fillers : List Lexeme} (hgap : Fills gap fillers) {lexicon : Lexicon}
    (c : Char) (pos : Position) (spaced : Bool) (ls : List Lexeme) :
    ∃ (brace : Token) (lines : List Token) (spaced' : Bool), brace.isPunct c = true ∧
      brace.pos = pos ∧ (∀ t ∈ lines, t.kind = .newline) ∧ (lexicon.newlines = false → lines = []) ∧
      lexicon.tokensAt pos spaced (⟨.punct, [c]⟩ :: (fillers ++ ls)) =
        brace :: (lines ++ lexicon.tokensAt (pos.past (c :: gap)) spaced' ls) := by
  have hbrace : lexicon.tokenKind? ⟨.punct, [c]⟩ = some .punct := rfl
  obtain ⟨lines, spaced', hlines, hnone, htokens⟩ :=
    Lexicon.tokensAt_fillers hgap.isFiller (pos.past [c]) false ls
  rw [hgap.text, ← Position.past_append] at htokens
  refine ⟨⟨.punct, String.ofList [c], pos, spaced⟩, lines, spaced',
    by simp [Token.isPunct, Char.toString], rfl, hlines, hnone, ?_⟩
  exact (Lexicon.tokensAt_some hbrace pos spaced (fillers ++ ls)).trans (congrArg _ htokens)

theorem lineEnds_of_forall_kind {newlines : Bool} {ts : List Token}
    (h : ∀ t ∈ ts, t.kind = .newline) (hnone : newlines = false → ts = []) :
    LineEnds newlines (ts.map (Slot.mk · none)) := by
  refine ⟨fun s hs => ?_, fun hnewlines => by rw [hnone hnewlines, List.map_nil]⟩
  obtain ⟨t, ht, rfl⟩ := List.mem_map.mp hs
  simp [Token.isNewline, h t ht]

/-- The tokens of the classes are such slots. -/
theorem exists_at (hgap : Fills gap fillers) {lexicon : Lexicon}
    (hclass : "class" ∈ lexicon.keywords) (hF : F.Fits lexicon.keywords) (pos : Position)
    (spaced : Bool) (ls : List Lexeme) :
    ∃ tokens spaced', F.At lexicon.newlines gap pos (tokens.map (Slot.mk · none)) ∧
      (∀ t ∈ tokens, t.kind ≠ .docComment) ∧
      lexicon.tokensAt pos spaced (F.lexemes fillers ++ ls) =
        tokens ++ lexicon.tokensAt (pos.past (F.text gap)) spaced' ls := by
  induction F generalizing pos spaced ls with
  | nil => exact ⟨[], spaced, .nil, nofun, rfl⟩
  | cons name inside more ihInside ihMore =>
    obtain ⟨⟨-, hname⟩, hinside, hmore⟩ := fits_cons.mp hF
    -- from the last part to the first, what stands behind each
    let behind := more.lexemes fillers ++ ls
    let body := inside.lexemes fillers ++ ⟨.punct, ['}']⟩ :: (fillers ++ behind)
    -- and from the first to the last, where each starts
    let brace := pos.past (head name)
    let start := brace.past ('{' :: gap)
    let stop := start.past (inside.text gap)
    obtain ⟨word, ident, hword, hident, hhead⟩ := tokensAt_head hclass hname pos spaced
      (⟨.punct, ['{']⟩ :: (fillers ++ body))
    obtain ⟨opening, lines, spaced₁, hopening, hpos, hlines, hnone, hopened⟩ :=
      @tokensAt_brace gap fillers hgap lexicon '{' brace true body
    obtain ⟨inner, spaced₂, hinner, hplain, hbody⟩ := ihInside hinside start spaced₁
      (⟨.punct, ['}']⟩ :: (fillers ++ behind))
    obtain ⟨closing, lines', spaced₃, hclosing, -, hlines', hnone', hclosed⟩ :=
      @tokensAt_brace gap fillers hgap lexicon '}' stop spaced₂ behind
    obtain ⟨outer, spaced₄, houter, hplain', hrest⟩ := ihMore hmore (stop.past ('}' :: gap)) spaced₃
      ls
    have hstart : start = pos.past (head name ++ '{' :: gap) := (Position.past_append ..).symm
    have hend : stop.past ('}' :: gap) =
        pos.past (head name ++ '{' :: (gap ++ (inside.text gap ++ '}' :: gap))) := by
      simp [stop, hstart, ← Position.past_append]
    refine ⟨word :: ident :: opening :: (lines ++ (inner ++ closing :: (lines' ++ outer))), spaced₄,
      ?_, ?_, ?_⟩
    · simp only [List.map_cons, List.map_append]
      exact .cons hword hident hopening hpos (lineEnds_of_forall_kind hlines hnone)
        (hstart ▸ hinner) hclosing (lineEnds_of_forall_kind hlines' hnone') (hend ▸ houter)
    · simp only [List.forall_mem_cons, List.forall_mem_append]
      refine ⟨?_, by simp [hident], ?_, fun t ht => by simp [hlines t ht], hplain, ?_,
        fun t ht => by simp [hlines' t ht], hplain'⟩
      · simp [Token.kind_of_isKeyword hword]
      · simp [Token.kind_of_isPunct hopening]
      · simp [Token.kind_of_isPunct hclosing]
    · rw [hopened, hbody, hclosed, hrest, hend, ← Position.past_append] at hhead
      simpa [text, lexemes, behind, body] using hhead

end Classes

end ApiDoc.Syntax
