import ApiDoc.Proofs.Dialect.ClassHead
import ApiDoc.Proofs.Syntax.Classes
import ApiDoc.Proofs.Syntax.DepthCounter
import ApiDoc.Proofs.Syntax.Nesting

/-!
# The limit on nesting is exact

Classes nest at most `maxNesting` deep, and any that do are read, however many stand side by side.
Where one is nested deeper, the first body too deep is an error at its opening brace
(`Classes.parse_java`, `Classes.parse_groovy`). A body and a file both take classes round by round,
so one lemma follows them through both: `Classes.iterate_at`.
-/

namespace ApiDoc.Syntax

open ApiDoc.Syntax.Parser ApiDoc.Syntax.Grammar
open Cursor (facing)
open Text (Position)

namespace Classes

variable {levels : Nat} {name : String} {F : Classes}

variable {κ : Type} {g : Grammar κ} {gap : List Char}

/-! ## Rounds -/

/-- Rounds of a repetition that take classes, with `levels` levels left for the body of each. -/
def Takes (g : Grammar κ) (levels : Nat)
    (round : List (Tree κ) → Parser (Step (List (Tree κ)) (List (Tree κ)))) : Prop :=
  ∀ {found : List (Tree κ)} {before lines rest : List Slot} {word : Slot},
    LineEnds g.language.lexicon.newlines lines → word.token.isKeyword "class" = true →
    ∃ start modifiers, round found (facing before (lines ++ word :: rest)) =
      (g.typeDef (g.body levels) start modifiers >>= fun t => pure (.next (found ++ [t])))
        (facing (lines.reverse ++ before) (word :: rest))

theorem takes_membersRound (g : Grammar κ) (levels : Nat) (className : String) :
    Takes g levels (g.membersRound (g.body levels) className) := by
  intro found before lines rest word hlines hword
  refine ⟨facing (lines.reverse ++ before) (word :: rest),
    (g.leaf .modifiers "" word.token.pos).withChildren [], ?_⟩
  rw [membersRound_member hword hlines]
  refine (bind_of_eq (member_class hword _ _) _).trans ?_
  rw [bind_assoc]
  rfl

theorem takes_java : Takes java maxNesting Java.fileRound := by
  intro found before lines rest word hlines hword
  refine ⟨facing (lines.reverse ++ before) (word :: rest),
    (java.leaf .modifiers "" word.token.pos).withChildren [], ?_⟩
  have hdeclaration : Java.declaration (facing (lines.reverse ++ before) (word :: rest)) =
      java.topTypeDef (facing (lines.reverse ++ before) (word :: rest))
        ((java.leaf .modifiers "" word.token.pos).withChildren [])
        (facing (lines.reverse ++ before) (word :: rest)) := by
    rw [Java.declaration, get_bind, bind_of_ok (modifiers_class hword), get_bind,
      Cursor.token_facing, headToken_cons, Token.isKeyword_ne hword (by decide),
      Token.isKeyword_ne hword (by decide), Bool.false_and, if_neg Bool.false_ne_true,
      if_neg Bool.false_ne_true, atTypeDef_class hword, if_pos rfl]
  rw [Java.fileRound, passSeparators_bind, pastSeparators_facing hlines
    (Token.isNewline_of_isKeyword hword) (Token.isPunct_of_isKeyword hword _), peek_bind,
    Cursor.token_facing, headToken_cons, Token.isEof_of_isKeyword hword,
    if_neg Bool.false_ne_true]
  exact bind_of_eq hdeclaration _

theorem takes_groovy : Takes groovy maxNesting Groovy.fileRound := by
  intro found before lines rest word hlines hword
  refine ⟨facing (lines.reverse ++ before) (word :: rest),
    (groovy.leaf .modifiers "" word.token.pos).withChildren [], ?_⟩
  have hdeclaration : Groovy.declaration (facing (lines.reverse ++ before) (word :: rest)) =
      groovy.topTypeDef (facing (lines.reverse ++ before) (word :: rest))
        ((groovy.leaf .modifiers "" word.token.pos).withChildren [])
        (facing (lines.reverse ++ before) (word :: rest)) := by
    rw [Groovy.declaration, get_bind, bind_of_ok (modifiers_class hword), get_bind,
      atTypeDef_class hword, if_pos rfl]
  rw [Groovy.fileRound, passSeparators_bind, pastSeparators_facing hlines
    (Token.isNewline_of_isKeyword hword) (Token.isPunct_of_isKeyword hword _), peek_bind,
    Cursor.token_facing, headToken_cons, Token.isEof_of_isKeyword hword,
    Token.isKeyword_ne hword (by decide), Token.isKeyword_ne hword (by decide),
    if_neg Bool.false_ne_true, if_neg Bool.false_ne_true, if_neg Bool.false_ne_true]
  exact bind_of_eq hdeclaration _

/-- A round that takes a class hands its opening brace on to the parser of bodies. -/
theorem Takes.classHead {round : List (Tree κ) → Parser (Step (List (Tree κ)) (List (Tree κ)))}
    (h : Takes g levels round) (found : List (Tree κ)) (before rest : List Slot) {lines : List Slot}
    {word ident opening : Slot} (hlines : LineEnds g.language.lexicon.newlines lines)
    (hword : word.token.isKeyword "class" = true) (hident : ident.token.kind = .ident)
    (hopening : opening.token.isPunct '{' = true) :
    ∃ tree : Tree κ → Tree κ,
      round found (facing before (lines ++ word :: ident :: opening :: rest)) =
        (g.body levels ident.token.text false >>= fun body => pure (.next (found ++ [tree body])))
          (facing (ident :: word :: (lines.reverse ++ before)) (opening :: rest)) := by
  obtain ⟨start, modifiers, hround⟩ := @h found before lines (ident :: opening :: rest) word hlines
    hword
  have hname : g.isName ident.token = true := by simp [Grammar.isName, Token.isName, hident]
  have hclass := @typeDef_class κ g (lines.reverse ++ before) rest word hword ident opening [] hname
    (lineEnds_nil _) hopening (g.body levels) start modifiers
  refine ⟨fun body => {
    kind := g.typeKind "class", text := ident.token.text, pos := start.pos, doc := start.doc,
    children := [modifiers, body] }, ?_⟩
  rw [hround]
  refine (bind_of_eq hclass _).trans ?_
  rw [bind_assoc]
  rfl

/-- With a level left, what a body holds is read. -/
theorem body_succ {before rest : List Slot} {opening : Slot}
    (hopening : opening.token.isPunct '{' = true) (hrest : rest ≠ []) (className : String) :
    g.body (levels + 1) className false (facing before (opening :: rest)) =
      (iterate [] (g.membersRound (g.body levels) className) >>= fun found =>
        pure ((g.leaf .objBlock "" opening.token.pos).withChildren found))
          (facing (opening :: before) rest) :=
  members_opening hopening hrest

/-! ## Classes in a row -/

/-- The error at the first body that stands in `levels` others. -/
def overflow (gap : List Char) (pos : Position) (levels : Nat) (F : Classes) : ParseError :=
  ⟨pos.past (F.front gap levels), .nestedTooDeep⟩

/-- A body too deep inside the first class is the first one. -/
theorem overflow_inside {inside more : Classes} (pos : Position) (h : levels < inside.depth) :
    (cons name inside more).overflow gap pos (levels + 1) =
      inside.overflow gap (pos.past (head name ++ '{' :: gap)) levels := by
  rw [overflow, overflow, front, if_neg (by omega), ← Position.past_append, List.append_assoc,
    List.cons_append]

/-- If there is none, it is the first one in the classes behind. -/
theorem overflow_more {inside more : Classes} (pos : Position) (h : inside.depth ≤ levels) :
    (cons name inside more).overflow gap pos (levels + 1) =
      more.overflow gap
        (pos.past (head name ++ '{' :: (gap ++ (inside.text gap ++ '}' :: gap)))) (levels + 1) := by
  rw [overflow, overflow, front, if_pos h, ← Position.past_append]
  simp only [List.append_assoc, List.cons_append]

/-- Rounds that take classes come behind all of them if none is too deep. Otherwise they come to
the first body that is, and fail there. -/
theorem iterate_at {pos : Position} {F : Classes} {slots : List Slot}
    (h : F.At g.language.lexicon.newlines gap pos slots)
    {levels : Nat} {round : List (Tree κ) → Parser (Step (List (Tree κ)) (List (Tree κ)))}
    (hround : Takes g levels round) (found : List (Tree κ)) (before : List Slot)
    {lines rest : List Slot} (hlines : LineEnds g.language.lexicon.newlines lines)
    (hrest : rest ≠ []) :
    (F.depth ≤ levels → ∃ found' before' lines', LineEnds g.language.lexicon.newlines lines' ∧
      iterate found round (facing before (lines ++ (slots ++ rest))) =
        iterate found' round (facing before' (lines' ++ rest))) ∧
    (levels < F.depth → ∃ d, iterate found round (facing before (lines ++ (slots ++ rest))) =
      .error (F.overflow gap pos levels) d) := by
  induction h generalizing levels round found before lines rest with
  | nil => exact ⟨fun _ => ⟨found, before, lines, hlines, rfl⟩, fun h => absurd h (by simp [depth])⟩
  | @cons pos name inside more word ident opening closing lines₁ lines₂ inner outer hword hident
      hopening hpos hlines₁ hinside hclosing hlines₂ hmore ihInside ihMore =>
    simp only [List.cons_append, List.append_assoc]
    obtain ⟨tree, hclass⟩ := hround.classHead found before
      (lines₁ ++ (inner ++ closing :: (lines₂ ++ (outer ++ rest)))) hlines hword hident hopening
    cases levels with
    | zero =>
      -- no level is left for the body
      have hfull : (cons name inside more).overflow gap pos 0 =
          ⟨opening.token.pos, .nestedTooDeep⟩ := by
        rw [overflow, front, hpos]
      rw [hfull]
      exact ⟨fun h => absurd h (by simp [depth]),
        fun _ => ⟨_, iterate_of_error (hclass.trans (bind_of_error rfl))⟩⟩
    | succ levels =>
      rw [bind_of_eq (body_succ hopening (by simp) _), bind_assoc] at hclass
      obtain ⟨hread, herror⟩ := ihInside (takes_membersRound g levels ident.token.text) []
        (opening :: ident :: word :: (lines.reverse ++ before)) hlines₁
        (List.cons_ne_nil closing (lines₂ ++ (outer ++ rest)))
      by_cases hdepth : inside.depth ≤ levels
      · -- the class is read, and the rounds go on behind it
        obtain ⟨children, before', lines', hlines', hrun⟩ := hread hdepth
        rw [iterate_of_done (membersRound_closing hclosing hlines' (by simp [hrest]))] at hrun
        rw [bind_of_ok hrun] at hclass
        have hnext := iterate_of_next hclass (by
          simp only [Cursor.remaining_facing, List.length_append, List.length_cons]
          have hlength := List.length_pos_iff.mpr hrest
          omega)
        obtain ⟨hbehind, hfails⟩ := ihMore hround _ (closing :: (lines'.reverse ++ before')) hlines₂
          hrest
        rw [hnext, overflow_more pos hdepth]
        refine ⟨fun h => hbehind ?_, fun h => hfails ?_⟩
        · simp only [depth] at h
          omega
        · simp only [depth] at h
          omega
      · obtain ⟨d, hrun⟩ := herror (by omega)
        rw [bind_of_error hrun] at hclass
        refine ⟨fun h => ?_, fun _ => ⟨d, ?_⟩⟩
        · simp only [depth] at h
          omega
        · rw [overflow_inside pos (by omega)]
          exact iterate_of_error hclass

/-! ## Sources -/

/-- What comes of reading the classes: a tree if none is too deep, and otherwise an error at the
first body that is. -/
def Limited (gap : List Char) (F : Classes) (result : Except ParseError (Tree κ)) : Prop :=
  (F.depth ≤ maxNesting → ∃ t, result = .ok t) ∧
    (maxNesting < F.depth → result = .error (F.overflow gap .start maxNesting))

/-- The tokens of a source of classes. -/
theorem exists_tokens {lexicon : Lexicon} (hclass : "class" ∈ lexicon.keywords)
    (hgap : ∀ c ∈ gap, Lexeme.isGap c = true ∨ c = '\n') {F : Classes}
    (hF : F.Fits lexicon.keywords) :
    ∃ tokens slots ending, lexicon.tokenize (String.ofList (F.text gap)) = .ok tokens ∧
      Cursor.ofTokens tokens = facing [] (slots ++ [ending]) ∧
      F.At lexicon.newlines gap .start slots ∧ ending.token.isEof = true := by
  obtain ⟨fillers, hfills⟩ := exists_fills hgap
  obtain ⟨tokens, spaced, hat, hdoc, htokens⟩ := exists_at hfills hclass hF .start false []
  have hsplits := splits_text hfills hF rfl .nil
  simp only [List.append_nil, Lexicon.tokensAt] at htokens hsplits
  -- The text has no backslash and no shebang, so its lexemes are those of the source.
  have hescape : ¬['\\', 'u'] <:+: F.text gap := fun hpair =>
    backslash_not_mem_text hgap hF (hpair.subset List.mem_cons_self)
  have hshebang : ['#', '!'].isPrefixOf (F.text gap) = false := by
    cases F with
    | nil => rfl
    | cons name inside more => rfl
  have htokenize := @Lexicon.tokenize_of_splits lexicon (String.ofList (F.text gap))
    (F.lexemes fillers)
  rw [String.toList_ofList, hshebang, Bool.and_false, htokens] at htokenize
  have hread := htokenize rfl hescape hsplits
  refine ⟨_, tokens.map (Slot.mk · none),
    ⟨⟨.eof, "", Position.start.past (F.text gap), spaced⟩, none⟩, hread, ?_, hat, rfl⟩
  rw [Cursor.ofTokens_eq_facing hread, Slot.attach_eq_map]
  · rw [List.map_append]
    rfl
  · exact List.forall_mem_append.mpr ⟨hdoc, List.forall_mem_singleton.mpr (by simp)⟩

/-- A file that takes classes round by round, up to the end of the source. -/
theorem limited_read {slots : List Slot} {ending : Slot}
    (h : F.At g.language.lexicon.newlines gap .start slots) (hending : ending.token.isEof = true)
    {round : List (Tree κ) → Parser (Step (List (Tree κ)) (List (Tree κ)))}
    (hround : Takes g maxNesting round)
    (hend : ∀ found c, (g.pastSeparators c).token.isEof = true → round found c = .ok (.done found)
      (g.pastSeparators c)) :
    F.Limited gap ((iterate [] round >>= fun found => pure (g.unit found) : Parser (Tree κ)).read
      (facing [] (slots ++ [ending]))) := by
  obtain ⟨hread, herror⟩ := @iterate_at κ g gap .start F slots h maxNesting round hround [] [] []
    [ending] (lineEnds_nil _) (by simp)
  rw [List.nil_append] at hread herror
  refine ⟨fun hdepth => ?_, fun hdepth => ?_⟩
  · obtain ⟨found, before, lines, hlines, hrun⟩ := hread hdepth
    have hkind : ending.token.kind = .eof := by simpa [Token.isEof] using hending
    -- Only line ends are left in front of the end, and the last round passes them.
    have hlast : (g.pastSeparators (facing before (lines ++ [ending]))).token.isEof = true := by
      rw [pastSeparators_facing hlines (Token.isNewline_of_kind (by simp [hkind]))
        (Token.isPunct_of_kind (by simp [hkind])), Cursor.token_facing]
      exact hending
    rw [iterate_of_done (hend found _ hlast)] at hrun
    exact ⟨g.unit found, read_ok.mpr ⟨_, bind_of_ok hrun⟩⟩
  · obtain ⟨d, hrun⟩ := herror hdepth
    rw [Parser.read, bind_of_error hrun]

/-- Java reads classes up to the limit. -/
theorem parse_java (hgap : ∀ c ∈ gap, Lexeme.isGap c = true ∨ c = '\n')
    (hF : F.Fits Language.java.keywords) :
    F.Limited gap (Java.parse (String.ofList (F.text gap))) := by
  obtain ⟨tokens, slots, ending, htokens, hplace, hat, hending⟩ :=
    @exists_tokens gap Language.java.lexicon (by decide) hgap F hF
  have hparse : Java.parse (String.ofList (F.text gap)) =
      Java.file.read (facing [] (slots ++ [ending])) := by
    rw [Java.parse, htokens, ← hplace]
    rfl
  rw [hparse]
  refine limited_read hat hending takes_java fun found c hc => ?_
  show Java.fileRound found c = _
  rw [Java.fileRound, passSeparators_bind, peek_bind, hc]
  rfl

/-- So does Groovy. -/
theorem parse_groovy (hgap : ∀ c ∈ gap, Lexeme.isGap c = true ∨ c = '\n')
    (hF : F.Fits Language.groovy.keywords) :
    F.Limited gap (Groovy.parse (String.ofList (F.text gap))) := by
  obtain ⟨tokens, slots, ending, htokens, hplace, hat, hending⟩ :=
    @exists_tokens gap Language.groovy.lexicon (by decide) hgap F hF
  have hparse : Groovy.parse (String.ofList (F.text gap)) =
      Groovy.file.read (facing [] (slots ++ [ending])) := by
    rw [Groovy.parse, htokens, ← hplace]
    rfl
  rw [hparse]
  refine limited_read hat hending takes_groovy fun found c hc => ?_
  show Groovy.fileRound found c = _
  rw [Groovy.fileRound, passSeparators_bind, peek_bind, hc]
  rfl

/-! ## Classes one inside the other -/

/-- `n` classes of one name, each inside the one before. -/
def chain (name : String) : Nat → Classes
  | 0 => nil
  | n + 1 => cons name (chain name n) nil

theorem depth_chain (name : String) (n : Nat) : (chain name n).depth = n := by
  induction n with
  | zero => rfl
  | succ n ih => rw [chain, depth, ih, depth, Nat.max_zero]

theorem names_chain (name : String) (n : Nat) : (chain name n).names = List.replicate n name := by
  induction n with
  | zero => rfl
  | succ n ih => rw [chain, names, ih, names, List.append_nil, List.replicate_succ]

/-- Without gaps, the opening braces of a chain come first, and then the closing ones. -/
theorem text_chain (name : String) (n : Nat) :
    (chain name n).text [] =
      (List.replicate n (head name ++ ['{'])).flatten ++ List.replicate n '}' := by
  induction n with
  | zero => rfl
  | succ n ih =>
    rw [chain, text, ih, List.replicate_succ, List.flatten_cons, List.replicate_succ']
    simp [text]

/-- The first body too deep is that of the class behind `levels` others. -/
theorem front_chain (name : String) {n : Nat} (h : levels < n) :
    (chain name n).front [] levels =
      (List.replicate levels (head name ++ ['{'])).flatten ++ head name := by
  induction levels generalizing n with
  | zero =>
    obtain ⟨n, rfl⟩ := Nat.exists_eq_add_of_lt h
    rw [Nat.zero_add, chain, front]
    rfl
  | succ levels ih =>
    obtain ⟨n, rfl⟩ : ∃ m, n = m + 1 := ⟨n - 1, by omega⟩
    rw [chain, front, if_neg (by rw [depth_chain]; omega), ih (by omega), List.replicate_succ]
    simp

theorem fits_chain {keywords : List String} (hname : IsIdentifier name) (hkeyword : name ∉ keywords)
    (n : Nat) : (chain name n).Fits keywords := by
  intro other hother
  rw [names_chain] at hother
  rw [List.eq_of_mem_replicate hother]
  exact ⟨hname, hkeyword⟩

end Classes

/-- `n` classes named `C`, each inside the one before, on one line. -/
def nestedClasses (n : Nat) : String :=
  String.ofList ((List.replicate n "class C \x7b".toList).flatten ++ List.replicate n '}')

theorem nestedClasses_eq (n : Nat) :
    nestedClasses n = String.ofList ((Classes.chain "C" n).text []) := by
  rw [Classes.text_chain]
  rfl

theorem isIdentifier_C : IsIdentifier "C" := ⟨'C', [], rfl, by decide +kernel, nofun⟩

/-- The 65th opening brace of the line stands in its 585th column. -/
theorem Classes.Limited.of_chain {κ : Type} {n : Nat} {result : Except ParseError (Tree κ)}
    (h : (chain "C" n).Limited [] result) :
    (n ≤ 64 → ∃ t, result = .ok t) ∧
      (64 < n → result = .error ⟨⟨1, 585⟩, .nestedTooDeep⟩) := by
  obtain ⟨hread, herror⟩ := h
  rw [depth_chain] at hread herror
  refine ⟨hread, fun hn => ?_⟩
  have hplace : Position.start.past ((List.replicate 64 (head "C" ++ ['{'])).flatten ++ head "C") =
      ⟨1, 585⟩ := by
    decide +kernel
  rw [herror hn, overflow, maxNesting, front_chain "C" hn, hplace]

/-- **Nesting is bounded, and the bound is exact.** No path of a tree that either language reads has
more than 64 bodies, those of enum constants among them. A reader that counts the bodies it is in
and refuses one at a count of 64 reads what the grammar reads, and whatever comes of a body, it has
the count again that it had before. So classes side by side do not add up: a source of classes is
read if none of them nests more than 64 deep, and fails at the opening brace of the first body that
does. Of classes one inside the other, 64 are read, and any more fail at the 65th brace. -/
theorem nesting_bounded_exactly :
    ((∀ source t, Java.parse source = .ok t → t.Nests .objBlock 64) ∧
      ∀ source t, Groovy.parse source = .ok t → t.Nests .objBlock 64) ∧
    (∀ (κ : Type) (g : Grammar κ),
      (∀ n calls className isEnum, 64 - n < calls →
        Counted.Agrees n (Counted.body g calls className isEnum)
          (g.body (64 - n) className isEnum)) ∧
      ∀ start modifiers, Counted.Agrees 0 (Counted.topTypeDef g start modifiers)
        (g.topTypeDef start modifiers)) ∧
    (∀ gap : List Char, (∀ c ∈ gap, Lexeme.isGap c = true ∨ c = '\n') → ∀ F : Classes,
      (F.Fits Language.java.keywords →
        F.Limited gap (Java.parse (String.ofList (F.text gap)))) ∧
      (F.Fits Language.groovy.keywords →
        F.Limited gap (Groovy.parse (String.ofList (F.text gap))))) ∧
    (∀ n, n ≤ 64 → (∃ t, Java.parse (nestedClasses n) = .ok t) ∧
      ∃ t, Groovy.parse (nestedClasses n) = .ok t) ∧
    (∀ n, 64 < n → Java.parse (nestedClasses n) = .error ⟨⟨1, 585⟩, .nestedTooDeep⟩ ∧
      Groovy.parse (nestedClasses n) = .error ⟨⟨1, 585⟩, .nestedTooDeep⟩) ∧
    ∀ pos, ParseError.message ⟨pos, .nestedTooDeep⟩ =
      "syntax error at " ++ pos.render ++ ": " ++ "class nesting too deep" := by
  -- classes one inside the other are classes, and nest as deep as there are of them
  have hjava : ∀ n, (Classes.chain "C" n).Limited [] (Java.parse (nestedClasses n)) := by
    intro n
    rw [nestedClasses_eq]
    exact Classes.parse_java (by simp) (Classes.fits_chain isIdentifier_C (by decide) n)
  have hgroovy : ∀ n, (Classes.chain "C" n).Limited [] (Groovy.parse (nestedClasses n)) := by
    intro n
    rw [nestedClasses_eq]
    exact Classes.parse_groovy (by simp) (Classes.fits_chain isIdentifier_C (by decide) n)
  refine ⟨⟨fun source t => Java.bounded_parse, fun source t => Groovy.bounded_parse⟩,
    fun κ g => ⟨?_, ?_⟩, fun gap hgap F => ⟨Classes.parse_java hgap, Classes.parse_groovy hgap⟩,
    ?_, ?_, fun pos => rfl⟩
  · exact fun n calls className isEnum h => Counted.agrees_body h className isEnum
  · exact Counted.agrees_topTypeDef
  · exact fun n h => ⟨(hjava n).of_chain.1 h, (hgroovy n).of_chain.1 h⟩
  · exact fun n h => ⟨(hjava n).of_chain.2 h, (hgroovy n).of_chain.2 h⟩

/-- Two classes side by side, one of them with a class inside. -/
def sideBySide : Classes := .cons "A" (.cons "B" .nil .nil) (.cons "C" .nil .nil)

theorem nesting_bounded_exactly_sideBySide :
    String.ofList (sideBySide.text ['\n']) =
        "class A \x7b\nclass B \x7b\n\x7d\n\x7d\nclass C \x7b\n\x7d\n" ∧
      (∃ t, Groovy.parse (String.ofList (sideBySide.text ['\n'])) = .ok t ∧
        t.Nests .objBlock 64) ∧
      Counted.Agrees 63 (Counted.body java 2 "A" false) (java.body 1 "A" false) ∧
      (∃ t, Java.parse (nestedClasses 64) = .ok t) ∧
      Groovy.parse (nestedClasses 65) = .error ⟨⟨1, 585⟩, .nestedTooDeep⟩ := by
  obtain ⟨⟨-, hnests⟩, hcount, hlimit, hread, herror, -⟩ := nesting_bounded_exactly
  have hfits : sideBySide.Fits Language.groovy.keywords := by
    intro name hname
    simp only [sideBySide, Classes.names, List.append_nil, List.nil_append, List.cons_append,
      List.mem_cons, List.not_mem_nil, or_false] at hname
    rcases hname with rfl | rfl | rfl
    · exact ⟨⟨'A', [], rfl, by decide +kernel, by simp⟩, by decide⟩
    · exact ⟨⟨'B', [], rfl, by decide +kernel, by simp⟩, by decide⟩
    · exact ⟨isIdentifier_C, by decide⟩
  obtain ⟨t, ht⟩ := ((hlimit ['\n'] (by simp) sideBySide).2 hfits).1 (by decide)
  refine ⟨by decide +kernel, ⟨t, ht, hnests _ t ht⟩, ?_, (hread 64 (by decide)).1, ?_⟩
  · exact (hcount _ java).1 63 2 "A" false (by decide)
  · exact (herror 65 (by decide)).2

end ApiDoc.Syntax
