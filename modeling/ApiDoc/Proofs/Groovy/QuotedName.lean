import ApiDoc.Proofs.Groovy.FieldLines
import ApiDoc.Proofs.Syntax.Classes

/-!
# Quoted names

A Groovy method may have a text between quotes for its name. The name is the text of the literal
without the quotes at its ends, and apostrophes count as quotes: those that the name itself starts
or ends with are lost along with the quotes that it is written between (`parse_quotedMethod_iff`).
-/

namespace ApiDoc

/-! ## Texts -/

namespace Text

variable {p : Char → Bool} {cs : List Char}

/-- What is cut off at the ends of a text satisfies `p`, and what is left does not start or end with
such a character. -/
theorem exists_cutEnd_cutStart (p : Char → Bool) (cs : List Char) :
    ∃ front back, cs = front ++ (cutEnd p (cutStart p cs) ++ back) ∧ (∀ c ∈ front, p c = true) ∧
      (∀ c ∈ back, p c = true) ∧ (∀ c ∈ (cutEnd p (cutStart p cs)).head?, p c = false) ∧
      ∀ c ∈ (cutEnd p (cutStart p cs)).getLast?, p c = false := by
  have hcut : cutEnd p (cutStart p cs) ++ ((cutStart p cs).reverse.takeWhile p).reverse =
      cutStart p cs := by
    rw [cutEnd, ← List.reverse_append, List.takeWhile_append_dropWhile, List.reverse_reverse]
  refine ⟨cs.takeWhile p, ((cutStart p cs).reverse.takeWhile p).reverse, ?_, ?_, ?_, ?_, ?_⟩
  · rw [hcut, cutStart, List.takeWhile_append_dropWhile]
  · exact fun c hc => List.mem_takeWhile_imp hc
  · exact fun c hc => List.mem_takeWhile_imp (List.mem_reverse.mp hc)
  · intro c hc
    have hhead : (cutStart p cs).head? = some c := by
      rw [← hcut, List.head?_append, hc, Option.some_or]
    have hnot := List.head?_dropWhile_not p cs
    rw [show cs.dropWhile p = cutStart p cs from rfl, hhead] at hnot
    exact hnot
  · intro c hc
    have hnot := List.head?_dropWhile_not p (cutStart p cs).reverse
    rw [cutEnd, List.getLast?_reverse] at hc
    rw [hc] at hnot
    exact hnot

/-- Characters that are cut off may stand at both ends. -/
theorem cutEnd_cutStart_append {front back : List Char} (hfront : ∀ c ∈ front, p c = true)
    (hback : ∀ c ∈ back, p c = true) :
    cutEnd p (cutStart p (front ++ (cs ++ back))) = cutEnd p (cutStart p cs) := by
  rw [cutStart, cutStart, List.dropWhile_append_of_pos hfront, List.dropWhile_append]
  have hnil : back.dropWhile p = [] := by simpa using hback
  split
  · next hempty => rw [hnil, List.isEmpty_iff.mp hempty]
  · rw [cutEnd, List.reverse_append,
      List.dropWhile_append_of_pos fun c hc => hback c (List.mem_reverse.mp hc), cutEnd]

/-- A text without line feeds goes on in its line. -/
theorem Position.past_of_not_mem (h : '\n' ∉ cs) (p : Position) :
    p.past cs = ⟨p.line, p.column + cs.length⟩ := by
  induction cs generalizing p with
  | nil => rfl
  | cons c cs ih =>
    simp only [List.mem_cons, not_or] at h
    show (p.next c).past cs = _
    rw [ih h.2, next, if_neg (Ne.symm h.1), List.length_cons]
    simp only [mk.injEq, true_and]
    omega

end Text

namespace Syntax

/-! ## Literals -/

namespace Lexeme

/-- A text that holds no quote, no escape and no line feed goes on up to the quote behind it. -/
theorem throughQuote_concat {quote : Char} {cs : List Char} (hquote : quote ∉ cs)
    (hescape : '\\' ∉ cs) (hline : '\n' ∉ cs) :
    throughQuote quote (cs ++ [quote]) = some (cs ++ [quote]) := by
  induction cs with
  | nil => simp [throughQuote]
  | cons c cs ih =>
    simp only [List.mem_cons, not_or] at hquote hescape hline
    have hrest := ih hquote.2 hescape.2 hline.2
    obtain ⟨d, ds, hds⟩ := List.exists_cons_of_ne_nil (List.concat_ne_nil quote cs)
    rw [List.cons_append, hds, throughQuote, if_neg (Ne.symm hquote.1), if_neg (Ne.symm hescape.1),
      if_neg (Ne.symm hline.1), ← hds, hrest]
    rfl

/-- A text between double quotes is a literal, if another character follows it. -/
theorem begins_stringLit {cs rest : List Char} {c : Char} (hquote : '"' ∉ cs) (hescape : '\\' ∉ cs)
    (hline : '\n' ∉ cs) (hc : c ≠ '"') :
    Begins ⟨.stringLit, '"' :: (cs ++ ['"'])⟩ (c :: rest) := by
  have htwo : (cs ++ ['"'] ++ c :: rest).take 2 ≠ ['"', '"'] := by
    cases cs with
    | nil => simp [hc]
    | cons d ds =>
      intro h
      exact hquote (by simp [(List.cons.inj h).1])
  have hliteral : literal? '"' (cs ++ ['"'] ++ c :: rest) = some ('"' :: (cs ++ ['"'])) := by
    rw [literal?_eq, if_neg htwo,
      throughQuote_append (throughQuote_concat hquote hescape hline)]
    rfl
  have hstarts : Starts '"' (cs ++ ['"'] ++ c :: rest) _ _ := .literal (.inl rfl) hliteral
  rw [if_neg (by simp)] at hstarts
  exact ⟨'"', cs ++ ['"'], rfl, hstarts⟩

end Lexeme

namespace Groovy

open ApiDoc.Syntax.Parser
open Cursor (facing)
open Grammar (groovy)
open Text (Position)

/-! ## Reading a method with a quoted name -/

section

variable {before rest : List Slot} {literal opening closing first last : Slot}

/-- The name of a method may be a literal. -/
theorem quotedName_literal (hliteral : literal.token.kind = .stringLit)
    (hopening : opening.token.isPunct '(' = true) :
    groovy.quotedName? (facing before (literal :: opening :: rest)) =
      .ok (some (Grammar.quotedName?.unquoted literal.token.text))
        (facing (literal :: before) (opening :: rest)) := by
  have heof : literal.token.isEof = false := Token.isEof_of_kind (by simp [hliteral])
  have hat : (groovy.language = .groovy && literal.token.kind = .stringLit &&
      opening.token.isPunct '(') = true := by
    rw [hopening, hliteral]
    rfl
  rw [Grammar.quotedName?, get_bind, Cursor.token_facing, headToken_cons, Cursor.peek_facing,
    if_pos hat, bump_bind, Cursor.token_facing, headToken_cons, Cursor.next_facing heof (by simp)]
  rfl

/-- A list of no parameters. -/
theorem parameters_nil (hopening : opening.token.isPunct '(' = true)
    (hclosing : closing.token.isPunct ')' = true) (hrest : rest ≠ []) :
    groovy.parameters (facing before (opening :: closing :: rest)) =
      .ok (.leaf .parameters "" opening.token.pos)
        (facing (closing :: opening :: before) rest) := by
  have hstart : expectPunct '(' (facing before (opening :: closing :: rest)) =
      .ok opening.token (facing (opening :: before) (closing :: rest)) := by
    refine expectPunct_ok.mpr ⟨hopening, rfl, ?_⟩
    exact (Cursor.next_facing (Token.isEof_of_isPunct hopening) (by simp)).symm
  have hskip : groovy.pastLines (facing (opening :: before) (closing :: rest)) =
      facing (opening :: before) (closing :: rest) := Cursor.skipNewlines_of_isPunct hclosing
  rw [Grammar.parameters, bind_of_ok hstart]
  refine bind_of_ok (iterate_of_done ?_)
  rw [Grammar.parametersRound, Grammar.passLines_bind, hskip, eatIf_bind, Cursor.token_facing,
    headToken_cons, hclosing, if_pos rfl,
    Cursor.next_facing (Token.isEof_of_isPunct hclosing) hrest]
  rfl

/-- What follows the name of a method without parameters: a body. -/
theorem methodRest_block (kind : JavaKind) (hopening : opening.token.isPunct '(' = true)
    (hclosing : closing.token.isPunct ')' = true) (hfirst : first.token.isPunct '{' = true)
    (hlast : last.token.isPunct '}' = true) (hrest : rest ≠ []) :
    groovy.methodRest kind (facing before (opening :: closing :: first :: last :: rest)) =
      .ok (kind, [.leaf .parameters "" opening.token.pos, .leaf .slist "" first.token.pos])
        (facing (last :: first :: closing :: opening :: before) rest) := by
  have hkind := Token.kind_of_isPunct hfirst
  have hline : first.token.isNewline = false := Token.isNewline_of_kind (by simp [hkind])
  have hpeek : groovy.peek (facing (closing :: opening :: before) (first :: last :: rest)) 0 =
      first.token :=
    Cursor.peekSignificant_facing (fun s hs => absurd hs List.not_mem_nil) (by simp) hline
  -- behind the parameters the bracket of the body comes at once
  have hthrows : groovy.throwsClause (facing (closing :: opening :: before)
      (first :: last :: rest)) =
        .ok [] (facing (closing :: opening :: before) (first :: last :: rest)) := by
    rw [Grammar.throwsClause, get_bind, hpeek, Token.isKeyword_of_kind (by simp [hkind]),
      if_neg Bool.false_ne_true]
    rfl
  have hskip : groovy.passToMethodEnd (facing (closing :: opening :: before)
      (first :: last :: rest)) =
        .ok () (facing (closing :: opening :: before) (first :: last :: rest)) := by
    rw [Grammar.passToMethodEnd, get_bind, hpeek, hfirst, Bool.or_true, if_pos rfl]
    exact congrArg (EStateM.Result.ok ()) (Cursor.skipNewlines_of_isPunct hfirst)
  have hblock : groovy.block (facing (closing :: opening :: before) (first :: last :: rest)) =
      .ok (.leaf .slist "" first.token.pos)
        (facing (last :: first :: closing :: opening :: before) rest) :=
    bind_of_ok (@skipBalanced_facing _ _ .curly _ _ [] hfirst hlast .nil hrest)
  rw [Grammar.methodRest, bind_of_ok (parameters_nil hopening hclosing (by simp))]
  show (groovy.throwsClause >>= fun throws => groovy.passToMethodEnd >>= fun _ =>
    groovy.methodEnd kind _) _ = _
  rw [bind_of_ok hthrows, bind_of_ok hskip, Grammar.methodEnd, eatKeyword_bind, Cursor.token_facing,
    headToken_cons, Token.isKeyword_of_kind (by simp [hkind]), if_neg Bool.false_ne_true,
    if_neg Bool.false_ne_true, atPunct_bind, Cursor.token_facing, headToken_cons, hfirst,
    if_pos rfl, bind_of_ok hblock]
  rfl

end

/-- The slots of a method without parameters that has a literal for its name and an empty body. -/
structure QuotedMethod where
  word : Slot
  literal : Slot
  opening : Slot
  closing : Slot
  first : Slot
  last : Slot
  isDef : word.token.isKeyword "def" = true
  isLiteral : literal.token.kind = .stringLit
  isOpening : opening.token.isPunct '(' = true
  isClosing : closing.token.isPunct ')' = true
  isFirst : first.token.isPunct '{' = true
  isLast : last.token.isPunct '}' = true

namespace QuotedMethod

variable (m : QuotedMethod) {before rest : List Slot} {inside : Grammar.BodyParser NodeKind}
  {className : String}

def slots : List Slot := [m.word, m.literal, m.opening, m.closing, m.first, m.last]

/-- The method that is read. -/
def tree : Tree NodeKind where
  kind := .methodDef
  text := Grammar.quotedName?.unquoted m.literal.token.text
  pos := m.word.token.pos
  doc := m.word.doc
  children := [.leaf .modifiers "" m.word.token.pos, .leaf .type "def" m.word.token.pos,
    .leaf .parameters "" m.opening.token.pos, .leaf .slist "" m.first.token.pos]

theorem member_slots (hrest : rest ≠ []) :
    groovy.member inside className (facing before (m.slots ++ rest)) =
      .ok [m.tree] (facing (m.slots.reverse ++ before) rest) := by
  have hword : (facing before (m.slots ++ rest)).token.isKeyword "def" = true := m.isDef
  have hhead : (facing before (m.slots ++ rest)).token = m.word.token := rfl
  have hconstructor : Grammar.atConstructor (some className) (facing before (m.slots ++ rest)) =
      false := by
    rw [Grammar.atConstructor, hhead, Token.kind_of_isKeyword m.isDef]
    rfl
  have htype : groovy.declaredType Grammar.followsMember (facing before (m.slots ++ rest)) =
      .ok (.leaf .type "def" m.word.token.pos) (facing (m.word :: before) (m.literal :: m.opening ::
        m.closing :: m.first :: m.last :: rest)) :=
    declaredType_def m.isDef (by simp)
  -- Through the reading of a member: no constructor, the type is `def`, the name is quoted.
  rw [member_def hword, Grammar.methodOrFields, atPunct_bind, hhead,
    Token.isPunct_of_isKeyword m.isDef, if_neg Bool.false_ne_true, pure_bind]
  beta_reduce
  rw [get_bind, hconstructor, if_neg Bool.false_ne_true, bind_of_ok htype,
    bind_of_ok (quotedName_literal m.isLiteral m.isOpening)]
  show (groovy.method .methodDef _ _ _ >>= fun method => pure [method]) _ = _
  rw [Grammar.method, bind_assoc,
    bind_of_ok (methodRest_block _ m.isOpening m.isClosing m.isFirst m.isLast hrest)]
  rfl

/-- A class body that holds the method and nothing else. -/
theorem members_slots {brace ending : Slot} (hbrace : brace.token.isPunct '{' = true)
    (hending : ending.token.isPunct '}' = true) (hrest : rest ≠ []) :
    ∃ before', groovy.members inside className false
        (facing before (brace :: (m.slots ++ ending :: rest))) =
      .ok ((Tree.leaf .objBlock "" brace.token.pos).withChildren [m.tree])
        (facing before' rest) := by
  have hmethod : groovy.membersRound inside className []
      (facing (brace :: before) (m.slots ++ ending :: rest)) =
        .ok (.next ([] ++ [m.tree]))
          (facing (m.slots.reverse ++ brace :: before) (ending :: rest)) :=
    (Grammar.membersRound_member m.isDef (lineEnds_nil _)).trans
      (bind_of_ok (m.member_slots (by simp)))
  have hend : groovy.membersRound inside className ([] ++ [m.tree])
      (facing (m.slots.reverse ++ brace :: before) (ending :: rest)) =
        .ok (.done [m.tree]) (facing (ending :: (m.slots.reverse ++ brace :: before)) rest) :=
    Grammar.membersRound_closing hending (lineEnds_nil _) hrest
  refine ⟨ending :: (m.slots.reverse ++ brace :: before), ?_⟩
  rw [Grammar.members_opening hbrace (by simp)]
  refine bind_of_ok ((iterate_of_next hmethod ?_).trans (iterate_of_done hend))
  simp only [Cursor.remaining_facing, slots, List.length_append, List.length_cons]
  omega

end QuotedMethod

/-! ## The source -/

/-- A class with one method, whose name is written between double quotes. -/
def quotedMethodSource (name : String) : String :=
  "class A \x7b def \"" ++ name ++ "\"() \x7b \x7d \x7d"

/-- The method of the source. -/
def quotedMethod (name : String) : QuotedMethod where
  word := slotAt .keyword "def" 1 11 true
  literal := slotAt .stringLit (String.ofList ('"' :: (name.toList ++ ['"']))) 1 15 true
  opening := slotAt .punct "(" 1 (name.length + 17) false
  closing := slotAt .punct ")" 1 (name.length + 18) false
  first := slotAt .punct "\x7b" 1 (name.length + 20) true
  last := slotAt .punct "\x7d" 1 (name.length + 22) true
  isDef := by decide
  isLiteral := rfl
  isOpening := rfl
  isClosing := rfl
  isFirst := rfl
  isLast := rfl

/-- The slots of the source. -/
def quotedMethodSlots (name : String) : List Slot :=
  slotAt .keyword "class" 1 1 false :: slotAt .ident "A" 1 7 true ::
    slotAt .punct "\x7b" 1 9 true :: ((quotedMethod name).slots ++
      [slotAt .punct "\x7d" 1 (name.length + 24) true, slotAt .eof "" 1 (name.length + 25) false])

/-- The file that is read, if `text` is the name of the method. -/
def quotedMethodTree (name text : String) : Tree NodeKind :=
  groovy.unit
    [{ kind := .classDef, text := "A", pos := ⟨1, 1⟩,
       children := [.leaf .modifiers "" ⟨1, 1⟩, (Tree.leaf .objBlock "" ⟨1, 9⟩).withChildren
         [{ kind := .methodDef, text := text, pos := ⟨1, 11⟩,
            children := [.leaf .modifiers "" ⟨1, 11⟩, .leaf .type "def" ⟨1, 11⟩,
              .leaf .parameters "" ⟨1, name.length + 17⟩,
              .leaf .slist "" ⟨1, name.length + 20⟩] }]] }]

theorem file_quotedMethodSlots (name : String) :
    ∃ d, Groovy.file (facing [] (quotedMethodSlots name)) = .ok (quotedMethodTree name
      (Grammar.quotedName?.unquoted (String.ofList ('"' :: (name.toList ++ ['"']))))) d :=
  @file_class [] [] _ [] _ _ _ _ _ (by simp) (by decide) (by decide) (by simp) (by decide) (by simp)
    rfl (by simp) fun inside => (quotedMethod name).members_slots (by decide) rfl (by simp)

/-! ### Tokens -/

/-- The lexemes in front of the name. -/
def frontLexemes : List Lexeme :=
  [⟨.word, "class".toList⟩, ⟨.blank, [' ']⟩, ⟨.word, "A".toList⟩, ⟨.blank, [' ']⟩, ⟨.punct, ['{']⟩,
    ⟨.blank, [' ']⟩, ⟨.word, "def".toList⟩, ⟨.blank, [' ']⟩]

/-- The lexemes behind the name. -/
def backLexemes : List Lexeme :=
  [⟨.punct, ['(']⟩, ⟨.punct, [')']⟩, ⟨.blank, [' ']⟩, ⟨.punct, ['{']⟩, ⟨.blank, [' ']⟩,
    ⟨.punct, ['}']⟩, ⟨.blank, [' ']⟩, ⟨.punct, ['}']⟩]

theorem toList_quotedMethodSource (name : String) :
    (quotedMethodSource name).toList = "class A \x7b def ".toList ++
      ('"' :: (name.toList ++ ['"']) ++ "() \x7b \x7d \x7d".toList) := by
  have hfront : "class A \x7b def \"".toList = "class A \x7b def ".toList ++ ['"'] := rfl
  have hback : "\"() \x7b \x7d \x7d".toList = ['"'] ++ "() \x7b \x7d \x7d".toList := rfl
  show ("class A \x7b def \"" ++ name ++ "\"() \x7b \x7d \x7d").toList = _
  rw [String.toList_append, String.toList_append, hfront, hback]
  simp only [List.append_assoc, List.cons_append, List.nil_append]

theorem splits_quotedMethodSource {name : String} (hquote : '"' ∉ name.toList)
    (hescape : '\\' ∉ name.toList) (hline : '\n' ∉ name.toList) :
    Lexeme.Splits (quotedMethodSource name).toList
      (frontLexemes ++ ⟨.stringLit, '"' :: (name.toList ++ ['"'])⟩ :: backLexemes) := by
  have hback : Lexeme.Splits "() \x7b \x7d \x7d".toList backLexemes :=
    Lexeme.split_eq_ok_iff.mp (by decide +kernel)
  have hliteral := @Lexeme.begins_stringLit name.toList ") \x7b \x7d \x7d".toList '(' hquote hescape
    hline (by decide)
  have hdef : IsIdentifier "def" :=
    ⟨'d', ['e', 'f'], rfl, by decide +kernel, List.all_eq_true.mp (by decide +kernel)⟩
  have hname : IsIdentifier "A" := ⟨'A', [], rfl, by decide +kernel, by simp⟩
  -- From behind: each lexeme is begun by the text that follows it.
  have hword := hdef.begins (Classes.takeWhile_space ('"' :: (name.toList ++ ['"']) ++
    "() \x7b \x7d \x7d".toList))
  have hbrace := Classes.begins_brace (.inl rfl) (' ' :: ("def".toList ++
    ' ' :: ('"' :: (name.toList ++ ['"']) ++ "() \x7b \x7d \x7d".toList)))
  have hident := hname.begins (Classes.takeWhile_space ('{' :: ' ' :: ("def".toList ++
    ' ' :: ('"' :: (name.toList ++ ['"']) ++ "() \x7b \x7d \x7d".toList))))
  have hsplits := Lexeme.Splits.cons (Classes.isIdentifier_class.begins (Classes.takeWhile_space _))
    (.cons (Lexeme.begins_blank hident rfl) (.cons hident
      (.cons (Lexeme.begins_blank hbrace rfl) (.cons hbrace
        (.cons (Lexeme.begins_blank hword rfl) (.cons hword
          (.cons (Lexeme.begins_blank hliteral rfl) (.cons hliteral hback))))))))
  rw [toList_quotedMethodSource]
  exact hsplits

theorem tokensAt_front (ls : List Lexeme) :
    Language.groovy.lexicon.tokensAt .start false (frontLexemes ++ ls) =
      ⟨.keyword, "class", ⟨1, 1⟩, false⟩ :: ⟨.ident, "A", ⟨1, 7⟩, true⟩ ::
        ⟨.punct, "\x7b", ⟨1, 9⟩, true⟩ :: ⟨.keyword, "def", ⟨1, 11⟩, true⟩ ::
        Language.groovy.lexicon.tokensAt ⟨1, 15⟩ true ls := rfl

theorem tokensAt_back (n : Nat) :
    Language.groovy.lexicon.tokensAt ⟨1, n⟩ false backLexemes =
      [⟨.punct, "(", ⟨1, n⟩, false⟩, ⟨.punct, ")", ⟨1, n + 1⟩, false⟩,
        ⟨.punct, "\x7b", ⟨1, n + 3⟩, true⟩, ⟨.punct, "\x7d", ⟨1, n + 5⟩, true⟩,
        ⟨.punct, "\x7d", ⟨1, n + 7⟩, true⟩, ⟨.eof, "", ⟨1, n + 8⟩, false⟩] := rfl

theorem tokenize_quotedMethodSource {name : String} (hquote : '"' ∉ name.toList)
    (hescape : '\\' ∉ name.toList) (hline : '\n' ∉ name.toList) :
    ∃ tokens, Language.groovy.lexicon.tokenize (quotedMethodSource name) = .ok tokens ∧
      Slot.attach tokens = quotedMethodSlots name := by
  have hplain : ¬['\\', 'u'] <:+: (quotedMethodSource name).toList := by
    intro hpair
    have hmem : '\\' ∈ (quotedMethodSource name).toList := hpair.subset (by simp)
    rw [toList_quotedMethodSource, List.mem_append, List.mem_append, List.mem_cons, List.mem_append]
      at hmem
    rcases hmem with hmem | (hmem | hmem | hmem) | hmem
    · exact absurd hmem (by decide)
    · exact absurd hmem (by decide)
    · exact hescape hmem
    · exact absurd hmem (by decide)
    · exact absurd hmem (by decide)
  have hshebang : (Language.groovy.lexicon.shebang &&
      ['#', '!'].isPrefixOf (quotedMethodSource name).toList) = false := by
    rw [toList_quotedMethodSource]
    rfl
  -- no line ends inside the literal, so its length tells the column behind it
  have hbehind : (⟨1, 15⟩ : Position).past ('"' :: (name.toList ++ ['"'])) =
      ⟨1, name.length + 17⟩ := by
    rw [Position.past_of_not_mem (by simp [hline])]
    simp only [List.length_cons, List.length_append, String.length_toList, List.length_nil,
      Position.mk.injEq, true_and]
    omega
  have htokens := Lexicon.tokenize_of_splits hshebang hplain
    (splits_quotedMethodSource hquote hescape hline)
  have hliteral : Language.groovy.lexicon.tokenKind? ⟨.stringLit, '"' :: (name.toList ++ ['"'])⟩ =
    some .stringLit := rfl
  rw [tokensAt_front, Lexicon.tokensAt_some hliteral, hbehind, tokensAt_back] at htokens
  exact ⟨_, htokens, rfl⟩

/-! ## The name of the method -/

/-- The characters that are cut off a literal. -/
def isQuote (c : Char) : Bool := c = '"' || c = '\''

/-- The quotes that a name is written between are cut off with those at its own ends. -/
theorem toList_unquoted (name : List Char) :
    (Grammar.quotedName?.unquoted (String.ofList ('"' :: (name ++ ['"'])))).toList =
      Text.cutEnd isQuote (Text.cutStart isQuote name) := by
  rw [Grammar.quotedName?.unquoted, String.toList_ofList, String.toList_ofList]
  exact @Text.cutEnd_cutStart_append isQuote name ['"'] ['"'] (by simp [isQuote])
    (by simp [isQuote])

/-- Of a name without double quotes, the apostrophes at its ends are cut off. -/
theorem exists_replicate_cut {name : List Char} (hquote : '"' ∉ name) :
    ∃ m n, name = List.replicate m '\'' ++
        (Text.cutEnd isQuote (Text.cutStart isQuote name) ++ List.replicate n '\'') ∧
      (Text.cutEnd isQuote (Text.cutStart isQuote name)).head? ≠ some '\'' ∧
      (Text.cutEnd isQuote (Text.cutStart isQuote name)).getLast? ≠ some '\'' := by
  obtain ⟨front, back, hname, hfront, hback, hhead, hlast⟩ :=
    Text.exists_cutEnd_cutStart isQuote name
  generalize Text.cutEnd isQuote (Text.cutStart isQuote name) = cut at hname hhead hlast ⊢
  -- The other quote does not occur, so all that is cut off are apostrophes.
  have hapostrophe : ∀ c ∈ name, isQuote c = true → c = '\'' := by
    intro c hc h
    simp only [isQuote, Bool.or_eq_true, decide_eq_true_eq] at h
    rcases h with rfl | h
    · exact absurd hc hquote
    · exact h
  have hfront' : front = List.replicate front.length '\'' :=
    List.eq_replicate_iff.mpr ⟨rfl, fun c hc => hapostrophe c (by simp [hname, hc]) (hfront c hc)⟩
  have hback' : back = List.replicate back.length '\'' :=
    List.eq_replicate_iff.mpr ⟨rfl, fun c hc => hapostrophe c (by simp [hname, hc]) (hback c hc)⟩
  refine ⟨front.length, back.length, ?_, fun h => ?_, fun h => ?_⟩
  · rw [← hfront', ← hback', hname]
  · exact absurd (hhead '\'' h) (by decide)
  · exact absurd (hlast '\'' h) (by decide)

/-- **Quoted names.** A class with a method whose name is written between double quotes is read, and
the method is its one member. Its name is the text between the quotes without the apostrophes at its
ends; so it is that text if and only if it neither starts nor ends with an apostrophe. -/
theorem parse_quotedMethod_iff {name : String} (hquote : '"' ∉ name.toList)
    (hescape : '\\' ∉ name.toList) (hline : '\n' ∉ name.toList) :
    ∃ text m n, Groovy.parse (quotedMethodSource name) = .ok (quotedMethodTree name text) ∧
      name.toList = List.replicate m '\'' ++ (text.toList ++ List.replicate n '\'') ∧
      text.toList.head? ≠ some '\'' ∧ text.toList.getLast? ≠ some '\'' ∧
      (text = name ↔ name.toList.head? ≠ some '\'' ∧ name.toList.getLast? ≠ some '\'') := by
  obtain ⟨m, n, hname, hhead, hlast⟩ := exists_replicate_cut hquote
  rw [← toList_unquoted] at hname hhead hlast
  obtain ⟨tokens, htokens, hslots⟩ := tokenize_quotedMethodSource hquote hescape hline
  obtain ⟨d, hfile⟩ := file_quotedMethodSlots name
  generalize Grammar.quotedName?.unquoted (String.ofList ('"' :: (name.toList ++ ['"']))) = text
    at hname hhead hlast hfile
  refine ⟨text, m, n, ?_, hname, hhead, hlast, ?_, ?_⟩
  · rw [Groovy.parse, htokens]
    show Parser.read Groovy.file (Cursor.ofTokens tokens) = _
    rw [Cursor.ofTokens_eq_facing htokens, hslots, Parser.read, hfile]
  · rintro rfl
    exact ⟨hhead, hlast⟩
  · rintro ⟨hfirst, hfinal⟩
    -- with no apostrophes at its ends, nothing is cut off the name
    obtain rfl : m = 0 := by
      cases m with
      | zero => rfl
      | succ m => exact absurd (by simp [hname, List.replicate_succ]) hfirst
    obtain rfl : n = 0 := by
      cases n with
      | zero => rfl
      | succ n => exact absurd (by simp [hname, List.replicate_succ']) hfinal
    rw [← String.toList_inj, hname]
    simp

/-- An apostrophe inside a name stays, and so do brackets and blanks. -/
theorem parse_quotedMethod_iff_inner :
    ('"' ∉ "it's (a \x7d b".toList ∧ '\\' ∉ "it's (a \x7d b".toList ∧
      '\n' ∉ "it's (a \x7d b".toList) ∧
    Groovy.parse (quotedMethodSource "it's (a \x7d b") =
      .ok (quotedMethodTree "it's (a \x7d b" "it's (a \x7d b") := by
  obtain ⟨text, m, n, hparse, -, -, -, hname⟩ := @parse_quotedMethod_iff "it's (a \x7d b"
    (by decide) (by decide) (by decide)
  rw [hname.mpr (by decide)] at hparse
  exact ⟨by decide, hparse⟩

/-- Apostrophes at the ends of a name are lost. -/
theorem apostrophes_are_cut_off :
    (Groovy.parse (quotedMethodSource "'a'")).toOption.map (fun t =>
      (t.preorder.filter fun n => n.kind = .methodDef).map Tree.text) = some ["a"] := by
  decide +kernel

end Groovy

end Syntax

end ApiDoc
