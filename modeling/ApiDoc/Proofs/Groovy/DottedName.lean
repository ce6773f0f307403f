import ApiDoc.Proofs.Groovy.Basic
import ApiDoc.Proofs.Syntax.Identifier
import ApiDoc.Proofs.Syntax.Rendering

/-!
# Reserved words in dotted names

Some reserved words of Groovy may still be names. A dotted name takes them as its first segment, but
not behind a dot: there it ends, and the package clause or the import that it stands in cannot be
read. `DottedName.taken` is the part of a name that is read.
-/

namespace ApiDoc.Syntax.Groovy

open ApiDoc.Syntax.Parser
open Cursor (facing)
open Grammar (groovy)

/-! ## Dotted names -/

/-- A segment of a dotted name: an identifier, or a reserved word that may be a name. -/
structure Segment where
  text : String
  isIdentifier : IsIdentifier text
  isName : text ∈ Language.groovy.keywords → text ∈ Language.groovy.softKeywords

namespace Segment

/-- Is the segment a reserved word? -/
def isSoft (s : Segment) : Bool := Language.groovy.softKeywords.contains s.text

/-- The token that the segment makes. -/
def face (s : Segment) : TokenKind × String := (if s.isSoft then .keyword else .ident, s.text)

/-- The tokens of segments behind others. -/
def dottedFaces (ss : List Segment) : List (TokenKind × String) :=
  ss.flatMap fun s => [(.punct, "."), s.face]

end Segment

/-- A dotted name. -/
structure DottedName where
  first : Segment
  more : List Segment

namespace DottedName

/-- The name as it is written. -/
def text (n : DottedName) : String := ".".intercalate (n.first.text :: n.more.map Segment.text)

/-- The tokens of the name. -/
def faces (n : DottedName) : List (TokenKind × String) :=
  n.first.face :: Segment.dottedFaces n.more

/-- The segments in front of the first reserved word behind a dot. -/
def taken (n : DottedName) : DottedName := ⟨n.first, n.more.takeWhile fun s => !s.isSoft⟩

/-- The tokens of the segments that are left. -/
def left (n : DottedName) : List (TokenKind × String) :=
  Segment.dottedFaces (n.more.dropWhile fun s => !s.isSoft)

/-- Does no reserved word stand behind a dot? -/
def Plain (n : DottedName) : Prop := ∀ s ∈ n.more, s.isSoft = false

theorem ne_docComment_of_mem_faces {n : DottedName} {f : TokenKind × String} (h : f ∈ n.faces) :
    f.1 ≠ .docComment := by
  have hsegment : ∀ s : Segment, s.face.1 ≠ .docComment := fun s => by
    cases hsoft : s.isSoft <;> simp [Segment.face, hsoft]
  simp only [faces, Segment.dottedFaces, List.mem_cons, List.mem_flatMap, List.not_mem_nil,
    or_false] at h
  rcases h with rfl | ⟨s, -, rfl | rfl⟩
  · exact hsegment n.first
  · decide
  · exact hsegment s

theorem plain_taken (n : DottedName) : n.taken.Plain := fun s hs => by
  simpa using List.all_eq_true.mp List.all_takeWhile s hs

theorem taken_eq {n : DottedName} (h : n.Plain) : n.taken = n := by
  obtain ⟨first, more⟩ := n
  have hmore : (more.takeWhile fun s => !s.isSoft) = more :=
    List.takeWhile_eq_self_iff.mpr fun s hs => by simp [h s hs]
  rw [taken, hmore]

theorem faces_eq (n : DottedName) : n.faces = n.taken.faces ++ n.left := by
  rw [faces, faces, taken, left, List.cons_append, Segment.dottedFaces, Segment.dottedFaces,
    Segment.dottedFaces, ← List.flatMap_append, List.takeWhile_append_dropWhile]

theorem left_eq_nil {n : DottedName} (h : n.Plain) : n.left = [] := by
  have hmore : (n.more.dropWhile fun s => !s.isSoft) = [] := by simpa [Plain] using h
  rw [left, hmore]
  rfl

/-- What is left starts with a reserved word behind a dot. -/
theorem left_eq_cons {n : DottedName} (h : ¬n.Plain) :
    ∃ word more, n.left = (.punct, ".") :: (.keyword, word) :: more := by
  have hmore : (n.more.dropWhile fun s => !s.isSoft) ≠ [] := fun hnil =>
    h (by simpa [Plain] using hnil)
  obtain ⟨s, ss, hss⟩ := List.exists_cons_of_ne_nil hmore
  have hsoft : s.isSoft = true := by simpa [hss] using List.head_dropWhile_not _ hmore
  refine ⟨s.text, Segment.dottedFaces ss, ?_⟩
  rw [left, hss]
  simp [Segment.dottedFaces, Segment.face, hsoft]

end DottedName

/-! ## Reading a name -/

variable {before ws rest : List Slot}

theorem isPunct_of_face {t : Token} (h : t.face = (.punct, ".")) : t.isPunct '.' = true := by
  obtain ⟨hkind, htext⟩ := Prod.mk.inj h
  simp [Token.isPunct, hkind, htext, Char.toString]

theorem isName_of_face {t : Token} {s : Segment} (h : t.face = s.face) :
    t.isName groovy.soft = true := by
  obtain ⟨hkind, htext⟩ := Prod.mk.inj h
  cases hsoft : s.isSoft with
  | false => simp [Token.isName, hkind, hsoft]
  | true =>
    have hcontains : groovy.soft.contains s.text = true := hsoft
    rw [Token.isName, hkind, htext, hsoft, hcontains]
    rfl

/-- A name goes on over identifiers behind dots. -/
theorem iterate_dottedRound {ss : List Segment} (hss : ∀ s ∈ ss, s.isSoft = false)
    (hws : ws.map (·.token.face) = Segment.dottedFaces ss) (hne : rest ≠ [])
    (hstop : ∀ before, ((facing before rest).token.isPunct '.' &&
      ((facing before rest).peek 1).kind = .ident) = false) (name : String) :
    iterate name dottedRound (facing before (ws ++ rest)) =
      .ok (".".intercalate (name :: ss.map Segment.text)) (facing (ws.reverse ++ before) rest) := by
  induction ss generalizing ws before name with
  | nil =>
    obtain rfl : ws = [] := List.map_eq_nil_iff.mp hws
    refine iterate_of_done ?_
    rw [dottedRound, atDottedIdent_bind, List.nil_append, hstop]
    rfl
  | cons s ss ih =>
    obtain ⟨hs, hss⟩ := List.forall_mem_cons.mp hss
    obtain ⟨dot, ws, rfl, hdot, hws⟩ := List.map_eq_cons_iff.mp hws
    obtain ⟨segment, ws, rfl, hsegment, hws⟩ := List.map_eq_cons_iff.mp hws
    have hident : segment.token.kind = .ident := by
      simpa [Segment.face, hs] using (Prod.mk.inj hsegment).1
    have htext : segment.token.text = s.text := (Prod.mk.inj hsegment).2
    replace hdot := isPunct_of_face hdot
    have hbehind : ws ++ rest ≠ [] := by simp [hne]
    -- one round takes a dot and the identifier behind it
    have hround : dottedRound name (facing before (dot :: segment :: (ws ++ rest))) =
        .ok (.next (name ++ "." ++ s.text)) (facing (segment :: dot :: before) (ws ++ rest)) := by
      have hsegmentEof : segment.token.isEof = false :=
        Token.isEof_of_kind (by rw [hident]; decide)
      rw [dottedRound, atDottedIdent_bind, Cursor.token_facing, headToken_cons, Cursor.peek_facing,
        hdot, hident]
      show (bump >>= fun _ => bump >>= fun segment => pure (Step.next _)) _ = _
      rw [bump_bind, Cursor.next_facing (Token.isEof_of_isPunct hdot) (by simp), bump_bind,
        Cursor.next_facing hsegmentEof hbehind, Cursor.token_facing, headToken_cons, htext]
      rfl
    have hlt : (facing (segment :: dot :: before) (ws ++ rest)).remaining <
        (facing before (dot :: segment :: (ws ++ rest))).remaining := by
      have hlength := List.length_pos_iff.mpr hbehind
      simp only [Cursor.remaining_facing, List.length_cons]
      omega
    show iterate name dottedRound (facing before (dot :: segment :: (ws ++ rest))) = _
    rw [iterate_of_next hround hlt, ih hss hws (name ++ "." ++ s.text)]
    simp only [List.reverse_cons, List.append_assoc, List.cons_append, List.nil_append]
    rfl

theorem qualifiedName_facing (n : DottedName) (hplain : n.Plain)
    (hws : ws.map (·.token.face) = n.faces) (hne : rest ≠ [])
    (hstop : ∀ before, ((facing before rest).token.isPunct '.' &&
      ((facing before rest).peek 1).kind = .ident) = false) :
    qualifiedName groovy.soft (facing before (ws ++ rest)) =
      .ok n.text (facing (ws.reverse ++ before) rest) := by
  obtain ⟨first, ws, rfl, hfirst, hws⟩ := List.map_eq_cons_iff.mp hws
  have hname : first.token.isName groovy.soft = true := isName_of_face hfirst
  have htake : expectName groovy.soft (facing before (first :: (ws ++ rest))) =
      .ok first.token (facing (first :: before) (ws ++ rest)) := by
    rw [expectName_ok, Cursor.token_facing,
      Cursor.next_facing (Token.isEof_of_isName hname) (by simp [hne])]
    exact ⟨hname, rfl, rfl⟩
  have htext : first.token.text = n.first.text := (Prod.mk.inj hfirst).2
  show (expectName groovy.soft >>= fun first => iterate first.text dottedRound)
    (facing before (first :: (ws ++ rest))) = _
  rw [bind_of_ok htake, iterate_dottedRound hplain hws hne hstop, htext]
  simp [DottedName.text]

/-- A name ends in front of what is left of it. -/
theorem stops_at_left {n : DottedName} {next : TokenKind × String}
    {behind : List (TokenKind × String)} (hnext : next ≠ (.punct, "."))
    (hrest : rest.map (·.token.face) = n.left ++ next :: behind) :
    ((facing before rest).token.isPunct '.' &&
      ((facing before rest).peek 1).kind = .ident) = false := by
  rw [Bool.and_eq_false_iff]
  by_cases hplain : n.Plain
  · rw [DottedName.left_eq_nil hplain] at hrest
    obtain ⟨s, rest, rfl, rfl, -⟩ := List.map_eq_cons_iff.mp hrest
    refine .inl (Bool.eq_false_iff.mpr fun hdot => hnext ?_)
    simpa [Token.isPunct, Token.face, Char.toString] using hdot
  · obtain ⟨word, more, hleft⟩ := DottedName.left_eq_cons hplain
    rw [hleft] at hrest
    obtain ⟨dot, rest, rfl, -, hrest⟩ := List.map_eq_cons_iff.mp hrest
    obtain ⟨segment, rest, rfl, hsegment, -⟩ := List.map_eq_cons_iff.mp hrest
    refine .inr (decide_eq_false ?_)
    rw [Cursor.peek_facing, (Prod.mk.inj hsegment).1]
    decide

/-- A dotted name is read up to the first reserved word behind a dot. -/
theorem qualifiedName_takes {n : DottedName} {c : Cursor} {next : TokenKind × String}
    {behind : List (TokenKind × String)} (hnext : next ≠ (.punct, "."))
    (hc : c.rest.map (·.token.face) = n.faces ++ next :: behind) :
    ∃ ws rest, c.rest = ws ++ rest ∧ ws.map (·.token.face) = n.taken.faces ∧
      rest.map (·.token.face) = n.left ++ next :: behind ∧
      qualifiedName groovy.soft c = .ok n.taken.text (facing (ws.reverse ++ c.before) rest) := by
  rw [n.faces_eq, List.append_assoc] at hc
  obtain ⟨ws, rest, hsplit, hws, hrest⟩ := List.map_eq_append_iff.mp hc
  have hne : rest ≠ [] := by
    rintro rfl
    simp at hrest
  refine ⟨ws, rest, hsplit, hws, hrest, ?_⟩
  have hread := @qualifiedName_facing c.before ws rest n.taken n.plain_taken hws hne
    fun before => stops_at_left hnext hrest
  rwa [← hsplit, c.facing_eq] at hread

/-! ## The text of a name -/

namespace Segment

/-- The text of segments behind others. -/
def dottedText (ss : List Segment) : List Char := ss.flatMap fun s => '.' :: s.text.toList

/-- The lexemes of segments behind others. -/
def dottedLexemes (ss : List Segment) : List Lexeme :=
  ss.flatMap fun s => [⟨.punct, ['.']⟩, ⟨.word, s.text.toList⟩]

theorem takeWhile_dottedText (ss : List Segment) :
    (dottedText ss).takeWhile Lexeme.isWordPart = [] := by
  have hdot : Lexeme.isWordPart '.' = false := by decide +kernel
  cases ss with
  | nil => rfl
  | cons s ss => simp [dottedText, hdot]

theorem begins_dot (s : Segment) (rest : List Char) :
    Lexeme.Begins ⟨.punct, ['.']⟩ (s.text.toList ++ rest) := by
  refine ⟨'.', [], rfl, .punct (by decide) (fun h => absurd h (by decide)) fun _ htwo => ?_⟩
  obtain ⟨c, cs, htext, hc, -⟩ := s.isIdentifier
  have hdot : Lexeme.isWordStart '.' = false := by decide +kernel
  rw [htext] at htwo
  have hhead : c = '.' := by simpa using congrArg List.head? htwo
  rw [hhead, hdot] at hc
  cases hc

theorem splits_dottedText (ss : List Segment) :
    Lexeme.Splits (dottedText ss) (dottedLexemes ss) := by
  induction ss with
  | nil => exact .nil
  | cons s ss ih =>
    have hword := s.isIdentifier.begins (takeWhile_dottedText ss)
    exact .cons (s.begins_dot (dottedText ss)) (.cons hword ih)

theorem face?_lexeme (s : Segment) :
    Language.groovy.lexicon.face? ⟨.word, s.text.toList⟩ = some s.face := by
  have hsoft : Language.groovy.softKeywords.all Language.groovy.keywords.contains = true := by
    decide
  have hkeyword : Language.groovy.lexicon.keywords.contains s.text = s.isSoft := by
    rw [Bool.eq_iff_iff, isSoft, List.contains_iff_mem, List.contains_iff_mem]
    exact ⟨s.isName, fun hs => List.contains_iff_mem.mp (List.all_eq_true.mp hsoft _ hs)⟩
  simp only [Lexicon.face?, Lexicon.tokenKind?, String.ofList_toList, hkeyword, face,
    Option.map_some]

theorem face?_dottedLexemes (ss : List Segment) :
    (dottedLexemes ss).filterMap Language.groovy.lexicon.face? = dottedFaces ss := by
  induction ss with
  | nil => rfl
  | cons s ss ih =>
    have hdot : Language.groovy.lexicon.face? ⟨.punct, ['.']⟩ = some (.punct, ".") := rfl
    show (⟨.punct, ['.']⟩ :: ⟨.word, s.text.toList⟩ :: dottedLexemes ss).filterMap _ = _
    rw [List.filterMap_cons_some hdot, List.filterMap_cons_some s.face?_lexeme, ih]
    rfl

theorem not_endsLine_of_mem {ss : List Segment} {l : Lexeme} (h : l ∈ dottedLexemes ss) :
    Lexicon.endsLine l = false := by
  obtain ⟨s, -, hl⟩ := List.mem_flatMap.mp h
  simp only [List.mem_cons, List.not_mem_nil, or_false] at hl
  rcases hl with rfl | rfl <;> rfl

end Segment

namespace DottedName

theorem toList_text (n : DottedName) :
    n.text.toList = n.first.text.toList ++ Segment.dottedText n.more := by
  obtain ⟨first, more⟩ := n
  show (".".intercalate (first.text :: more.map Segment.text)).toList = first.text.toList ++ _
  generalize first.text = text
  induction more generalizing text with
  | nil =>
    show text.toList = _
    rw [Segment.dottedText, List.flatMap_nil, List.append_nil]
  | cons s ss ih =>
    show (".".intercalate ((text ++ "." ++ s.text) :: ss.map Segment.text)).toList = _
    rw [ih]
    simp [Segment.dottedText]

/-- The lexemes of the name. -/
def lexemes (n : DottedName) : List Lexeme :=
  ⟨.word, n.first.text.toList⟩ :: Segment.dottedLexemes n.more

theorem splits_text (n : DottedName) : Lexeme.Splits n.text.toList n.lexemes := by
  rw [n.toList_text]
  exact .cons (n.first.isIdentifier.begins (Segment.takeWhile_dottedText n.more))
    (Segment.splits_dottedText n.more)

end DottedName

/-- The characters of words and dots escape nothing. -/
theorem not_escape_of_text {word : String} (hword : IsIdentifier word) (n : DottedName) :
    ¬['\\', 'u'] <:+: (word ++ " " ++ n.text).toList := by
  intro hpair
  have hmem : '\\' ∈ (word ++ " " ++ n.text).toList := hpair.subset (by simp)
  rw [String.toList_append, String.toList_append, n.toList_text, List.mem_append, List.mem_append,
    List.mem_append, Segment.dottedText, List.mem_flatMap] at hmem
  rcases hmem with (hmem | hmem) | hmem | ⟨s, -, hmem⟩
  · exact hword.backslash_not_mem hmem
  · exact absurd hmem (by decide)
  · exact n.first.isIdentifier.backslash_not_mem hmem
  · rcases List.mem_cons.mp hmem with hdot | hmem
    · exact absurd hdot (by decide)
    · exact s.isIdentifier.backslash_not_mem hmem

/-- The tokens of a word in front of a dotted name. -/
theorem tokenize_clause {word : String} (hword : IsIdentifier word)
    (hkeyword : word ∈ Language.groovy.keywords) (n : DottedName) :
    ∃ tokens, Language.groovy.lexicon.tokenize (word ++ " " ++ n.text) =
        .ok (⟨.keyword, word, .start, false⟩ :: tokens) ∧
      tokens.map Token.face = n.faces ++ [(.eof, "")] := by
  have hsplits : Lexeme.Splits (word ++ " " ++ n.text).toList
      (⟨.word, word.toList⟩ :: ⟨.blank, [' ']⟩ :: n.lexemes) := by
    have hblank : Lexeme.Begins ⟨.blank, [' ']⟩ n.text.toList := by
      rw [n.toList_text]
      exact Lexeme.begins_blank
        (n.first.isIdentifier.begins (Segment.takeWhile_dottedText n.more)) rfl
    have hstop : (' ' :: n.text.toList).takeWhile Lexeme.isWordPart = [] := by
      rw [List.takeWhile_cons, if_neg (by decide +kernel)]
    rw [String.toList_append, String.toList_append, List.append_assoc]
    exact .cons (hword.begins hstop) (.cons hblank n.splits_text)
  -- an identifier starts no `#!` line, and has no escapes in it
  have hshebang : ['#', '!'].isPrefixOf (word ++ " " ++ n.text).toList = false := by
    obtain ⟨c, cs, htext, hc, -⟩ := hword
    have hne : '#' ≠ c := by
      rintro rfl
      exact absurd hc (by decide +kernel)
    rw [String.toList_append, String.toList_append, htext]
    exact Bool.and_eq_false_iff.mpr (.inl (beq_false_of_ne hne))
  have hwordKind : Language.groovy.lexicon.tokenKind? ⟨.word, word.toList⟩ = some .keyword := by
    simp only [Lexicon.tokenKind?, String.ofList_toList]
    exact congrArg some (if_pos (List.contains_iff_mem.mpr hkeyword))
  have htokens := @Lexicon.tokenize_of_splits Language.groovy.lexicon _ _
    (by rw [hshebang, Bool.and_false]) (not_escape_of_text hword n) hsplits
  rw [Lexicon.tokensAt, hwordKind] at htokens
  dsimp only at htokens
  rw [String.ofList_toList] at htokens
  refine ⟨_, htokens, (Lexicon.map_face_tokensAt _ _ fun l hl => ?_).trans ?_⟩
  · have hline : Lexicon.endsLine l = false := by
      rcases List.mem_cons.mp hl with rfl | hl
      · rfl
      rcases List.mem_cons.mp hl with rfl | hl
      · rfl
      · exact Segment.not_endsLine_of_mem hl
    rw [hline, Bool.and_false]
  · rw [List.filterMap_cons_none rfl, DottedName.lexemes,
      List.filterMap_cons_some n.first.face?_lexeme, Segment.face?_dottedLexemes]
    rfl

/-! ## Clauses -/

section

variable {n : DottedName} {word : Slot} {slots : List Slot}

theorem ne_nil_of_faces (hslots : slots.map (·.token.face) = n.faces ++ [(.eof, "")]) :
    slots ≠ [] := by
  rintro rfl
  simp at hslots

/-- The name of a clause that stands alone is read up to the end. -/
theorem qualifiedName_of_plain (hslots : slots.map (·.token.face) = n.faces ++ [(.eof, "")])
    (h : n.Plain) : ∃ before e, e.token.isEof = true ∧
      qualifiedName groovy.soft (facing [word] slots) = .ok n.text (facing before [e]) := by
  obtain ⟨ws, rest, -, -, hrest, hread⟩ := @qualifiedName_takes n (facing [word] slots)
    (.eof, "") [] (by decide) (by rw [Cursor.rest_facing (ne_nil_of_faces hslots)]; exact hslots)
  rw [DottedName.left_eq_nil h] at hrest
  obtain ⟨e, rest, rfl, he, hrest⟩ := List.map_eq_cons_iff.mp hrest
  obtain rfl : rest = [] := List.map_eq_nil_iff.mp hrest
  rw [DottedName.taken_eq h] at hread
  exact ⟨_, e, by simp [Token.isEof, (Prod.mk.inj he).1], hread⟩

/-- A reserved word behind a dot is left in place. -/
theorem qualifiedName_of_not_plain (hslots : slots.map (·.token.face) = n.faces ++ [(.eof, "")])
    (h : ¬n.Plain) : ∃ before dot segment rest, dot.token.isPunct '.' = true ∧
      segment.token.kind = .keyword ∧ qualifiedName groovy.soft (facing [word] slots) =
        .ok n.taken.text (facing before (dot :: segment :: rest)) := by
  obtain ⟨ws, rest, -, -, hrest, hread⟩ := @qualifiedName_takes n (facing [word] slots)
    (.eof, "") [] (by decide) (by rw [Cursor.rest_facing (ne_nil_of_faces hslots)]; exact hslots)
  obtain ⟨text, more, hleft⟩ := DottedName.left_eq_cons h
  rw [hleft] at hrest
  obtain ⟨dot, rest, rfl, hdot, hrest⟩ := List.map_eq_cons_iff.mp hrest
  obtain ⟨segment, rest, rfl, hsegment, -⟩ := List.map_eq_cons_iff.mp hrest
  exact ⟨_, dot, segment, rest, isPunct_of_face hdot, (Prod.mk.inj hsegment).1, hread⟩

theorem endOfDeclaration_end {before : List Slot} {e : Slot} (he : e.token.isEof = true) :
    groovy.endOfDeclaration (facing before [e]) = .ok () (facing before [e]) := by
  have hkind : e.token.kind = .eof := by simpa [Token.isEof] using he
  rw [endOfDeclaration_apply, Cursor.token_facing, headToken_cons,
    Token.isPunct_of_kind (by simp [hkind]), if_neg Bool.false_ne_true, he, Bool.or_true,
    if_pos rfl]

theorem endOfDeclaration_dot {before rest : List Slot} {dot : Slot}
    (hdot : dot.token.isPunct '.' = true) :
    groovy.endOfDeclaration (facing before (dot :: rest)) =
      .error ((facing before (dot :: rest)).unexpected "end of declaration")
        (facing before (dot :: rest)) := by
  have hkind := Token.kind_of_isPunct hdot
  rw [endOfDeclaration_apply, Cursor.token_facing, headToken_cons,
    Token.isPunct_ne hdot (by decide), if_neg Bool.false_ne_true,
    Token.isPunct_ne hdot (by decide), Token.isNewline_of_kind (by simp [hkind]),
    Token.isEof_of_isPunct hdot]
  rfl

theorem expectKeyword_facing {text : String} (hword : word.token.isKeyword text = true)
    (hne : slots ≠ []) :
    expectKeyword text (facing [] (word :: slots)) = .ok word.token (facing [word] slots) := by
  refine expect_ok.mpr ⟨hword, rfl, ?_⟩
  exact (Cursor.next_facing (Token.isEof_of_isKeyword hword) hne).symm

theorem packageDef_of_plain (hword : word.token.isKeyword "package" = true)
    (hslots : slots.map (·.token.face) = n.faces ++ [(.eof, "")]) (h : n.Plain) :
    ∃ before e, e.token.isEof = true ∧ groovy.packageDef (facing [] (word :: slots)) =
      .ok (groovy.leaf .packageDef n.text word.token.pos) (facing before [e]) := by
  obtain ⟨before, e, he, hname⟩ := @qualifiedName_of_plain n word slots hslots h
  refine ⟨before, e, he, ?_⟩
  rw [Grammar.packageDef, bind_of_ok (expectKeyword_facing hword (ne_nil_of_faces hslots)),
    bind_of_ok hname, bind_of_ok (endOfDeclaration_end he)]
  rfl

theorem packageDef_of_not_plain (hword : word.token.isKeyword "package" = true)
    (hslots : slots.map (·.token.face) = n.faces ++ [(.eof, "")]) (h : ¬n.Plain) :
    ∃ e d, groovy.packageDef (facing [] (word :: slots)) = .error e d := by
  obtain ⟨before, dot, segment, rest, hdot, -, hname⟩ := @qualifiedName_of_not_plain n word slots
    hslots h
  rw [Grammar.packageDef, bind_of_ok (expectKeyword_facing hword (ne_nil_of_faces hslots)),
    bind_of_ok hname]
  exact ⟨_, _, bind_of_error (endOfDeclaration_dot hdot)⟩

/-- No segment is the word that makes an import static. -/
theorem isKeyword_static_of_faces (hslots : slots.map (·.token.face) = n.faces ++ [(.eof, "")]) :
    (headToken slots).isKeyword "static" = false := by
  obtain ⟨first, slots, rfl, hfirst, -⟩ := List.map_eq_cons_iff.mp hslots
  have hname := isName_of_face hfirst
  rw [headToken_cons, Token.isKeyword, Bool.and_eq_false_iff, decide_eq_false_iff_not,
    decide_eq_false_iff_not, ← not_and_or]
  rintro ⟨hkind, htext⟩
  rw [Token.isName, hkind, htext] at hname
  revert hname
  decide

theorem importDef_of_plain (hword : word.token.isKeyword "import" = true)
    (hslots : slots.map (·.token.face) = n.faces ++ [(.eof, "")]) (h : n.Plain) :
    ∃ before e, e.token.isEof = true ∧ groovy.importDef (facing [] (word :: slots)) =
      .ok (groovy.leaf .importDef n.text word.token.pos) (facing before [e]) := by
  obtain ⟨before, e, he, hname⟩ := @qualifiedName_of_plain n word slots hslots h
  have hkind : e.token.kind = .eof := by simpa [Token.isEof] using he
  have hrest : groovy.importRest n.text (facing before [e]) = .ok n.text (facing before [e]) := by
    rw [Grammar.importRest, eatPunct_bind, Cursor.token_facing, headToken_cons,
      Token.isPunct_of_kind (by simp [hkind]), if_neg Bool.false_ne_true,
      if_neg Bool.false_ne_true]
    show (eatKeyword "as" >>= fun b => (_ : Parser String)) _ = _
    rw [eatKeyword_bind, Cursor.token_facing, headToken_cons,
      Token.isKeyword_of_kind (by simp [hkind])]
    rfl
  refine ⟨before, e, he, ?_⟩
  rw [Grammar.importDef, bind_of_ok (expectKeyword_facing hword (ne_nil_of_faces hslots)),
    eatKeyword_bind, Cursor.token_facing, isKeyword_static_of_faces hslots,
    if_neg Bool.false_ne_true, bind_of_ok hname, bind_of_ok hrest,
    bind_of_ok (endOfDeclaration_end he)]
  rfl

theorem importDef_of_not_plain (hword : word.token.isKeyword "import" = true)
    (hslots : slots.map (·.token.face) = n.faces ++ [(.eof, "")]) (h : ¬n.Plain) :
    ∃ e d, groovy.importDef (facing [] (word :: slots)) = .error e d := by
  obtain ⟨before, dot, segment, rest, hdot, hsegment, hname⟩ := @qualifiedName_of_not_plain n word
    slots hslots h
  -- a dot behind a name calls for a star
  have hrest : groovy.importRest n.taken.text (facing before (dot :: segment :: rest)) =
      .error ((facing (dot :: before) (segment :: rest)).unexpected "'*'")
        (facing (dot :: before) (segment :: rest)) := by
    rw [Grammar.importRest, eatPunct_bind, Cursor.token_facing, headToken_cons, hdot, if_pos rfl,
      if_pos rfl, Cursor.next_facing (Token.isEof_of_isPunct hdot) (by simp)]
    refine bind_of_error ?_
    show (if (facing (dot :: before) (segment :: rest)).token.isPunct '*' then bump
      else unexpected "'*'") (facing (dot :: before) (segment :: rest)) = _
    rw [Cursor.token_facing, headToken_cons, Token.isPunct_of_kind (by simp [hsegment])]
    rfl
  rw [Grammar.importDef, bind_of_ok (expectKeyword_facing hword (ne_nil_of_faces hslots)),
    eatKeyword_bind, Cursor.token_facing, isKeyword_static_of_faces hslots,
    if_neg Bool.false_ne_true, bind_of_ok hname]
  exact ⟨_, _, bind_of_error hrest⟩

theorem pastSeparators_of_isKeyword {text : String} (hword : word.token.isKeyword text = true) :
    groovy.pastSeparators (facing [] (word :: slots)) = facing [] (word :: slots) :=
  Cursor.skipWhile_of_not (by
    simp [Token.isNewline_of_kind, Token.isPunct_of_kind, Token.kind_of_isKeyword hword])

theorem fileRound_package (hword : word.token.isKeyword "package" = true) :
    fileRound [] (facing [] (word :: slots)) = (groovy.packageDef >>= fun t =>
      pure (.next ([] ++ [t]))) (groovy.pastSeparators (facing [] (word :: slots))) := by
  rw [fileRound, Grammar.passSeparators_bind, pastSeparators_of_isKeyword hword, peek_bind,
    Cursor.token_facing, headToken_cons, Token.isEof_of_isKeyword hword, hword]
  rfl

theorem fileRound_import (hword : word.token.isKeyword "import" = true) :
    fileRound [] (facing [] (word :: slots)) = (groovy.importDef >>= fun t =>
      pure (.next ([] ++ [t]))) (groovy.pastSeparators (facing [] (word :: slots))) := by
  have hpackage : word.token.isKeyword "package" = false := by
    have htext : word.token.text = "import" := by
      simpa [Token.isKeyword, Token.kind_of_isKeyword hword] using hword
    simp [Token.isKeyword, htext]
  rw [fileRound, Grammar.passSeparators_bind, pastSeparators_of_isKeyword hword, peek_bind,
    Cursor.token_facing, headToken_cons, Token.isEof_of_isKeyword hword, hpackage, hword]
  rfl

end

/-- A source of one clause is read if and only if no reserved word stands behind a dot. -/
theorem parse_clause (text : String) (hidentifier : IsIdentifier text)
    (hkeyword : text ∈ Language.groovy.keywords) {clause : Parser (Tree NodeKind)}
    {kind : JavaKind} {n : DottedName}
    (hround : ∀ {word slots}, word.token.isKeyword text = true →
      fileRound [] (facing [] (word :: slots)) = (clause >>= fun t =>
        pure (.next ([] ++ [t]))) (groovy.pastSeparators (facing [] (word :: slots))))
    (hplain : ∀ {word slots}, word.token.isKeyword text = true →
      slots.map (·.token.face) = n.faces ++ [(.eof, "")] → n.Plain →
      ∃ before e, e.token.isEof = true ∧ clause (facing [] (word :: slots)) =
        .ok (groovy.leaf kind n.text word.token.pos) (facing before [e]))
    (hsoft : ∀ {word slots}, word.token.isKeyword text = true →
      slots.map (·.token.face) = n.faces ++ [(.eof, "")] → ¬n.Plain →
      ∃ e d, clause (facing [] (word :: slots)) = .error e d) (tree : Tree NodeKind) :
    Groovy.parse (text ++ " " ++ n.text) = .ok tree ↔
      n.Plain ∧ tree = groovy.unit [groovy.leaf kind n.text .start] := by
  obtain ⟨tokens, htokens, hfaces⟩ := tokenize_clause hidentifier hkeyword n
  have hdoc : ∀ t ∈ tokens, t.kind ≠ .docComment := fun t ht => by
    have hface : t.face ∈ n.faces ++ [(.eof, "")] := hfaces ▸ List.mem_map_of_mem ht
    rcases List.mem_append.mp hface with hface | hface
    · exact DottedName.ne_docComment_of_mem_faces hface
    · rw [(Prod.mk.inj (List.mem_singleton.mp hface)).1]
      decide
  -- no token is a doc comment, so the slots are the tokens
  obtain ⟨word, slots, hslots, hword, hpos, hslotFaces⟩ : ∃ word slots,
      Cursor.ofTokens (⟨.keyword, text, .start, false⟩ :: tokens) = facing [] (word :: slots) ∧
      word.token.isKeyword text = true ∧ word.token.pos = .start ∧
      slots.map (·.token.face) = n.faces ++ [(.eof, "")] := by
    refine ⟨⟨⟨.keyword, text, .start, false⟩, none⟩, tokens.map (Slot.mk · none), ?_, ?_, rfl, ?_⟩
    · rw [Cursor.ofTokens_eq_facing htokens, Slot.attach_eq_map]
      · rfl
      · exact List.forall_mem_cons.mpr ⟨TokenKind.noConfusion, hdoc⟩
    · simp [Token.isKeyword]
    · rw [List.map_map, ← hfaces]
      rfl
  have hparse : Groovy.parse (text ++ " " ++ n.text) = file.read (facing [] (word :: slots)) := by
    rw [Groovy.parse, htokens, ← hslots]
    rfl
  have hstay := @pastSeparators_of_isKeyword word slots text hword
  by_cases h : n.Plain
  · obtain ⟨before, e, he, hclause⟩ := hplain hword hslotFaces h
    rw [← hstay] at hclause
    have hkind : e.token.kind = .eof := by simpa [Token.isEof] using he
    -- behind the clause the source is at its end, and the file with it
    have hend : groovy.pastSeparators (facing before [e]) = facing before [e] :=
      Cursor.skipWhile_of_not (by simp [Token.isNewline_of_kind, Token.isPunct_of_kind, hkind])
    have hlt : (facing before [e]).remaining < (facing [] (word :: slots)).remaining := by
      have hlength := List.length_pos_iff.mpr (ne_nil_of_faces hslotFaces)
      simpa using hlength
    have hfile := file_of_ok (hround hword) hclause hlt (by rw [hend]; exact he)
    rw [hparse, Parser.read, hfile, hpos]
    simp [h, eq_comm]
  · obtain ⟨e, d, hclause⟩ := hsoft hword hslotFaces h
    rw [← hstay] at hclause
    rw [hparse, Parser.read, file_of_error (hround hword) hclause]
    simp [h]

/-- Going on over tokens that are there. -/
theorem index_ahead_of_faces {c : Cursor} {faces more : List (TokenKind × String)}
    (hc : c.rest.map (·.token.face) = faces ++ more) (hmore : more ≠ []) :
    (c.ahead faces.length).index = c.index + faces.length := by
  obtain ⟨ws, rest, hsplit, rfl, rfl⟩ := List.map_eq_append_iff.mp hc
  rw [List.length_map, Cursor.ahead_eq hsplit (by simpa using hmore), Cursor.index_facing,
    List.length_append, List.length_reverse, c.length_before, Nat.add_comm]

/-- **Reserved words are names in the first segment only.** A dotted name is read up to the first
reserved word behind a dot, and whole if and only if there is none. A package clause or an import of
a name can be read if and only if no reserved word stands behind a dot of it. -/
theorem dottedName_reads_iff_plain (n : DottedName) :
    (∀ (c : Cursor) (next : TokenKind × String) (behind : List (TokenKind × String)),
      c.rest.map (·.token.face) = n.faces ++ next :: behind → next ≠ (.punct, ".") →
        qualifiedName groovy.soft c = .ok n.taken.text (c.ahead n.taken.faces.length) ∧
        (qualifiedName groovy.soft c = .ok n.text (c.ahead n.faces.length) ↔ n.Plain)) ∧
    (∀ tree, Groovy.parse ("package " ++ n.text) = .ok tree ↔
      n.Plain ∧ tree = groovy.unit [groovy.leaf .packageDef n.text .start]) ∧
    (∀ tree, Groovy.parse ("import " ++ n.text) = .ok tree ↔
      n.Plain ∧ tree = groovy.unit [groovy.leaf .importDef n.text .start]) := by
  refine ⟨fun c next behind hc hnext => ?_, ?_, ?_⟩
  · -- a name is taken up to the first reserved word behind a dot, so whole if there is none
    obtain ⟨ws, rest, hsplit, hws, hrest, hread⟩ := qualifiedName_takes hnext hc
    have hne : rest ≠ [] := by
      rintro rfl
      simp at hrest
    rw [← Cursor.ahead_eq hsplit hne, ← List.length_map (f := fun s : Slot => s.token.face), hws]
      at hread
    refine ⟨hread, fun hwhole => ?_, fun hplain => ?_⟩
    · -- the whole name is longer than the part in front of a reserved word
      by_contra hplain
      obtain ⟨word, more, hleft⟩ := DottedName.left_eq_cons hplain
      obtain ⟨-, hplace⟩ := EStateM.Result.ok.inj (hread.symm.trans hwhole)
      have hindex := congrArg Cursor.index hplace
      rw [index_ahead_of_faces hc (by simp)] at hindex
      rw [n.faces_eq, List.append_assoc] at hc
      rw [index_ahead_of_faces hc (by simp), n.faces_eq, hleft, List.length_append] at hindex
      simp only [List.length_cons] at hindex
      omega
    · rwa [DottedName.taken_eq hplain] at hread
  · exact parse_clause "package" ⟨'p', ['a', 'c', 'k', 'a', 'g', 'e'], rfl,
      by decide +kernel, List.all_eq_true.mp (by decide +kernel)⟩ (by decide) fileRound_package
      packageDef_of_plain packageDef_of_not_plain
  · exact parse_clause "import" ⟨'i', ['m', 'p', 'o', 'r', 't'], rfl,
      by decide +kernel, List.all_eq_true.mp (by decide +kernel)⟩ (by decide) fileRound_import
      importDef_of_plain importDef_of_not_plain

/-- The name `as.b`. -/
def asName : DottedName :=
  ⟨⟨"as", ⟨'a', ['s'], rfl, by decide +kernel, List.all_eq_true.mp (by decide +kernel)⟩, by decide⟩,
    [⟨"b", ⟨'b', [], rfl, by decide +kernel, List.all_eq_true.mp rfl⟩, by decide⟩]⟩

/-- The tokens of `as.b;`. -/
def asTokens : List Token :=
  [⟨.keyword, "as", .start, false⟩, ⟨.punct, ".", .start, false⟩, ⟨.ident, "b", .start, false⟩,
    ⟨.punct, ";", .start, false⟩, ⟨.eof, "", .start, false⟩]

theorem dottedName_reads_iff_plain_as :
    asName.Plain ∧
    (Cursor.ofTokens asTokens).rest.map (·.token.face) =
      asName.faces ++ (.punct, ";") :: [(.eof, "")] ∧
    qualifiedName groovy.soft (Cursor.ofTokens asTokens) =
      .ok "as.b" ((Cursor.ofTokens asTokens).ahead 3) ∧
    Groovy.parse "package as.b" =
      .ok (groovy.unit [groovy.leaf .packageDef "as.b" .start]) ∧
    Groovy.parse "import as.b" = .ok (groovy.unit [groovy.leaf .importDef "as.b" .start]) := by
  have hplain : asName.Plain := by
    simp only [DottedName.Plain, asName, List.forall_mem_singleton]
    decide
  obtain ⟨hname, hpackage, himport⟩ := dottedName_reads_iff_plain asName
  refine ⟨hplain, by decide, ?_, (hpackage _).mpr ⟨hplain, rfl⟩, (himport _).mpr ⟨hplain, rfl⟩⟩
  exact (hname (Cursor.ofTokens asTokens) (.punct, ";") [(.eof, "")] (by decide) (by decide)).2.mpr
    hplain

/-- Behind a dot, a reserved word that may be a name is none. -/
theorem soft_segment_is_refused :
    (Groovy.parse "package in.a.b").toOption.isSome = true ∧
      (Groovy.parse "package a.in.b").toOption = none ∧
      (Groovy.parse "import a.in").toOption = none := by
  decide +kernel

end ApiDoc.Syntax.Groovy
