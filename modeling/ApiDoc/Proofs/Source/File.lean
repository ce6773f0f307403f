import ApiDoc.Proofs.Source.TypeDef

/-!
# Reading files back

The words of a file are taken declaration by declaration, so a file is read back from the tokens
that spell it, whatever its layout: `file_reads_back`. The layout enters by the spots of the words
alone, which the positions in the tree are taken from.
-/

namespace ApiDoc.Syntax.Source

open ApiDoc.Syntax.Parser (Step iterate)
open Grammar (java)

variable {e : Spot} {before rest : List Word}

/-! ## Declarations -/

theorem takes_packageDef (keyword : Spot) (name : QualifiedName) (semicolon : Spot) :
    Takes e java.packageDef before
      (keyword.keyword "package" :: (name.words ++ [semicolon.punct ';'])) rest
      (node .packageDef name.text keyword []) := by
  unfold Grammar.packageDef
  exact .expectKeyword (.bind (takes_qualifiedName name rfl)
    (.last (takes_endOfDeclaration semicolon) .pure))

theorem takes_importRest (name : String) (star : Option (Spot × Spot)) (semicolon : Spot) :
    Takes e (java.importRest name) before
      (star.elim [] fun s => [s.1.punct '.', s.2.punct '*']) (semicolon.punct ';' :: rest)
      (if star.isSome then name ++ ".*" else name) := by
  unfold Grammar.importRest
  cases star with
  | none => exact .eatIf_none rfl .pure
  | some s => exact .eatIf rfl (.expectPunct .pure)

theorem takes_importDef (keyword : Spot) (static : Option Spot) (name : QualifiedName)
    (star : Option (Spot × Spot)) (semicolon : Spot) :
    Takes e java.importDef before (TopLevel.import keyword static name star semicolon).words rest
      (node (if static.isSome then .staticImport else .importDef)
        (if star.isSome then name.text ++ ".*" else name.text) keyword []) := by
  have hrest : Takes e (do
        let path ← java.importRest (← Parser.qualifiedName java.soft)
        java.endOfDeclaration
        return java.leaf (if static.isSome then .staticImport else .importDef) path keyword.pos)
      ((static.elim [] fun s => [s.keyword "static"]).reverse ++ keyword.keyword "import" :: before)
      (name.words ++ ((star.elim [] fun s => [s.1.punct '.', s.2.punct '*']) ++
        [semicolon.punct ';'])) rest
      (node (if static.isSome then .staticImport else .importDef)
        (if star.isSome then name.text ++ ".*" else name.text) keyword []) := by
    refine .bind (takes_qualifiedName name ?_) (.bind (takes_importRest name.text star semicolon)
      (.last (takes_endOfDeclaration semicolon) .pure))
    cases star <;> rfl
  unfold Grammar.importDef
  refine .expectKeyword ?_
  cases static with
  | none => exact .eatIf_none rfl hrest
  | some s => exact .eatIf rfl hrest

/-- A declaration is taken behind its modifiers. -/
theorem takes_declaration (ms : List Modifier) {ws : List Word} {tree : Tree JavaKind}
    (hws : EndsModifiers (first e (ws ++ rest)) (first e (ws ++ rest).tail))
    (h : Takes e (if (first e (ws ++ rest)).isKeyword "package" then java.packageDef
      else if (first e (ws ++ rest)).isKeyword "import" && ms.isEmpty then java.importDef
      else if java.atTypeDef (cursor e ((modifierWordsOf ms).reverse ++ before)
          (ws ++ rest)) then
        java.topTypeDef (cursor e before (modifierWordsOf ms ++ (ws ++ rest)))
          (modifierTree (firstSpot e (modifierWordsOf ms ++ (ws ++ rest))) ms)
      else Parser.unexpected "type declaration")
      ((modifierWordsOf ms).reverse ++ before) ws rest tree) :
    Takes e Java.declaration before (modifierWordsOf ms ++ ws) rest tree := by
  unfold Java.declaration
  have hempty : ∀ s, (modifierTree s ms).children.isEmpty = ms.isEmpty := fun s =>
    List.isEmpty_map
  refine .get (.bind (takes_modifiers ms hws) (.get ?_))
  rw [token_cursor, hempty, List.append_assoc]
  exact h

theorem takes_package (ms : List Modifier) (keyword : Spot) (name : QualifiedName)
    (semicolon : Spot) :
    Takes e Java.declaration before (TopLevel.package ms keyword name semicolon).words rest
      (node .packageDef name.text keyword []) :=
  takes_declaration ms (endsModifiers_keyword keyword (by decide))
    (takes_packageDef keyword name semicolon)

theorem takes_import (keyword : Spot) (static : Option Spot) (name : QualifiedName)
    (star : Option (Spot × Spot)) (semicolon : Spot) :
    Takes e Java.declaration before (TopLevel.import keyword static name star semicolon).words rest
      (node (if static.isSome then .staticImport else .importDef)
        (if star.isSome then name.text ++ ".*" else name.text) keyword []) :=
  takes_declaration [] (endsModifiers_keyword keyword (by decide))
    (takes_importDef keyword static name star semicolon)

theorem isKeyword_head (h : TypeHead) {ws : List Word} :
    (first e (h.rest ++ ws)).isKeyword "package" = false ∧
      (first e (h.rest ++ ws)).isKeyword "import" = false := by
  obtain ⟨_, keyword, _, _, _, _⟩ := h
  cases keyword <;> exact ⟨rfl, rfl⟩

theorem takes_type (t : TypeDecl) (ht : t.depth ≤ maxNesting) :
    Takes e Java.declaration before t.words rest t.tree := by
  rw [TypeDecl.words, TypeHead.words, List.append_assoc]
  refine takes_declaration t.head.modifiers ?_ ?_
  · rw [List.append_assoc]
    exact (startsDeclaration_head t.head).modifiers
  · rw [List.append_assoc, firstSpot_head, atTypeDef_head, (isKeyword_head t.head).1,
      (isKeyword_head t.head).2]
    exact takes_typeDecl t fun before => takes_body t ht

/-! ## Files -/

section

variable {found result : List (Tree JavaKind)} {ws vs : List Word} {tree : Tree JavaKind}

theorem takes_file_next (hfirst : ∀ behind, StartsRound (first e (ws ++ behind)))
    (h : Takes e Java.declaration before ws (vs ++ rest) tree)
    (hmore : Takes e (iterate (found ++ [tree]) Java.fileRound) (ws.reverse ++ before) vs rest
      result) :
    Takes e (iterate found Java.fileRound) before (ws ++ vs) rest result := by
  refine .next (StartsRound.ne_nil hfirst) ?_ hmore
  unfold Java.fileRound
  refine .passSeparators (hfirst _).semicolon (.peek ?_)
  rw [(hfirst _).eof]
  exact .last h .pure

theorem takes_file_done : Takes e (iterate found Java.fileRound) before [] [] found := by
  refine .done ?_
  unfold Java.fileRound
  exact .passSeparators rfl (.peek .pure)

/-- A semicolon among declarations is passed over. -/
theorem takes_file_semicolon (s : Spot)
    (h : Takes e (iterate found Java.fileRound) (s.punct ';' :: before) ws rest result) :
    Takes e (iterate found Java.fileRound) before (s.punct ';' :: ws) rest result := by
  refine .passed ?_ h
  rw [Java.fileRound, Grammar.passSeparators_bind, Grammar.passSeparators_bind,
    pastSeparators_semicolon]

end

/-- Declarations are taken behind those found before, up to the end of the source. -/
theorem takes_declarations (ds : List TopLevel) (hds : ∀ d ∈ ds, d.depth ≤ maxNesting)
    (found : List (Tree JavaKind)) :
    Takes e (iterate found Java.fileRound) before (ds.flatMap TopLevel.words) []
      (found ++ ds.flatMap TopLevel.trees) := by
  -- A round for each declaration; a semicolon on its own is passed over within the next one.
  induction ds generalizing found before with
  | nil =>
    rw [List.flatMap_nil, List.flatMap_nil, List.append_nil]
    exact takes_file_done
  | cons d ds ih =>
    obtain ⟨hd, hmore⟩ := List.forall_mem_cons.mp hds
    rw [List.flatMap_cons, List.flatMap_cons, ← List.append_assoc found]
    cases d with
    | package modifiers keyword name semicolon =>
      refine takes_file_next (fun behind => ?_) (takes_package modifiers keyword name semicolon)
        (ih hmore _)
      rw [TopLevel.words, List.append_assoc]
      exact startsRound_modifiers modifiers ⟨rfl, rfl, rfl⟩
    | «import» keyword static name star semicolon =>
      exact takes_file_next (fun behind => ⟨rfl, rfl, rfl⟩)
        (takes_import keyword static name star semicolon) (ih hmore _)
    | type t =>
      refine takes_file_next (fun behind => ?_) (takes_type t hd) (ih hmore _)
      rw [TopLevel.words, TypeDecl.words, List.append_assoc]
      exact startsRound_head t.head
    | semicolon spot =>
      rw [TopLevel.trees, List.append_nil]
      exact takes_file_semicolon spot (ih hmore found)

/-! ## Doc comments -/

theorem attachFrom_comments (comments : List Comment) (pending : Option String)
    (ts : List Token) :
    Slot.attachFrom pending (comments.map Comment.token ++ ts) =
      Slot.attachFrom ((comments.getLast?.map Comment.text).or pending) ts := by
  -- each comment takes the place of the one before it, so the last one is left
  induction comments generalizing pending with
  | nil => rfl
  | cons c comments ih =>
    have hlast : (((c :: comments).getLast?.map Comment.text).or pending) =
        (comments.getLast?.map Comment.text).or (some c.text) := by
      rw [List.getLast?_cons]
      cases comments.getLast? <;> rfl
    rw [hlast, ← ih]
    rfl

/-- A doc comment goes to the word behind it. -/
theorem attachFrom_word (w : Word) (ts : List Token) :
    Slot.attachFrom none (w.tokens ++ ts) = w.slot :: Slot.attachFrom none ts := by
  rw [Word.tokens, List.append_assoc, attachFrom_comments, Option.or_none]
  obtain ⟨kind, text, spot, proper⟩ := w
  cases kind <;> first | rfl | cases proper

/-- The tokens of words, up to the end `e` of their source. -/
def tokensOf (ws : List Word) (e : Spot) : List Token :=
  ws.flatMap Word.tokens ++ e.comments.map Comment.token ++ [e.ending]

theorem attach_tokensOf (ws : List Word) (e : Spot) :
    Slot.attach (tokensOf ws e) = ws.map Word.slot ++ [⟨e.ending, e.doc⟩] := by
  rw [Slot.attach, tokensOf, List.append_assoc]
  induction ws with
  | nil =>
    rw [List.flatMap_nil, List.nil_append, attachFrom_comments, Option.or_none]
    rfl
  | cons w ws ih => rw [List.flatMap_cons, List.append_assoc, attachFrom_word, ih, List.map_cons,
      List.cons_append]

theorem ofTokens_tokensOf (ws : List Word) (e : Spot) :
    Cursor.ofTokens (tokensOf ws e) = cursor e [] ws := by
  -- the last slot is the end of the source already
  have hterminated : Slot.terminated (Slot.attach (tokensOf ws e)) =
      Slot.attach (tokensOf ws e) := by
    rw [attach_tokensOf, Slot.terminated, List.getLast?_concat]
    rfl
  rw [Cursor.ofTokens, hterminated, attach_tokensOf]
  cases ws <;> rfl

theorem ofTokens_tokens (f : File) : Cursor.ofTokens f.tokens = cursor f.ending [] f.words :=
  ofTokens_tokensOf f.words f.ending

/-- A file whose bodies nest at most 64 deep is read back from the tokens that spell it. -/
theorem file_reads_back (f : File) (hf : f.NestsWithin 64) :
    Java.file.read (Cursor.ofTokens f.tokens) = .ok f.tree := by
  have htakes : Takes f.ending Java.file [] f.words [] f.tree :=
    .last (takes_declarations f.declarations hf []) .pure
  rw [Takes, List.append_nil, ← ofTokens_tokens] at htakes
  rw [Parser.read, htakes]

/-- An enum with a doc comment, a constant with a body, fields and a constructor. -/
def signEnum : String :=
  "package p.q; /** S. */ public enum Sign \x7b MINUS(1) \x7b @A int f()[] \x7b\x7d \x7d; " ++
    "static int a[] = \x7b\x7d, b; Sign(int... x) \x7b\x7d \x7d"

/-- The file that `signEnum` spells, on one line. -/
def signFile : File :=
  let apart (column : Nat) : Spot := ⟨[], ⟨1, column⟩, true⟩
  let tight (column : Nat) : Spot := ⟨[], ⟨1, column⟩, false⟩
  let int (spot : Spot) : TypeUse := ⟨.primitive spot "int" (by decide), []⟩
  let method : PlainMember :=
    .method [.mark ⟨apart 54, ⟨⟨"A", tight 55⟩, []⟩, none⟩] none (int (apart 57))
      ⟨"f", apart 61⟩ ⟨⟨tight 62, none, tight 63⟩, [⟨tight 64, tight 65⟩], none,
        .body ⟨apart 67, [], tight 68, .nil⟩⟩
  let constant : Constant :=
    .withBody ⟨[], ⟨"MINUS", apart 43⟩, some ⟨tight 48, [⟨.number, "1", tight 49, rfl⟩], tight 50,
      .single rfl rfl rfl trivial .nil⟩⟩ (apart 52) (.plain method .nil) (apart 70)
  let value : Expression :=
    ⟨[(apart 90).punct '\x7b', (tight 91).punct '\x7d'],
      @Balanced.group _ _ _ .curly _ _ [] [] rfl rfl .nil .nil⟩
  let fields : PlainMember :=
    .fields [.word (apart 73) "static" (by decide)] (int (apart 80))
      ⟨⟨⟨"a", apart 84⟩, [⟨tight 85, tight 86⟩], some (apart 88, value)⟩,
        [(tight 92, ⟨⟨"b", apart 94⟩, [], none⟩)]⟩ (tight 95)
  let constructor : PlainMember :=
    .constructor [] none (apart 97) ⟨⟨tight 101, some ⟨⟨[], int (tight 102), some (tight 105),
      ⟨"x", apart 109⟩, []⟩, []⟩, tight 110⟩, [], none, .body ⟨apart 112, [], tight 113, .nil⟩⟩
  { declarations := [
      .package [] (tight 1) ⟨⟨"p", apart 9⟩, [(tight 10, ⟨"q", tight 11⟩)]⟩ (tight 12),
      .type (.enumWithMembers
        ⟨[.word ⟨[⟨"/** S. */", ⟨1, 14⟩, true⟩], ⟨1, 24⟩, true⟩ "public" (by decide)],
          .enum (apart 31), ⟨"Sign", apart 36⟩, none, none, none⟩ rfl (apart 41) (.last constant)
        (tight 71) (.plain fields (.plain constructor .nil)) (apart 115))]
    ending := tight 116 }

theorem file_reads_back_signFile :
    (Language.java.lexicon.tokenize signEnum).toOption = some signFile.tokens ∧
      signFile.NestsWithin 64 ∧
      Java.file.read (Cursor.ofTokens signFile.tokens) = .ok signFile.tree := by
  have hnests : signFile.NestsWithin 64 := by decide
  exact ⟨by decide +kernel, hnests, file_reads_back signFile hnests⟩

end ApiDoc.Syntax.Source
