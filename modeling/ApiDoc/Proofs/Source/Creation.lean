import ApiDoc.Proofs.Source.Balanced
import ApiDoc.Proofs.Source.Failure

/-!
# Fields that create their value

A class with one field, whose value is a new object: `class A { T x = new U(); }`. Types nest in
angle brackets and values do not, so a comma between type arguments ends the value. Such a class is
read, as one field, if brackets match in the type behind `new` and it has no comma outside them,
and it is not read at all otherwise: `FieldClass.parse_ok_iff_undivided`.
-/

namespace ApiDoc.Syntax.Source

open ApiDoc.Syntax.Parser (Step iterate)
open Grammar (java)
open Text (Position)

variable {e : Spot} {before ws : List Word}

/-! ## The words of types -/

/-- Characters that stand in no type. -/
def outsideTypes : List Char := [';', '=', '(', ')', '\x7b', '\x7d']

/-- The word may stand in a type. -/
def Word.InType (w : Word) : Prop := ∀ c ∈ outsideTypes, w.token.isPunct c = false

theorem Word.IsArgumentPart.inType {w : Word} (h : w.IsArgumentPart) : w.InType := by
  have hne : ∀ c ∈ outsideTypes, c.toString ∉ [",", ".", "?", "&", "[", "]", "@"] := by
    simp [outsideTypes]
  exact fun c hc => h.isPunct_eq_false (hne c hc)

theorem inType_punct (s : Spot) {c : Char} (hc : c ∉ outsideTypes) : (s.punct c).InType := by
  intro d hd
  rw [isPunct_punct, decide_eq_false]
  rintro rfl
  exact hc hd

theorem Angled.inType (h : Angled ws) : ∀ w ∈ ws, w.InType := by
  induction h with
  | nil => exact fun w hw => absurd hw List.not_mem_nil
  | word hw _ ih => exact List.forall_mem_cons.mpr ⟨hw.inType, ih⟩
  | group _ _ ihinside ihws =>
    refine List.forall_mem_cons.mpr ⟨inType_punct _ (by decide), ?_⟩
    refine List.forall_mem_append.mpr ⟨ihinside, ?_⟩
    exact List.forall_mem_cons.mpr ⟨inType_punct _ (by decide), ihws⟩

theorem Segment.inType (s : Segment) : ∀ w ∈ s.words, w.InType := by
  obtain ⟨name, arguments⟩ := s
  refine List.forall_mem_cons.mpr ⟨fun c _ => rfl, ?_⟩
  cases arguments with
  | none => exact fun w hw => absurd hw List.not_mem_nil
  | some a =>
    refine List.forall_mem_cons.mpr ⟨inType_punct _ (by decide), ?_⟩
    refine List.forall_mem_append.mpr ⟨a.angled.inType, ?_⟩
    exact List.forall_mem_singleton.mpr (inType_punct _ (by decide))

theorem TypeName.inType (n : TypeName) : ∀ w ∈ n.words, w.InType := by
  cases n with
  | primitive spot word hword => exact List.forall_mem_singleton.mpr fun c _ => rfl
  | named segments =>
    obtain ⟨s, more⟩ := segments
    refine List.forall_mem_append.mpr ⟨s.inType, fun w hw => ?_⟩
    obtain ⟨⟨dot, s⟩, -, hw⟩ := List.mem_flatMap.mp hw
    rcases List.mem_cons.mp hw with rfl | hw
    · exact inType_punct _ (by decide)
    · exact s.inType w hw

theorem TypeUse.inType (t : TypeUse) : ∀ w ∈ t.words, w.InType := by
  refine List.forall_mem_append.mpr ⟨t.name.inType, fun w hw => ?_⟩
  obtain ⟨d, -, hw⟩ := List.mem_flatMap.mp hw
  rcases List.mem_cons.mp hw with rfl | hw
  · exact inType_punct _ (by decide)
  · rw [List.mem_singleton.mp hw]
    exact inType_punct _ (by decide)

/-- Words of a type that start a balanced run are balanced, unless a square bracket closes behind
them: a type has no other brackets. -/
theorem balanced_of_append_inType {P : Word → Prop} {vs : List Word}
    (h : Balanced Word.token P (ws ++ vs)) (hws : ∀ w ∈ ws, w.InType)
    (hvs : ∀ w ∈ vs, w.token.isPunct ']' = false) : Balanced Word.token P ws := by
  generalize hall : ws ++ vs = all at h
  induction h generalizing ws with
  | nil =>
    rw [(List.append_eq_nil_iff.mp hall).1]
    exact .nil
  | @single P w us hopens hcloses heof hw _ ih =>
    cases ws with
    | nil => exact .nil
    | cons w' ws =>
      obtain ⟨rfl, rfl⟩ := List.cons.inj hall
      exact .single hopens hcloses heof hw (ih (List.forall_mem_cons.mp hws).2 rfl)
  | @group P b o c inside us ho hc hinside _ _ ih =>
    cases ws with
    | nil => exact .nil
    | cons w ws =>
      obtain ⟨rfl, hrest⟩ := List.cons.inj hall
      obtain ⟨hw, hmore⟩ := List.forall_mem_cons.mp hws
      have hsquare : b = .square := by
        cases b with
        | square => rfl
        | round => exact absurd ho (Bool.eq_false_iff.mp (hw '(' (by decide)))
        | curly => exact absurd ho (Bool.eq_false_iff.mp (hw '\x7b' (by decide)))
      subst hsquare
      -- what closes the bracket is no word of `vs`
      have hclosing : c ∉ vs := fun hmem => absurd hc (Bool.eq_false_iff.mp (hvs c hmem))
      rcases List.append_eq_append_iff.mp hrest with ⟨as, -, hvs'⟩ | ⟨as, hws', hus⟩
      · exact absurd (hvs' ▸ List.mem_append_right as List.mem_cons_self) hclosing
      · cases as with
        | nil =>
          rw [List.nil_append] at hus
          exact absurd (hus ▸ List.mem_cons_self) hclosing
        | cons a as =>
          obtain ⟨rfl, rfl⟩ := List.cons.inj hus
          rw [hws'] at hmore ⊢
          refine .group ho hc hinside (ih (fun w hw => hmore w ?_) rfl)
          exact List.mem_append_right _ (List.mem_cons_of_mem _ hw)

/-! ## Fields behind a comma -/

/-- Words in front of a parenthesis start with pairs of square brackets, up to where there is
none. -/
theorem exists_dimensions (ws : List Word) (paren : Spot) (tail : List Word) :
    ∃ (dims : List Dimension) (rest : List Word), ws = dims.flatMap Dimension.words ++ rest ∧
      ((first e (rest ++ paren.punct '(' :: tail)).isPunct '[' &&
        (first e (rest ++ paren.punct '(' :: tail).tail).isPunct ']') = false := by
  match ws with
  | [] => exact ⟨[], [], rfl, rfl⟩
  | [w] => exact ⟨[], [w], rfl, by simp⟩
  | w :: v :: ws =>
    cases hpair : w.token.isPunct '[' && v.token.isPunct ']' with
    | false => exact ⟨[], w :: v :: ws, rfl, hpair⟩
    | true =>
      obtain ⟨hw, hv⟩ := Bool.and_eq_true_iff.mp hpair
      obtain ⟨dims, rest, rfl, hrest⟩ := exists_dimensions ws paren tail
      refine ⟨⟨w.spot, v.spot⟩ :: dims, rest, ?_, hrest⟩
      rw [List.flatMap_cons, Dimension.words, ← Word.eq_punct hw, ← Word.eq_punct hv]
      rfl

/-- Where a declaration of fields stands between two rounds: the fields found, and the name and
position of the next one. -/
abbrev FieldState := List (Tree JavaKind) × String × Position

/-- Take what follows the name of a field: its dimensions and its value. -/
def fieldRest : Parser (List (Tree JavaKind) × List (Tree JavaKind)) := do
  let dims ← java.nameDimensions
  let value ← java.initialValue
  return (dims, value)

/-- The node of the field whose name is taken in a round. -/
def fieldNode (start : Cursor) (modifiers type : Tree JavaKind) (s : FieldState)
    (parts : List (Tree JavaKind) × List (Tree JavaKind)) : Tree JavaKind :=
  { kind := .variableDef, text := s.2.1, pos := s.2.2, doc := start.doc,
    children := [modifiers, type] ++ parts.1 ++ parts.2 }

/-- Take the fields of a declaration from one round on, and the semicolon behind them. -/
def fieldsFrom (start : Cursor) (modifiers type : Tree JavaKind) (s : FieldState) :
    Parser (List (Tree JavaKind)) := do
  let found ← iterate s (java.fieldsRound start modifiers type)
  java.endOfDeclaration
  return found

theorem fails_name (h : (first e ws).kind ≠ .ident) : Fails e java.name before ws := by
  refine .at_once (.expect ?_)
  simp [Token.isName, h, Grammar.soft, java, Language.softKeywords]

theorem fails_endOfDeclaration (h : (first e ws).isPunct ';' = false) :
    Fails e java.endOfDeclaration before ws :=
  .at_once (.expect h)

section

variable {start : Cursor} {modifiers type : Tree JavaKind}
  {parts : List (Tree JavaKind) × List (Tree JavaKind)} {vs rest : List Word} {comma : Spot}

theorem fieldsRound_eq (s : FieldState) :
    java.fieldsRound start modifiers type s = fieldRest >>= fun parts => do
      let found := s.1 ++ [fieldNode start modifiers type s parts]
      if ← Parser.eatPunct ',' then
        java.passLines
        let p ← Parser.pos
        return .next (found, ← java.name, p)
      else return .done found := by
  simp only [Grammar.fieldsRound, fieldRest, fieldNode, bind_assoc, pure_bind]
  rfl

/-- Behind a field stands neither a comma nor a semicolon. -/
theorem fails_fieldsFrom_done (hfield : Takes e fieldRest before vs rest parts)
    (hcomma : (first e rest).isPunct ',' = false) (hsemicolon : (first e rest).isPunct ';' = false)
    (s : FieldState) :
    Fails e (fieldsFrom start modifiers type s) before (vs ++ rest) := by
  have hround : Takes e (java.fieldsRound start modifiers type s) before vs rest
      (.done (s.1 ++ [fieldNode start modifiers type s parts])) := by
    rw [fieldsRound_eq]
    exact .last hfield (.eatIf_none hcomma .pure)
  exact .behind (.done hround) (.at_once (fails_endOfDeclaration hsemicolon))

/-- Behind a comma stands no name. -/
theorem fails_fieldsFrom_comma
    (hfield : Takes e fieldRest before vs (comma.punct ',' :: rest) parts)
    (hname : (first e rest).kind ≠ .ident) (s : FieldState) :
    Fails e (fieldsFrom start modifiers type s) before (vs ++ comma.punct ',' :: rest) := by
  refine .at_once (.round ?_)
  rw [fieldsRound_eq]
  refine .behind hfield (.eatIf (by simp) (.passLines (.pos ?_)))
  exact .at_once (fails_name hname)

/-- Behind a comma stands a name, from which on fields fail. -/
theorem fails_fieldsFrom_next {n : Name}
    (hfield : Takes e fieldRest before vs (comma.punct ',' :: n.word :: rest) parts)
    (hrest : ∀ s before, Fails e (fieldsFrom start modifiers type s) before rest)
    (s : FieldState) :
    Fails e (fieldsFrom start modifiers type s) before
      (vs ++ comma.punct ',' :: n.word :: rest) := by
  have hround : Takes e (java.fieldsRound start modifiers type s) before
      (vs ++ [comma.punct ',', n.word]) rest
      (.next (s.1 ++ [fieldNode start modifiers type s parts], n.text, n.spot.pos)) := by
    rw [fieldsRound_eq]
    refine .bind hfield (.eatIf (by simp) (.passLines (.pos ?_)))
    exact .last (takes_name n) .pure
  have hwords : vs ++ comma.punct ',' :: n.word :: rest =
      (vs ++ [comma.punct ',', n.word]) ++ rest := by simp
  rw [hwords]
  exact .next_bind (by simp) hround (hrest _ _)

end

section

variable {start : Cursor} {modifiers type : Tree JavaKind} {paren : Spot} {tail : List Word}

/-- Behind a field stand words of a type, up to a parenthesis. If they start with a comma and a
name, fields have to fail behind that name. -/
theorem fails_fieldsFrom_of {parts : List (Tree JavaKind) × List (Tree JavaKind)}
    {vs us : List Word} (hfield : Takes e fieldRest before vs (us ++ paren.punct '(' :: tail) parts)
    (hus : ∀ w ∈ us, w.InType)
    (hmore : ∀ more : List Word, more.length < us.length → (∀ w ∈ more, w.InType) →
      ∀ s before, Fails e (fieldsFrom start modifiers type s) before
        (more ++ paren.punct '(' :: tail))
    (s : FieldState) :
    Fails e (fieldsFrom start modifiers type s) before (vs ++ (us ++ paren.punct '(' :: tail)) := by
  -- What comes first decides: nothing, a word that is no comma, or a comma and what follows it.
  cases us with
  | nil => exact fails_fieldsFrom_done hfield rfl rfl s
  | cons u us =>
    obtain ⟨hu, hus⟩ := List.forall_mem_cons.mp hus
    cases hcomma : u.token.isPunct ',' with
    | false => exact fails_fieldsFrom_done hfield hcomma (hu ';' (by decide)) s
    | true =>
      rw [Word.eq_punct hcomma] at hfield ⊢
      cases us with
      | nil => exact fails_fieldsFrom_comma hfield (by intro h; cases h) s
      | cons n us =>
        by_cases hname : n.kind = .ident
        · obtain ⟨kind, text, spot, proper⟩ := n
          subst hname
          obtain ⟨-, hus⟩ := List.forall_mem_cons.mp hus
          exact fails_fieldsFrom_next (n := ⟨text, spot⟩) hfield (hmore us (by simp +arith) hus) s
        · exact fails_fieldsFrom_comma hfield hname s

/-- Fields fail in front of words of a type up to a parenthesis. -/
theorem fails_fieldsFrom (us : List Word) (hus : ∀ w ∈ us, w.InType)
    (s : FieldState) (before : List Word) :
    Fails e (fieldsFrom start modifiers type s) before (us ++ paren.punct '(' :: tail) := by
  obtain ⟨dims, rest, hwords, hrest⟩ := exists_dimensions (e := e) us paren tail
  have hrestType : ∀ w ∈ rest, w.InType := fun w hw =>
    hus w (hwords ▸ List.mem_append_right _ hw)
  have hlength : rest.length ≤ us.length := by simp [hwords]
  have hsign : (first e (rest ++ paren.punct '(' :: tail)).isPunct '=' = false := by
    cases rest with
    | nil => rfl
    | cons w rest => exact hrestType w List.mem_cons_self '=' (by decide)
  have hfield : Takes e fieldRest before (dims.flatMap Dimension.words)
      (rest ++ paren.punct '(' :: tail) (dimensionTrees dims, []) :=
    .last (takes_nameDimensions dims hrest) (.silent (.eatIf_none hsign .pure) .pure)
  rw [hwords, List.append_assoc]
  exact fails_fieldsFrom_of hfield hrestType (fun more hlt => fails_fieldsFrom more) s
termination_by us.length

end

/-! ## Creations -/

/-- A new object, created without arguments. -/
structure Creation where
  keyword : Spot
  type : TypeUse
  opening : Spot
  closing : Spot

namespace Creation

def words (c : Creation) : List Word :=
  c.keyword.keyword "new" :: (c.type.words ++ [c.opening.punct '(', c.closing.punct ')'])

/-- Brackets match in the type, and no comma stands outside them. Angle brackets do not count. -/
def Undivided (c : Creation) : Prop :=
  Balanced Word.token (fun w => w.token.isPunct ',' = false) c.type.words

/-- As a value, an undivided creation is one expression. -/
def Undivided.expression {c : Creation} (h : c.Undivided) : Expression where
  words := c.words
  balanced := by
    refine .single rfl rfl rfl ⟨rfl, rfl⟩ (.append (h.imp fun w hw hcomma => ⟨hcomma, ?_⟩) ?_)
    · exact c.type.inType w hw ';' (by decide)
    · exact @Balanced.group _ _ _ .round _ _ [] [] rfl rfl .nil .nil

/-- A creation that is not undivided is no part of an expression. -/
theorem not_balanced {c : Creation} (h : ¬c.Undivided) {P : Word → Prop} {as : List Word}
    (hP : ∀ w, P w → w.token.isPunct ',' = false) (has : ∀ w ∈ as, w.token.isPunct ']' = false) :
    ¬Balanced Word.token P (c.keyword.keyword "new" :: (c.type.words ++ as)) := by
  intro hbalanced
  generalize hwords : c.keyword.keyword "new" :: (c.type.words ++ as) = ws at hbalanced
  cases hbalanced with
  | nil => cases hwords
  | group ho =>
    obtain ⟨rfl, -⟩ := List.cons.inj hwords
    cases ho
  | single _ _ _ _ hrest =>
    obtain ⟨-, rfl⟩ := List.cons.inj hwords
    exact h ((balanced_of_append_inType hrest c.type.inType has).imp fun w _ => hP w)

end Creation

/-- A field that is set to a creation fails unless the creation is undivided. -/
theorem fails_creation {start : Cursor} {modifiers type : Tree JavaKind}
    {sign semicolon closing : Spot} (c : Creation) (h : ¬c.Undivided) (s : FieldState) :
    Fails e (fieldsFrom start modifiers type s) before
      (sign.punct '=' :: (c.words ++ [semicolon.punct ';', closing.punct '\x7d'])) := by
  have hdims : ∀ ws, Takes e java.nameDimensions before [] (sign.punct '=' :: ws) [] := fun ws =>
    takes_nameDimensions [] rfl
  -- either the value cannot be read, or it ends too early and the field with it
  cases hrun : java.expression true (cursor e (sign.punct '=' :: before)
      (c.words ++ [semicolon.punct ';', closing.punct '\x7d'])) with
  | error error d =>
    refine .at_once (.round (.silent (hdims _) (.at_once ?_)))
    exact .eatIf (by simp) (.at_once ⟨error, d, hrun⟩)
  | ok tree d =>
    obtain ⟨x, rest, hwords, rfl⟩ := exists_expression hrun
    rw [hwords] at hrun ⊢
    have hfield : Takes e fieldRest before (sign.punct '=' :: x.words) rest ([], [tree]) :=
      .silent (hdims _) (.last (.eatIf (by simp) (.last hrun .pure)) .pure)
    obtain ⟨vs, hbalanced⟩ := x
    cases vs with
    | nil =>
      have hfirst : first e rest = (c.keyword.keyword "new").token := by
        rw [← List.nil_append rest, ← hwords]
        rfl
      exact fails_fieldsFrom_done hfield (hfirst ▸ rfl) (hfirst ▸ rfl) s
    | cons w vs =>
      rw [Creation.words, List.cons_append, List.append_assoc] at hwords
      obtain ⟨rfl, hmore⟩ := List.cons.inj hwords
      -- the value would end behind the type, where it is not balanced, or inside the type
      rcases List.append_eq_append_iff.mp hmore with ⟨as, rfl, htail⟩ | ⟨us, htype, rfl⟩
      · refine absurd hbalanced (c.not_balanced h (fun w hw => hw.1) fun w hw => ?_)
        have hmem := htail ▸ List.mem_append_left rest hw
        simp only [List.cons_append, List.nil_append, List.mem_cons, List.not_mem_nil,
          or_false] at hmem
        rcases hmem with rfl | rfl | rfl | rfl <;> simp
      · have hus : ∀ w ∈ us, w.InType := fun w hw =>
          c.type.inType w (htype ▸ List.mem_append_right _ hw)
        exact fails_fieldsFrom_of hfield hus (fun more _ => fails_fieldsFrom more) s

/-! ## Classes with one field -/

/-- A class with one field, which is set to a new object. -/
structure FieldClass where
  keyword : Spot
  name : Name
  opening : Spot
  type : TypeUse
  field : Name
  sign : Spot
  value : Creation
  semicolon : Spot
  closing : Spot
  ending : Spot

namespace FieldClass

variable (c : FieldClass)

def head : TypeHead := ⟨[], .class c.keyword, c.name, none, none, none⟩

def words : List Word :=
  c.head.words ++ c.opening.punct '\x7b' :: (c.type.words ++ c.field.word ::
    c.sign.punct '=' :: (c.value.words ++ [c.semicolon.punct ';', c.closing.punct '\x7d']))

def tokens : List Token := tokensOf c.words c.ending

/-- The node of the field: its type, and its value as written. -/
def fieldTree : Tree JavaKind :=
  declared .variableDef c.field.text c.type.spot
    [modifierTree c.type.spot [], node .type (joined c.type.words) c.type.spot [],
      node .expr (joined c.value.words) c.value.keyword []]

/-- A file with one class, which has one field. -/
def tree : Tree JavaKind :=
  { kind := .compilationUnit, text := "", pos := .start,
    children := [declared .classDef c.name.text c.keyword
      [modifierTree c.keyword [], node .objBlock "" c.opening [c.fieldTree]]] }

variable {c}

/-- The class as a file, if the value is one expression. -/
def file (h : c.value.Undivided) : File where
  declarations := [.type (.type c.head rfl c.opening
    (.plain (.fields [] c.type ⟨⟨c.field, [], some (c.sign, h.expression)⟩, []⟩ c.semicolon) .nil)
    c.closing)]
  ending := c.ending

theorem words_file (h : c.value.Undivided) : (file h).words = c.words := by
  simp [file, File.words, TopLevel.words, TypeDecl.words, TypeDecl.head, TypeDecl.body,
    Members.words, PlainMember.words, Separated.words, Declarator.words, Declarator.rest, words,
    modifierWordsOf, Creation.Undivided.expression]

theorem tree_file (h : c.value.Undivided) : (file h).tree = c.tree := rfl

theorem takes_file (h : c.value.Undivided) : Takes c.ending Java.file [] c.words [] c.tree := by
  have hnests : ∀ d ∈ (file h).declarations, d.depth ≤ maxNesting := by
    simp [file, TopLevel.depth, TypeDecl.depth, Members.depth, maxNesting]
  rw [← words_file h, ← tree_file h]
  exact .last (takes_declarations (file h).declarations hnests []) .pure

theorem fails_file (h : ¬c.value.Undivided) : Fails c.ending Java.file [] c.words := by
  refine Source.fails_file c.head rfl c.opening fun before => ?_
  refine fails_members (startsRound_type c.type) ?_
  refine fails_member [] (startsMember_type c.type) fun before start modifiers => ?_
  refine fails_fieldDef c.type c.field rfl fun before => ?_
  exact fails_creation c.value h ([], c.field.text, start.pos)

variable {source : String}

theorem parse_eq (h : Language.java.lexicon.tokenize source = .ok c.tokens) :
    Java.parse source = Java.file.read (cursor c.ending [] c.words) := by
  show (Language.java.lexicon.tokenize source >>= fun tokens =>
    Java.file.read (Cursor.ofTokens tokens)) = _
  rw [h, ← ofTokens_tokensOf]
  rfl

/-- **A field that is set to a new object is read, as the only one of its class, exactly if the
creation is undivided.** Otherwise, the class is not read at all. -/
theorem parse_ok_iff_undivided (c : FieldClass)
    (h : Language.java.lexicon.tokenize source = .ok c.tokens) :
    (Java.parse source = .ok c.tree ↔ c.value.Undivided) ∧
      ((∃ error, Java.parse source = .error error) ↔ ¬c.value.Undivided) := by
  rw [parse_eq h, Parser.read]
  by_cases hvalue : c.value.Undivided
  · have hrun := takes_file hvalue
    rw [Takes, List.append_nil] at hrun
    simp [hrun, hvalue]
  · obtain ⟨error, d, hrun⟩ := fails_file hvalue
    simp [hrun, hvalue]

/-- A class whose field has a type of two segments, with an array of lists as argument. -/
def boxSource : String := "class A \x7b b.Box<C<D>[]> x = new b.Box<C<D>[]>(); \x7d"

/-- The class that `boxSource` spells, on one line. -/
def boxClass : FieldClass :=
  let apart (column : Nat) : Spot := ⟨[], ⟨1, column⟩, true⟩
  let tight (column : Nat) : Spot := ⟨[], ⟨1, column⟩, false⟩
  let arguments (column : Nat) : Arguments :=
    { opening := tight column
      inside := [(tight (column + 1)).ident "C", (tight (column + 2)).punct '<',
        (tight (column + 3)).ident "D", (tight (column + 4)).punct '>',
        (tight (column + 5)).punct '[', (tight (column + 6)).punct ']']
      closing := tight (column + 7)
      angled := .word (.inl rfl) (.group (.word (.inl rfl) .nil)
        (.word (.inr (.inr ⟨rfl, by simp [Spot.punct]⟩))
          (.word (.inr (.inr ⟨rfl, by simp [Spot.punct]⟩)) .nil))) }
  let type (column : Nat) : TypeUse :=
    ⟨.named ⟨⟨⟨"b", apart column⟩, none⟩, [(tight (column + 1), ⟨⟨"Box", tight (column + 2)⟩,
      some (arguments (column + 5))⟩)]⟩, []⟩
  { keyword := tight 1, name := ⟨"A", apart 7⟩, opening := apart 9, type := type 11,
    field := ⟨"x", apart 25⟩, sign := apart 27,
    value := ⟨apart 29, type 33, tight 46, tight 47⟩, semicolon := tight 48, closing := apart 50,
    ending := tight 51 }

theorem parse_ok_iff_undivided_box :
    Language.java.lexicon.tokenize boxSource = .ok boxClass.tokens ∧
      boxClass.value.Undivided ∧ Java.parse boxSource = .ok boxClass.tree := by
  have htokens : Language.java.lexicon.tokenize boxSource = .ok boxClass.tokens := by
    have hsome : (Language.java.lexicon.tokenize boxSource).toOption = some boxClass.tokens := by
      decide +kernel
    cases hread : Language.java.lexicon.tokenize boxSource with
    | error error => simp [hread, Except.toOption] at hsome
    | ok tokens => simpa [hread, Except.toOption] using hsome
  have hundivided : boxClass.value.Undivided := by
    -- eight words up to the square brackets, and one behind them
    unfold Creation.Undivided
    iterate 8 refine .single rfl rfl rfl rfl ?_
    exact @Balanced.group _ _ _ .square _ _ [] _ rfl rfl .nil (.single rfl rfl rfl rfl .nil)
  exact ⟨htokens, hundivided, (parse_ok_iff_undivided boxClass htokens).1.mpr hundivided⟩

/-- A type of two arguments is read, but not the class that sets a field to a new object of it. -/
theorem two_arguments_divide :
    (Java.parse "class A \x7b Map<K, V> x; \x7d").toOption.isSome = true ∧
      (Java.parse "class A \x7b Map<K, V> x = new Map<K, V>(); \x7d").toOption = none := by
  decide +kernel

end FieldClass

end ApiDoc.Syntax.Source
