import ApiDoc.Proofs.Comment.Echo
import ApiDoc.Syntax.Java

/-!
# The Java grammar beside plain comments

Every construct of the Java grammar, read beside plain comments, is the same tree without doc
comments, up to the texts that are written out from tokens: `Tree.Echoes`, with `Rendered` for the
texts. There is a lemma for each parser of the grammar, in its order, and each follows the two runs
of that parser side by side.
-/

namespace ApiDoc.Syntax

variable {found found' : List (Tree JavaKind)}

/-! ## Trees -/

/-- The second tree is the first one without doc comments, and with texts that are related. -/
inductive Tree.Echoes {κ : Type} (R : String → String → Prop) : Tree κ → Tree κ → Prop
  | node {kind : κ} {text text' : String} {pos : Text.Position} {doc : Option String}
      {children children' : List (Tree κ)} (htext : R text text')
      (hchildren : List.Forall₂ (Tree.Echoes R) children children') :
      Tree.Echoes R ⟨kind, text, pos, doc, children⟩ ⟨kind, text', pos, none, children'⟩

/-- What stands in the parentheses of a text. -/
def inParentheses (text : String) : String :=
  String.ofList (Text.trim (Grammar.parenthesized.inner text.toList))

/-- A text of a tree: one that does not depend on gaps, a run of slots that is written out, or what
stands in the parentheses of such a run. -/
inductive Rendered (slots : List Slot) : String → String → Prop
  | same (text : String) : Rendered slots text text
  | written {text text' : String} (h : Written slots text text') : Rendered slots text text'
  | inside {text text' : String} (h : Written slots text text') :
      Rendered slots (inParentheses text) (inParentheses text')

namespace Tree.Echoes

variable {κ : Type} {R : String → String → Prop} {t t' : Tree κ}

theorem pos_eq (h : t.Echoes R t') : t'.pos = t.pos := by
  cases h
  rfl

theorem children (h : t.Echoes R t') : List.Forall₂ (Tree.Echoes R) t.children t'.children := by
  cases h with
  | node _ hchildren => exact hchildren

theorem withChildren {cs cs' : List (Tree κ)} (h : t.Echoes R t')
    (hcs : List.Forall₂ (Tree.Echoes R) cs cs') :
    (t.withChildren cs).Echoes R (t'.withChildren cs') := by
  cases h with
  | node htext _ => exact .node htext hcs

end Tree.Echoes

namespace Grammar

open ApiDoc.Syntax.Parser

variable {slots : List Slot}

/-- Trees that are read beside each other. -/
abbrev ReadAlike (slots : List Slot) : Tree JavaKind → Tree JavaKind → Prop :=
  Tree.Echoes (Rendered slots)

/-- Lists of trees that are read beside each other. -/
abbrev AllReadAlike (slots : List Slot) : List (Tree JavaKind) → List (Tree JavaKind) → Prop :=
  List.Forall₂ (ReadAlike slots)

/-- A node whose text does not depend on gaps. -/
theorem readAlike_leaf (kind : JavaKind) (text : String) (pos : Text.Position) :
    ReadAlike slots (java.leaf kind text pos) (java.leaf kind text pos) :=
  .node (.same text) .nil

theorem readAlike_written {text text' : String} (h : Written slots text text') (kind : JavaKind)
    (pos : Text.Position) :
    ReadAlike slots (java.leaf kind text pos) (java.leaf kind text' pos) :=
  .node (.written h) .nil

theorem allReadAlike_concat {ts ts' : List (Tree JavaKind)} {t t' : Tree JavaKind}
    (hts : AllReadAlike slots ts ts') (ht : ReadAlike slots t t') :
    AllReadAlike slots (ts ++ [t]) (ts' ++ [t']) :=
  List.rel_append hts (.cons ht .nil)

theorem isEmpty_of_allReadAlike {ts ts' : List (Tree JavaKind)} (h : AllReadAlike slots ts ts') :
    ts'.isEmpty = ts.isEmpty := by
  cases h <;> rfl

/-- Rounds that find trees beside each other. -/
abbrev RoundsAlike (slots : List Slot) :
    Step (List (Tree JavaKind)) (List (Tree JavaKind)) →
      Step (List (Tree JavaKind)) (List (Tree JavaKind)) → Prop :=
  StepsAlike (AllReadAlike slots) (AllReadAlike slots)

theorem echoes_name : Echoes slots Eq java.name java.name :=
  .token (echoes_expectName _) fun _ _ => .pure rfl

theorem echoes_typeText : Echoes slots (Written slots) java.typeText java.typeText :=
  Parser.echoes_typeText _ _

theorem echoes_passLines : Echoes slots Eq java.passLines java.passLines := fun _ hc => .ok rfl hc

theorem echoes_passSeparators : Echoes slots Eq java.passSeparators java.passSeparators :=
  echoes_skipWhile fun _ _ => rfl

theorem echoes_endOfDeclaration :
    Echoes slots Eq java.endOfDeclaration java.endOfDeclaration :=
  .token (echoes_expectPunct ';') fun _ _ => .pure rfl

/-! ## Unread text -/

theorem echoes_skipExpression (atComma : Bool) :
    Echoes slots Eq (java.skipExpression atComma) (java.skipExpression atComma) :=
  echoes_skipUntil fun _ => rfl

theorem echoes_expression (atComma : Bool) :
    Echoes slots (ReadAlike slots) (java.expression atComma) (java.expression atComma) := by
  refine .get fun c _ => ?_
  refine .same (echoes_skipExpression atComma) fun _ => ?_
  refine .bind (echoes_textSince _) fun text text' htext => ?_
  exact .pure (readAlike_written htext _ _)

theorem echoes_parenthesized :
    Echoes slots (ReadAlike slots) java.parenthesized java.parenthesized := by
  refine .get fun c _ => ?_
  refine .same echoes_skipBalanced fun _ => ?_
  refine .bind (echoes_textSince _) fun text text' htext => ?_
  exact .pure (.node (.inside htext) .nil)

theorem echoes_block : Echoes slots (ReadAlike slots) java.block java.block := by
  refine .same echoes_pos fun p => ?_
  refine .same echoes_skipBalanced fun _ => ?_
  exact .pure (readAlike_leaf ..)

/-! ## Modifiers -/

theorem echoes_annotationMark :
    Echoes slots (ReadAlike slots) java.annotationMark java.annotationMark := by
  refine .token (echoes_expectPunct _) fun sign _ => ?_
  refine .same (echoes_qualifiedName _) fun name => ?_
  refine .same (echoes_atPunct _) fun _ => ?_
  apply Echoes.ite
  · refine .bind echoes_parenthesized fun t t' ht => ?_
    exact .pure ((readAlike_leaf ..).withChildren (.cons ht .nil))
  · exact .pure (readAlike_leaf ..)

theorem atModifier_plain (c : Cursor) : java.atModifier c.plain = java.atModifier c := by
  obtain ⟨spaced, hpeek⟩ := c.peek_plain 1
  rw [atModifier, hpeek]
  rfl

theorem echoes_modifiersRound (hfound : AllReadAlike slots found found') :
    Echoes slots (RoundsAlike slots) (java.modifiersRound found) (java.modifiersRound found') := by
  refine .get fun c _ => ?_
  obtain ⟨spaced, hpeek⟩ := c.peek_plain 1
  rw [hpeek, atModifier_plain]
  apply Echoes.ite
  · refine .bind echoes_annotationMark fun t t' ht => ?_
    refine .same echoes_passLines fun _ => ?_
    exact .pure (.next (allReadAlike_concat hfound ht))
  apply Echoes.ite
  · refine .token echoes_bump fun t _ => ?_
    refine .same echoes_passLines fun _ => ?_
    exact .pure (.next (allReadAlike_concat hfound (readAlike_leaf ..)))
  · exact .pure (.done hfound)

theorem echoes_modifiers : Echoes slots (ReadAlike slots) java.modifiers java.modifiers := by
  refine .same echoes_pos fun p => ?_
  refine .bind (.iterate (fun _ _ => echoes_modifiersRound) .nil) fun found found' hfound => ?_
  exact .pure ((readAlike_leaf ..).withChildren hfound)

/-! ## Types -/

theorem echoes_typeNode : Echoes slots (ReadAlike slots) java.typeNode java.typeNode := by
  refine .same echoes_pos fun p => ?_
  refine .bind echoes_typeText fun text text' htext => ?_
  exact .pure (readAlike_written htext _ _)

theorem echoes_typesRound {types types' : List (Tree JavaKind)}
    (htypes : AllReadAlike slots types types') :
    Echoes slots (RoundsAlike slots) (java.typesRound types) (java.typesRound types') := by
  refine .same echoes_passLines fun _ => ?_
  refine .bind echoes_typeNode fun type type' htype => ?_
  have hall := allReadAlike_concat htypes htype
  refine .get fun c _ => ?_
  apply Echoes.ite
  · refine .same echoes_passLines fun _ => ?_
    refine .token echoes_bump fun _ _ => ?_
    exact .pure (.next hall)
  · exact .pure (.done hall)

theorem echoes_typeList (kind : JavaKind) (keyword : String) :
    Echoes slots (ReadAlike slots) (java.typeList kind keyword) (java.typeList kind keyword) := by
  refine .token (echoes_expectKeyword _) fun word _ => ?_
  refine .bind (.iterate (fun _ _ => echoes_typesRound) .nil) fun types types' htypes => ?_
  exact .pure ((readAlike_leaf ..).withChildren htypes)

theorem echoes_bounds : Echoes slots Eq java.bounds java.bounds := by
  refine .iterate (S := Eq) (fun _ _ _ => ?_) rfl
  refine .bind echoes_typeText fun _ _ _ => ?_
  refine .same (echoes_eatPunct _) fun _ => ?_
  apply Echoes.ite
  · exact .pure (.next rfl)
  · exact .pure (.done rfl)

theorem echoes_typeParametersRound (hfound : AllReadAlike slots found found') :
    Echoes slots (RoundsAlike slots) (java.typeParametersRound found)
      (java.typeParametersRound found') := by
  refine .same echoes_passLines fun _ => ?_
  refine .get fun c _ => ?_
  refine .same echoes_name fun _ => ?_
  refine .same (echoes_eatKeyword _) fun _ => ?_
  refine .guarded echoes_bounds fun _ => ?_
  refine .bind (echoes_textSince _) fun text text' htext => ?_
  have hall := allReadAlike_concat hfound (readAlike_written htext .typeParameter c.pos)
  refine .same echoes_passLines fun _ => ?_
  refine .same (echoes_eatPunct _) fun _ => ?_
  apply Echoes.ite
  · exact .pure (.next hall)
  · refine .token (echoes_expectPunct _) fun _ _ => ?_
    exact .pure (.done hall)

theorem echoes_typeParameters :
    Echoes slots (ReadAlike slots) java.typeParameters java.typeParameters := by
  refine .token (echoes_expectPunct _) fun start _ => ?_
  refine .bind (.iterate (fun _ _ => echoes_typeParametersRound) .nil) fun found found' hfound => ?_
  exact .pure ((readAlike_leaf ..).withChildren hfound)

/-! ## Members -/

theorem echoes_nameDimensions :
    Echoes slots (AllReadAlike slots) java.nameDimensions java.nameDimensions := by
  refine .same echoes_pos fun p => ?_
  refine .same echoes_dimensions fun dims => .pure ?_
  split
  · exact .nil
  · exact .cons (readAlike_leaf ..) .nil

theorem echoes_parameter : Echoes slots (ReadAlike slots) java.parameter java.parameter := by
  refine .same echoes_pos fun p => ?_
  refine .bind echoes_modifiers fun modifiers modifiers' hmodifiers => ?_
  refine .bind echoes_typeNode fun type type' htype => ?_
  refine .same (echoes_eatIf fun _ _ => rfl) fun variadic => ?_
  refine .same echoes_name fun name => ?_
  refine .bind echoes_nameDimensions fun dims dims' hdims => ?_
  -- a default value is never there
  refine .bind (R := AllReadAlike slots) (.pure .nil) fun value value' hvalue => .pure ?_
  exact (readAlike_leaf ..).withChildren
    (List.rel_append (List.rel_append (.cons hmodifiers (.cons htype .nil)) hdims) hvalue)

theorem echoes_parametersRound (hfound : AllReadAlike slots found found') :
    Echoes slots (RoundsAlike slots) (java.parametersRound found)
      (java.parametersRound found') := by
  unfold parametersRound
  rw [isEmpty_of_allReadAlike hfound]
  refine .same echoes_passLines fun _ => ?_
  refine .same (echoes_eatIf fun _ _ => rfl) fun _ => ?_
  apply Echoes.ite
  · exact .pure (.done hfound)
  refine .bind echoes_parameter fun parameter parameter' hparameter => ?_
  have hall := allReadAlike_concat hfound hparameter
  refine .same echoes_passLines fun _ => ?_
  refine .same (echoes_eatPunct _) fun _ => ?_
  apply Echoes.ite
  · exact .pure (.next hall)
  · refine .token (echoes_expectPunct _) fun _ _ => ?_
    exact .pure (.done hall)

theorem echoes_parameters : Echoes slots (ReadAlike slots) java.parameters java.parameters := by
  refine .token (echoes_expectPunct _) fun start _ => ?_
  refine .bind (.iterate (fun _ _ => echoes_parametersRound) .nil) fun found found' hfound => ?_
  exact .pure ((readAlike_leaf ..).withChildren hfound)

/-- The kind of a method, and its children, read beside each other. -/
abbrev RestReadAlike (slots : List Slot) (rest rest' : JavaKind × List (Tree JavaKind)) : Prop :=
  rest'.1 = rest.1 ∧ AllReadAlike slots rest.2 rest'.2

theorem echoes_throwsClause :
    Echoes slots (AllReadAlike slots) java.throwsClause java.throwsClause := by
  refine .get fun c _ => ?_
  apply Echoes.ite
  · refine .same echoes_passLines fun _ => ?_
    refine .bind (echoes_typeList _ _) fun t t' ht => ?_
    exact .pure (.cons ht .nil)
  · exact .pure .nil

theorem echoes_passToMethodEnd : Echoes slots Eq java.passToMethodEnd java.passToMethodEnd := by
  refine .get fun c _ => ?_
  apply Echoes.ite
  · exact echoes_passLines
  · exact .pure rfl

theorem echoes_methodEnd (kind : JavaKind) (hfound : AllReadAlike slots found found') :
    Echoes slots (RestReadAlike slots) (java.methodEnd kind found)
      (java.methodEnd kind found') := by
  refine .same (echoes_eatKeyword _) fun _ => ?_
  apply Echoes.ite
  · refine .bind (echoes_expression _) fun value value' hvalue => ?_
    refine .same echoes_endOfDeclaration fun _ => ?_
    exact .pure ⟨rfl, allReadAlike_concat hfound hvalue⟩
  refine .same (echoes_atPunct _) fun _ => ?_
  apply Echoes.ite
  · refine .bind echoes_block fun block block' hblock => ?_
    exact .pure ⟨rfl, allReadAlike_concat hfound hblock⟩
  · refine .same echoes_endOfDeclaration fun _ => ?_
    exact .pure ⟨rfl, hfound⟩

theorem echoes_methodRest (kind : JavaKind) :
    Echoes slots (RestReadAlike slots) (java.methodRest kind) (java.methodRest kind) := by
  refine .bind echoes_parameters fun parameters parameters' hparameters => ?_
  refine .bind echoes_nameDimensions fun dims dims' hdims => ?_
  refine .bind echoes_throwsClause fun throws throws' hthrows => ?_
  refine .same echoes_passToMethodEnd fun _ => ?_
  exact echoes_methodEnd kind
    (List.rel_append (List.rel_append (.cons hparameters .nil) hdims) hthrows)

theorem echoes_method (kind : JavaKind) (name : String) (start : Cursor)
    {head head' : List (Tree JavaKind)} (hhead : AllReadAlike slots head head') :
    Echoes slots (ReadAlike slots) (java.method kind name start head)
      (java.method kind name start.plain head') := by
  refine .bind (echoes_methodRest kind) ?_
  rintro ⟨kind, rest⟩ ⟨_, rest'⟩ ⟨rfl, hrest⟩
  exact .pure (.node (.same name) (List.rel_append hhead hrest))

theorem echoes_initialValue :
    Echoes slots (AllReadAlike slots) java.initialValue java.initialValue := by
  refine .same (echoes_eatPunct _) fun _ => ?_
  apply Echoes.ite
  · refine .bind (echoes_expression _) fun value value' hvalue => ?_
    exact .pure (.cons hvalue .nil)
  · exact .pure .nil

theorem atConstructor_plain (className : Option String) (c : Cursor) :
    atConstructor className c.plain = atConstructor className c := by
  obtain ⟨spaced, hpeek⟩ := c.peek_plain 1
  cases className with
  | none => rfl
  | some name =>
    rw [atConstructor, hpeek]
    rfl

section

variable {modifiers modifiers' type type' : Tree JavaKind}
  (hmodifiers : ReadAlike slots modifiers modifiers')
include hmodifiers

/-- Fields found beside each other; the name and position of the next one are the same. -/
theorem echoes_fieldsRound (start : Cursor) (htype : ReadAlike slots type type')
    {s s' : List (Tree JavaKind) × String × Text.Position}
    (hs : AllReadAlike slots s.1 s'.1 ∧ s'.2 = s.2) :
    Echoes slots (StepsAlike (fun s s' => AllReadAlike slots s.1 s'.1 ∧ s'.2 = s.2)
      (AllReadAlike slots)) (java.fieldsRound start modifiers type s)
      (java.fieldsRound start.plain modifiers' type' s') := by
  obtain ⟨found, name, p⟩ := s
  obtain ⟨found', _⟩ := s'
  obtain ⟨hfound, rfl⟩ := hs
  refine .bind echoes_nameDimensions fun dims dims' hdims => ?_
  refine .bind echoes_initialValue fun value value' hvalue => ?_
  have hchildren :=
    List.rel_append (List.rel_append (.cons hmodifiers (.cons htype .nil)) hdims) hvalue
  refine .same (echoes_eatPunct _) fun _ => ?_
  apply Echoes.ite
  · refine .same echoes_passLines fun _ => ?_
    refine .same echoes_pos fun _ => ?_
    refine .same echoes_name fun _ => ?_
    exact .pure (.next ⟨allReadAlike_concat hfound (.node (.same name) hchildren), rfl⟩)
  · exact .pure (.done (allReadAlike_concat hfound (.node (.same name) hchildren)))

theorem echoes_fields (first : String) (start : Cursor) (htype : ReadAlike slots type type') :
    Echoes slots (AllReadAlike slots) (java.fields first start modifiers type)
      (java.fields first start.plain modifiers' type') := by
  refine .bind (.iterate (fun _ _ => echoes_fieldsRound hmodifiers start htype) ⟨.nil, rfl⟩)
    fun found found' hfound => ?_
  refine .same echoes_endOfDeclaration fun _ => ?_
  exact .pure hfound

theorem echoes_methodOrFields (start : Cursor) (className : Option String) :
    Echoes slots (AllReadAlike slots) (java.methodOrFields start modifiers className)
      (java.methodOrFields start.plain modifiers' className) := by
  have hmethod : ∀ (kind : JavaKind) (name : String) {head head' : List (Tree JavaKind)},
      AllReadAlike slots head head' → Echoes slots (AllReadAlike slots)
        (do return [← java.method kind name start head])
        (do return [← java.method kind name start.plain head']) := by
    intro kind name head head' hhead
    refine .bind (echoes_method kind name start hhead) fun t t' ht => ?_
    exact .pure (.cons ht .nil)
  refine .same (echoes_atPunct _) fun _ => ?_
  refine .optional (Q := AllReadAlike slots) echoes_typeParameters (fun _ _ ht => .cons ht .nil)
    .nil fun parameters parameters' hparameters => ?_
  refine .get fun c _ => ?_
  rw [atConstructor_plain]
  apply Echoes.ite
  · refine .token echoes_bump fun t _ => ?_
    exact hmethod _ _ (.cons hmodifiers hparameters)
  refine .bind echoes_typeNode fun type type' htype => ?_
  -- behind the type Java has no quoted names, so both sides go on with a name
  have hhead := List.rel_append (.cons hmodifiers hparameters) (.cons htype .nil)
  refine .same (.get fun _ _ => .pure (a := none) rfl) fun quoted => ?_
  cases quoted with
  | some name => exact hmethod _ _ hhead
  | none =>
    refine .same echoes_name fun name => ?_
    refine .same (echoes_atPunct _) fun _ => ?_
    apply Echoes.ite
    · exact hmethod _ _ hhead
    · cases hparameters with
      | nil => exact echoes_fields hmodifiers _ _ htype
      | cons ht _ => exact .throw ⟨ht.pos_eq, rfl, rfl⟩

end

theorem echoes_initializer (kind : JavaKind) (p : Text.Position) :
    Echoes slots (ReadAlike slots) (java.initializer kind p) (java.initializer kind p) := by
  refine .bind echoes_block fun t t' ht => ?_
  exact .pure ((readAlike_leaf ..).withChildren (.cons ht .nil))

/-! ## Types -/

theorem atTypeDef_plain (c : Cursor) : java.atTypeDef c.plain = java.atTypeDef c := by
  obtain ⟨spaced, hpeek⟩ := c.peek_plain 1
  rw [atTypeDef, hpeek]
  rfl

theorem echoes_typeKeyword : Echoes slots Eq java.typeKeyword java.typeKeyword := by
  refine .same (echoes_eatPunct _) fun _ => ?_
  apply Echoes.ite
  · exact .token (echoes_expectKeyword _) fun _ _ => .pure rfl
  · exact .token echoes_bump fun _ _ => .pure rfl

theorem echoes_clause (kind : JavaKind) (keyword : String) :
    Echoes slots (AllReadAlike slots) (java.clause kind keyword) (java.clause kind keyword) := by
  refine .same (echoes_atKeyword _) fun _ => ?_
  apply Echoes.ite
  · refine .bind (echoes_typeList _ _) fun t t' ht => ?_
    refine .same echoes_passLines fun _ => ?_
    exact .pure (.cons ht .nil)
  · exact .pure .nil

theorem echoes_annotations :
    Echoes slots (AllReadAlike slots) java.annotations java.annotations := by
  refine .iterate (S := AllReadAlike slots) (fun found found' hfound => ?_) .nil
  refine .same (echoes_atPunct _) fun _ => ?_
  apply Echoes.ite
  · refine .bind echoes_annotationMark fun t t' ht => ?_
    refine .same echoes_passLines fun _ => ?_
    exact .pure (.next (allReadAlike_concat hfound ht))
  · exact .pure (.done hfound)

theorem echoes_endOfConstants : Echoes slots Eq java.endOfConstants java.endOfConstants := by
  refine .same (echoes_atPunct _) fun _ => ?_
  apply Echoes.ite
  · exact .pure rfl
  · exact .token (echoes_expectPunct _) fun _ _ => .pure rfl

section

variable {inside : BodyParser JavaKind}
  (h : ∀ className isEnum,
    Echoes slots (ReadAlike slots) (inside className isEnum) (inside className isEnum))
include h

theorem echoes_typeDef (start : Cursor) {modifiers modifiers' : Tree JavaKind}
    (hmodifiers : ReadAlike slots modifiers modifiers') :
    Echoes slots (ReadAlike slots) (java.typeDef inside start modifiers)
      (java.typeDef inside start.plain modifiers') := by
  unfold typeDef
  simp only [monadLift_eq]
  refine .same echoes_typeKeyword fun keyword => ?_
  refine .same echoes_name fun name => ?_
  refine .same (echoes_atPunct _) fun _ => ?_
  refine .optional (Q := AllReadAlike slots) echoes_typeParameters (fun _ _ ht => .cons ht .nil)
    .nil fun parameters parameters' hparameters => ?_
  refine .same echoes_passLines fun _ => ?_
  refine .bind (echoes_clause _ _) fun extended extended' hextended => ?_
  refine .bind (echoes_clause _ _) fun implemented implemented' himplemented => ?_
  refine .bind (h _ _) fun body body' hbody => .pure (.node (.same name) ?_)
  exact List.rel_append (List.rel_append (List.rel_append (.cons hmodifiers hparameters) hextended)
    himplemented) (.cons hbody .nil)

theorem echoes_enumConstant :
    Echoes slots (ReadAlike slots) (java.enumConstant inside) (java.enumConstant inside) := by
  unfold enumConstant
  simp only [monadLift_eq]
  refine .get fun start _ => ?_
  refine .bind echoes_annotations fun annotations annotations' hannotations => ?_
  refine .same echoes_name fun name => ?_
  refine .same (echoes_atPunct _) fun _ => ?_
  refine .optional (Q := AllReadAlike slots) echoes_parenthesized (fun _ _ ht => .cons ht .nil)
    .nil fun arguments arguments' harguments => ?_
  refine .same (echoes_atPunct _) fun _ => ?_
  refine .optional (Q := AllReadAlike slots) (h _ _) (fun _ _ ht => .cons ht .nil) .nil
    fun body body' hbody => .pure (.node (.same name) ?_)
  exact List.rel_append (List.rel_append hannotations harguments) hbody

theorem echoes_constantsRound (hfound : AllReadAlike slots found found') :
    Echoes slots (RoundsAlike slots) (java.constantsRound inside found)
      (java.constantsRound inside found') := by
  unfold constantsRound
  simp only [monadLift_eq]
  refine .same echoes_passLines fun _ => ?_
  refine .same (echoes_atPunct _) fun _ => ?_
  apply Echoes.ite
  · exact .pure (.done hfound)
  refine .same (echoes_eatPunct _) fun _ => ?_
  apply Echoes.ite
  · exact .pure (.done hfound)
  refine .bind (echoes_enumConstant h) fun constant constant' hconstant => ?_
  have hall := allReadAlike_concat hfound hconstant
  refine .same echoes_passLines fun _ => ?_
  refine .same (echoes_eatPunct _) fun _ => ?_
  apply Echoes.ite
  · exact .pure (.next hall)
  · refine .same echoes_endOfConstants fun _ => ?_
    exact .pure (.done hall)

theorem echoes_member (className : String) :
    Echoes slots (AllReadAlike slots) (java.member inside className)
      (java.member inside className) := by
  have hsingle : ∀ {p p' : Parser (Tree JavaKind)}, Echoes slots (ReadAlike slots) p p' →
      Echoes slots (AllReadAlike slots) (do return [← p]) (do return [← p']) := fun hp =>
    .bind hp fun _ _ ht => .pure (.cons ht .nil)
  unfold member
  simp only [monadLift_eq]
  refine .get fun start _ => ?_
  obtain ⟨spaced, hpeek⟩ := start.peek_plain 1
  have hnext : java.peek start.plain 1 = { java.peek start 1 with spaced } := hpeek
  -- What is peeked at may be spaced otherwise, and no choice below asks for that.
  rw [hnext]
  apply Echoes.ite
  · exact hsingle (echoes_initializer _ _)
  apply Echoes.ite
  · refine .token echoes_bump fun _ _ => ?_
    refine .same echoes_passLines fun _ => ?_
    exact hsingle (echoes_initializer _ _)
  refine .bind echoes_modifiers fun modifiers modifiers' hmodifiers => ?_
  refine .get fun c _ => ?_
  rw [atTypeDef_plain]
  apply Echoes.ite
  · exact hsingle (echoes_typeDef h start hmodifiers)
  · exact echoes_methodOrFields hmodifiers start _

theorem echoes_membersRound (className : String) (hfound : AllReadAlike slots found found') :
    Echoes slots (RoundsAlike slots) (java.membersRound inside className found)
      (java.membersRound inside className found') := by
  unfold membersRound
  simp only [monadLift_eq]
  refine .same echoes_passSeparators fun _ => ?_
  refine .same (echoes_eatPunct _) fun _ => ?_
  apply Echoes.ite
  · exact .pure (.done hfound)
  refine .token echoes_peek fun _ _ => ?_
  refine .guarded (echoes_unexpected _) fun _ => ?_
  refine .bind (echoes_member h className) fun more more' hmore => ?_
  exact .pure (.next (List.rel_append hfound hmore))

theorem echoes_members (className : String) (isEnum : Bool) :
    Echoes slots (ReadAlike slots) (java.members inside className isEnum)
      (java.members inside className isEnum) := by
  unfold members enumConstants
  simp only [monadLift_eq, iterate_eq]
  refine .token (echoes_expectPunct _) fun start _ => ?_
  refine .branch (.iterate (fun _ _ => echoes_constantsRound h) .nil) (.pure .nil)
    fun constants constants' hconstants => ?_
  refine .bind (.iterate (fun _ _ => echoes_membersRound h className) hconstants)
    fun found found' hfound => ?_
  exact .pure ((readAlike_leaf ..).withChildren hfound)

end

theorem echoes_body (levels : Nat) (className : String) (isEnum : Bool) :
    Echoes slots (ReadAlike slots) (java.body levels className isEnum)
      (java.body levels className isEnum) := by
  induction levels generalizing className isEnum with
  | zero => exact .same echoes_pos fun _ => .throw (.refl _)
  | succ levels ih => exact echoes_members ih className isEnum

/-! ## Files -/

theorem echoes_packageDef : Echoes slots (ReadAlike slots) java.packageDef java.packageDef := by
  refine .token (echoes_expectKeyword _) fun word _ => ?_
  refine .same (echoes_qualifiedName _) fun name => ?_
  refine .same echoes_endOfDeclaration fun _ => ?_
  exact .pure (readAlike_leaf ..)

theorem echoes_importRest (name : String) :
    Echoes slots Eq (java.importRest name) (java.importRest name) := by
  refine .same (echoes_eatPunct _) fun _ => ?_
  apply Echoes.ite
  · exact .token (echoes_expectPunct _) fun _ _ => .pure rfl
  · exact .pure rfl

theorem echoes_importDef : Echoes slots (ReadAlike slots) java.importDef java.importDef := by
  refine .token (echoes_expectKeyword _) fun word _ => ?_
  refine .same (echoes_eatKeyword _) fun isStatic => ?_
  refine .same (echoes_qualifiedName _) fun name => ?_
  refine .same (echoes_importRest _) fun path => ?_
  refine .same echoes_endOfDeclaration fun _ => ?_
  exact .pure (readAlike_leaf ..)

end Grammar

namespace Java

open ApiDoc.Syntax.Parser ApiDoc.Syntax.Grammar

variable {slots : List Slot}

theorem echoes_declaration : Echoes slots (ReadAlike slots) declaration declaration := by
  refine .get fun start _ => ?_
  refine .bind echoes_modifiers fun modifiers modifiers' hmodifiers => ?_
  refine .get fun c _ => ?_
  rw [isEmpty_of_allReadAlike hmodifiers.children, atTypeDef_plain]
  apply Echoes.ite
  · exact echoes_packageDef
  apply Echoes.ite
  · exact echoes_importDef
  apply Echoes.ite
  · exact echoes_typeDef (echoes_body maxNesting) start hmodifiers
  · exact echoes_unexpected _

theorem echoes_fileRound (hfound : AllReadAlike slots found found') :
    Echoes slots (RoundsAlike slots) (fileRound found) (fileRound found') := by
  refine .same echoes_passSeparators fun _ => ?_
  refine .token echoes_peek fun _ _ => ?_
  apply Echoes.ite
  · exact .pure (.done hfound)
  refine .bind echoes_declaration fun t t' ht => ?_
  exact .pure (.next (allReadAlike_concat hfound ht))

/-- A Java file beside plain comments is the same file without doc comments. -/
theorem echoes_file : Echoes slots (ReadAlike slots) file file := by
  refine .bind (.iterate (fun _ _ => echoes_fileRound) .nil) fun found found' hfound => ?_
  exact .pure ((readAlike_leaf ..).withChildren hfound)

end Java

end ApiDoc.Syntax
