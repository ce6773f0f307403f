import ApiDoc.Proofs.Source.Basic

/-!
# Taking members

Fields, methods, constructors and initializers are taken whole: each ends in a semicolon or a
closing brace, so nothing has to be known of what comes behind them. What has to be known is how
they start, which tells them from types and from each other (`StartsMember`).
-/

namespace ApiDoc.Syntax.Source

open ApiDoc.Syntax.Parser (Step iterate)
open Grammar (java)
open Text (Position)

variable {inside : Grammar.BodyParser JavaKind}

variable {e : Spot} {before rest : List Word}

theorem takes_endOfDeclaration (s : Spot) :
    Takes e java.endOfDeclaration before [s.punct ';'] rest () := by
  unfold Grammar.endOfDeclaration
  exact .expectPunct .pure

/-! ## Parameters -/

theorem takes_nameDimensions (dims : List Dimension)
    (hrest : ((first e rest).isPunct '[' && (first e rest.tail).isPunct ']') = false) :
    Takes e java.nameDimensions before (dims.flatMap Dimension.words) rest
      (dimensionTrees dims) := by
  unfold Grammar.nameDimensions
  refine .pos (.last (takes_dimensions dims hrest) ?_)
  cases dims with
  | nil => exact .pure
  | cons d dims =>
    have hempty : (String.join ((d :: dims).map fun _ => "[]")).isEmpty = false := by
      rw [List.map_cons, String.join_cons]
      simp
    rw [hempty]
    exact .pure

/-- A type ends a list of modifiers. -/
theorem endsModifiers_type (t : TypeUse) {ws : List Word} :
    EndsModifiers (first e (t.words ++ ws)) (first e (t.words ++ ws).tail) := by
  obtain ⟨name, dims⟩ := t
  cases name with
  | named segments => exact ⟨rfl, nofun, nofun⟩
  | primitive spot word hword =>
    have hdisjoint : ∀ word ∈ primitives, word ∉ Language.java.modifierWords := by decide
    exact endsModifiers_keyword spot (hdisjoint word hword)

theorem defaultValue_java : java.defaultValue = pure [] := rfl

theorem takes_parameter (p : Parameter) (hrest : (first e rest).isPunct '[' = false) :
    Takes e java.parameter before p.words rest p.tree := by
  obtain ⟨modifiers, type, ellipsis, name, dims⟩ := p
  -- A parameter begins at its first modifier, or at its type.
  have hspot : ∀ ws, firstSpot e (modifierWordsOf modifiers ++ (type.words ++ ws)) =
      Parameter.spot ⟨modifiers, type, ellipsis, name, dims⟩ := by
    intro ws
    rw [firstSpot_append, firstSpot_words, Parameter.spot]
  have hdims : ((first e rest).isPunct '[' && (first e rest.tail).isPunct ']') = false := by
    rw [hrest, Bool.false_and]
  unfold Grammar.parameter
  simp only [Parameter.words]
  refine .pos (.bind (takes_modifiers modifiers ?_) (.bind (takes_typeNode type ?_) ?_))
  · rw [List.append_assoc]
    exact endsModifiers_type type
  · cases ellipsis <;> rfl
  · simp only [List.append_assoc, hspot]
    cases ellipsis with
    | none =>
      show Takes e _ _ ([name.word] ++ dims.flatMap Dimension.words) _ _
      refine .eatIf_none rfl (.bind (takes_name name) (.last (takes_nameDimensions dims hdims) ?_))
      rw [defaultValue_java, pure_bind, List.append_nil]
      exact .pure
    | some s =>
      show Takes e _ _ (s.ellipsis :: ([name.word] ++ dims.flatMap Dimension.words)) _ _
      refine .eatIf rfl (.bind (takes_name name) (.last (takes_nameDimensions dims hdims) ?_))
      rw [defaultValue_java, pure_bind, List.append_nil]
      exact .pure

theorem isPunct_parameter (p : Parameter) {ws : List Word} :
    (first e (p.words ++ ws)).isPunct ')' = false := by
  obtain ⟨modifiers, ⟨name, dims⟩, ellipsis, n, dims'⟩ := p
  match modifiers with
  | [] => cases name <;> rfl
  | .word .. :: _ => rfl
  | .mark _ :: _ => rfl

theorem takes_parameters (p : Parameters) :
    Takes e java.parameters before p.words rest p.tree := by
  obtain ⟨opening, parameters, closing⟩ := p
  unfold Grammar.parameters
  refine .expectPunct (.last ?_ .pure)
  cases parameters with
  | none =>
    refine .done (.passLines (.eatIf ?_ .pure))
    simp
  | some ps =>
    refine .separated (fun found before rest p separator => ?_) (fun found before p => ?_) ps
    · refine .passLines (.eatIf_none ?_ (.bind (takes_parameter p (by simp)) ?_))
      · rw [List.append_assoc, isPunct_parameter, Bool.false_and]
      · exact .passLines (.eatIf (by simp) .pure)
    · refine .passLines (.eatIf_none ?_ (.bind (takes_parameter p (by simp)) ?_))
      · rw [List.append_assoc, isPunct_parameter, Bool.false_and]
      · exact .passLines (.eatIf_none (by simp) (.expectPunct .pure))

/-! ## Methods -/

/-- What ends a method ends the clause before it. -/
theorem endsType_methodEnd (ending : MethodEnd) {ws : List Word} :
    endsType (first e (ending.words ++ ws)) = true := by
  cases ending <;> rfl

theorem takes_throwsClause (throws : Option Clause) (hrest : endsType (first e rest) = true)
    (hcomma : (first e rest).isPunct ',' = false)
    (hword : (first e rest).isKeyword "throws" = false) :
    Takes e java.throwsClause before (throws.elim [] (Clause.words "throws")) rest
      (throws.toList.map (Clause.tree .throws)) := by
  unfold Grammar.throwsClause
  refine .get ?_
  rw [peek_java, peek_zero_cursor]
  cases throws with
  | none =>
    rw [Option.elim_none, List.nil_append, hword]
    exact .pure
  | some c => exact .passLines (.last (takes_typeList .throws "throws" c hrest hcomma) .pure)

theorem takes_passToMethodEnd : Takes e java.passToMethodEnd before [] rest () := by
  unfold Grammar.passToMethodEnd
  refine .get ?_
  dsimp only
  split <;> rfl

theorem takes_methodEnd (kind : JavaKind) (found : List (Tree JavaKind)) (ending : MethodEnd) :
    Takes e (java.methodEnd kind found) before ending.words rest
      (ending.kind kind, found ++ ending.trees) := by
  unfold Grammar.methodEnd
  cases ending with
  | body block => exact .eatIf_none rfl (.atPunct (.last (takes_block block) .pure))
  | value keyword x finish =>
    refine .eatIf rfl (.bind (takes_expression x (.inl rfl)) ?_)
    exact .last (takes_endOfDeclaration finish) .pure
  | semicolon spot =>
    rw [MethodEnd.trees, List.append_nil]
    exact .eatIf_none rfl (.atPunct (.last (takes_endOfDeclaration spot) .pure))

theorem takes_methodRest (kind : JavaKind) (r : MethodRest) :
    Takes e (java.methodRest kind) before r.words rest (r.ending.kind kind, r.trees) := by
  obtain ⟨parameters, dims, throws, ending⟩ := r
  unfold Grammar.methodRest
  refine .bind (takes_parameters parameters) (.bind (takes_nameDimensions dims ?_)
    (.bind (takes_throwsClause throws ?_ ?_ ?_) ?_))
  · cases throws with
    | none => cases ending <;> rfl
    | some c => rfl
  · exact endsType_methodEnd ending
  · cases ending <;> rfl
  · cases ending <;> rfl
  · exact .silent takes_passToMethodEnd (takes_methodEnd kind _ ending)

theorem takes_method (kind : JavaKind) (name : String) (start : Cursor)
    (head : List (Tree JavaKind)) (r : MethodRest) :
    Takes e (java.method kind name start head) before r.words rest
      { kind := r.ending.kind kind, text := name, pos := start.pos, doc := start.doc,
        children := head ++ r.trees } := by
  unfold Grammar.method
  exact .last (takes_methodRest kind r) .pure

/-! ## Fields -/

theorem takes_initialValue (value : Option (Spot × Expression))
    (hrest : (first e rest).isPunct ';' = true ∨ (first e rest).isPunct ',' = true) :
    Takes e java.initialValue before (value.elim [] fun v => v.1.punct '=' :: v.2.words) rest
      (value.toList.map fun v => v.2.tree (firstSpot e rest)) := by
  unfold Grammar.initialValue
  cases value with
  | none =>
    refine .eatIf_none ?_ .pure
    rcases hrest with h | h <;> exact Token.isPunct_ne h (by decide)
  | some v =>
    obtain ⟨sign, x⟩ := v
    exact .eatIf (by simp) (.last (takes_expression x (hrest.imp_right fun h => ⟨rfl, h⟩)) .pure)

section

variable {start : Cursor} {modifiers type : Tree JavaKind}

/-- What follows the name of a field is taken up to a comma or semicolon. -/
theorem takes_declarator {β : Type} {b : β} {vs : List Word}
    {k : List (Tree JavaKind) → List (Tree JavaKind) → Parser β} (d : Declarator)
    (hrest : (first e (vs ++ rest)).isPunct ';' = true ∨ (first e (vs ++ rest)).isPunct ',' = true)
    (hk : Takes e (k (dimensionTrees d.dims)
      (d.value.toList.map fun v => v.2.tree (firstSpot e (vs ++ rest)))) (d.rest.reverse ++ before)
        vs rest b) :
    Takes e (do
      let dims ← java.nameDimensions
      let value ← java.initialValue
      k dims value) before (d.rest ++ vs) rest b := by
  obtain ⟨name, dims, value⟩ := d
  rw [Declarator.rest, List.append_assoc]
  refine .bind (takes_nameDimensions dims ?_) (.bind (takes_initialValue value hrest) ?_)
  · cases value with
    | none =>
      show ((first e (vs ++ rest)).isPunct '[' && _) = false
      rcases hrest with h | h <;> rw [Token.isPunct_ne h (by decide), Bool.false_and]
    | some v => rfl
  · simpa [Declarator.rest] using hk

theorem takes_fieldsRound_next (d d' : Declarator) (comma : Spot) (found : List (Tree JavaKind))
    (p : Position) :
    Takes e (java.fieldsRound start modifiers type (found, d.name.text, p)) before
      (d.rest ++ [comma.punct ',', d'.name.word]) rest
      (.next (found ++ [d.tree start.doc modifiers type p comma], d'.name.text,
        d'.name.spot.pos)) := by
  unfold Grammar.fieldsRound
  refine takes_declarator d (.inr rfl) (.eatIf (by simp) (.passLines (.pos ?_)))
  exact .last (takes_name d'.name) .pure

/-- The fields of a declaration are taken up to the semicolon behind them. -/
theorem takes_fieldsRounds (d : Declarator) (more : List (Spot × Declarator)) (semicolon : Spot)
    {ws : List Word} (found : List (Tree JavaKind)) (p : Position) :
    Takes e (iterate (found, d.name.text, p) (java.fieldsRound start modifiers type)) before
      (d.rest ++ Separated.wordsOf Declarator.words ',' more) (semicolon.punct ';' :: ws)
      (found ++ Declarator.trees start.doc modifiers type semicolon p d more) := by
  induction more generalizing d found p before with
  | nil =>
    refine .done (takes_declarator d (.inl rfl) ?_)
    exact .eatIf_none rfl .pure
  | cons m more ih =>
    obtain ⟨comma, d'⟩ := m
    -- a round takes the name of the next field, so the words are cut behind it
    have hwords : d.rest ++ Separated.wordsOf Declarator.words ',' ((comma, d') :: more) =
        (d.rest ++ [comma.punct ',', d'.name.word]) ++
          (d'.rest ++ Separated.wordsOf Declarator.words ',' more) := by
      simp [Declarator.words]
    rw [hwords, Declarator.trees, List.append_cons found]
    exact .next (by simp) (takes_fieldsRound_next d d' comma found p) (ih d' _ _)

end

theorem takes_fields (start : Cursor) (modifiers type : Tree JavaKind) (d : Declarator)
    (more : List (Spot × Declarator)) (semicolon : Spot) :
    Takes e (java.fields d.name.text start modifiers type) before
      (d.rest ++ Separated.wordsOf Declarator.words ',' more ++ [semicolon.punct ';']) rest
      (Declarator.trees start.doc modifiers type semicolon start.pos d more) := by
  unfold Grammar.fields
  refine .bind (takes_fieldsRounds d more semicolon [] start.pos) ?_
  exact .last (takes_endOfDeclaration semicolon) .pure

/-! ## Any member -/

/-- A declaration with a type in front of its name is no constructor. -/
theorem not_atConstructor (t : TypeUse) (n : Name) {className : Option String} {ws : List Word} :
    Grammar.atConstructor className (cursor e before (t.words ++ n.word :: ws)) = false := by
  cases className with
  | none => rfl
  | some className =>
    -- a constructor has its parameters right behind its name
    have hsecond : (first e (t.words ++ n.word :: ws).tail).isPunct '(' = false := by
      obtain ⟨name | ⟨⟨name, arguments⟩, more⟩, dims⟩ := t
      · cases dims <;> rfl
      · cases arguments <;> cases more <;> cases dims <;> rfl
    rw [Grammar.atConstructor, peek_cursor, hsecond, Bool.and_false]

theorem takes_quotedName? : Takes e java.quotedName? before [] rest none := by
  unfold Grammar.quotedName?
  refine .get ?_
  exact .pure

section

variable {start : Cursor} {modifiers : Tree JavaKind} {className : Option String}

theorem isPunct_type (t : TypeUse) {ws : List Word} {c : Char} :
    (first e (t.words ++ ws)).isPunct c = false := by
  obtain ⟨name | ⟨segment, more⟩, dims⟩ := t <;> rfl

/-- Type parameters show at their first token. -/
theorem isPunct_typeParameters (parameters : Option TypeParameters) {ws : List Word}
    (hws : (first e ws).isPunct '<' = false) :
    (first e (parameters.elim [] TypeParameters.words ++ ws)).isPunct '<' = parameters.isSome :=
  first_elim (p := fun t => t.isPunct '<') (fun _ => rfl) hws

theorem takes_constructor (parameters : Option TypeParameters) (name : Spot)
    (className : String) (r : MethodRest) :
    Takes e (java.methodOrFields start modifiers (some className)) before
      (parameters.elim [] TypeParameters.words ++ name.ident className :: r.words) rest
      [{ kind := r.ending.kind .ctorDef, text := className, pos := start.pos, doc := start.doc,
         children := [modifiers] ++ parameters.toList.map TypeParameters.tree ++ r.trees }] := by
  unfold Grammar.methodOrFields
  refine .atPunct (.optional ?_ (fun p _ => takes_typeParameters p) (.get ?_))
  · rw [List.append_assoc]
    exact isPunct_typeParameters parameters rfl
  · have hctor : ∀ before, Grammar.atConstructor (some className)
        (cursor e before (name.ident className :: r.words ++ rest)) = true := by
      intro before
      have hparen : (first e (r.words ++ rest)).isPunct '(' = true := rfl
      simp [Grammar.atConstructor, Spot.ident, Word.token, hparen]
    rw [hctor]
    exact .bump (.last (takes_method .ctorDef className start _ r) .pure)

theorem takes_methodDef (parameters : Option TypeParameters) (type : TypeUse) (name : Name)
    (r : MethodRest) :
    Takes e (java.methodOrFields start modifiers className) before
      (parameters.elim [] TypeParameters.words ++ (type.words ++ name.word :: r.words)) rest
      [{ kind := r.ending.kind .methodDef, text := name.text, pos := start.pos, doc := start.doc,
         children := [modifiers] ++ parameters.toList.map TypeParameters.tree ++ [type.tree] ++
          r.trees }] := by
  unfold Grammar.methodOrFields
  refine .atPunct (.optional ?_ (fun p _ => takes_typeParameters p) (.get ?_))
  · rw [List.append_assoc, List.append_assoc]
    exact isPunct_typeParameters parameters (isPunct_type type)
  · rw [List.append_assoc, List.cons_append, not_atConstructor]
    refine .bind (takes_typeNode type rfl) (.silent takes_quotedName? (.bind (takes_name name) ?_))
    exact .atPunct (.last (takes_method .methodDef name.text start _ r) .pure)

theorem takes_fieldDef (type : TypeUse) (declarators : Separated Declarator) (semicolon : Spot) :
    Takes e (java.methodOrFields start modifiers className) before
      (type.words ++ (declarators.words Declarator.words ',' ++ [semicolon.punct ';'])) rest
      (Declarator.trees start.doc modifiers type.tree semicolon start.pos declarators.first
        declarators.more) := by
  obtain ⟨d, more⟩ := declarators
  have hwords : (Separated.mk d more).words Declarator.words ',' ++ [semicolon.punct ';'] =
      [d.name.word] ++ (d.rest ++ Separated.wordsOf Declarator.words ',' more ++
        [semicolon.punct ';']) := by
    simp [Separated.words, Declarator.words]
  rw [hwords]
  unfold Grammar.methodOrFields
  refine .atPunct ?_
  rw [List.append_assoc, isPunct_type]
  refine .silent .pure (.get ?_)
  -- no parenthesis stands behind the type, so the name is no constructor's
  have hconstructor : Grammar.atConstructor className (cursor e before (type.words ++
      ([d.name.word] ++ (d.rest ++ Separated.wordsOf Declarator.words ',' more ++
        [semicolon.punct ';'])) ++ rest)) = false := by
    rw [List.append_assoc]
    exact not_atConstructor type d.name
  rw [hconstructor]
  refine .bind (takes_typeNode type rfl) (.silent takes_quotedName? (.bind (takes_name d.name) ?_))
  have hparen : (first e (d.rest ++ Separated.wordsOf Declarator.words ',' more ++
      [semicolon.punct ';'] ++ rest)).isPunct '(' = false := by
    obtain ⟨name, dims, value⟩ := d
    cases dims <;> cases value <;> cases more <;> rfl
  refine .atPunct ?_
  rw [hparen]
  exact takes_fields start modifiers type.tree d more semicolon

end

theorem takes_initializer (kind : JavaKind) (s : Spot) (block : Group .curly) :
    Takes e (java.initializer kind s.pos) before block.words rest
      (node kind "" s [block.body]) := by
  unfold Grammar.initializer
  exact .last (takes_block block) .pure

theorem EndsModifiers.isKeyword_eq_false {t behind : Token} {word : String}
    (h : EndsModifiers t behind) (hword : word ∈ Language.java.modifierWords) :
    t.isKeyword word = false := by
  refine Bool.eq_false_iff.mpr fun hkeyword => ?_
  simp only [Token.isKeyword, Bool.and_eq_true, decide_eq_true_eq] at hkeyword
  exact h.word hkeyword.1 (hkeyword.2 ▸ hword)

/-- What comes behind the modifiers of a member starts a declaration. -/
structure StartsDeclaration (e : Spot) (ws : List Word) : Prop where
  modifiers : EndsModifiers (first e ws) (first e ws.tail)
  brace : (first e ws).isPunct '\x7b' = false

/-- With its modifiers, a declaration is no initializer. -/
theorem StartsDeclaration.no_initializer {ws : List Word} (h : StartsDeclaration e ws)
    (ms : List Modifier) :
    (first e (modifierWordsOf ms ++ ws)).isPunct '\x7b' = false ∧
      ((first e (modifierWordsOf ms ++ ws)).isKeyword "static" &&
        (first e (modifierWordsOf ms ++ ws).tail).isPunct '\x7b') = false := by
  -- `static` starts an initializer only in front of a brace, so two modifiers have to be seen
  match ms with
  | [] =>
    have hstatic : (first e ws).isKeyword "static" = false :=
      h.modifiers.isKeyword_eq_false (by decide)
    exact ⟨h.brace, by rw [modifierWordsOf, List.flatMap_nil, List.nil_append, hstatic]; rfl⟩
  | .mark a :: ms => exact ⟨rfl, rfl⟩
  | [.word spot word hword] =>
    have hsecond : (first e (modifierWordsOf [.word spot word hword] ++ ws).tail).isPunct '\x7b' =
        false := h.brace
    exact ⟨rfl, by rw [hsecond, Bool.and_false]⟩
  | .word spot word hword :: .word spot' word' hword' :: ms => exact ⟨rfl, Bool.and_false _⟩
  | .word spot word hword :: .mark a :: ms => exact ⟨rfl, Bool.and_false _⟩

/-- A member with modifiers is taken as its declaration behind them is. -/
theorem takes_member {className : String} {ms : List Modifier} {ws : List Word}
    {trees : List (Tree JavaKind)} (hws : StartsDeclaration e (ws ++ rest))
    (h : Takes e (if java.atTypeDef (cursor e ((modifierWordsOf ms).reverse ++ before) (ws ++ rest))
      then do return [← java.typeDef inside (cursor e before (modifierWordsOf ms ++ (ws ++ rest)))
      (modifierTree (firstSpot e (modifierWordsOf ms ++ (ws ++ rest))) ms)] else java.methodOrFields
      (cursor e before (modifierWordsOf ms ++ (ws ++ rest))) (modifierTree (firstSpot e
      (modifierWordsOf ms ++ (ws ++ rest))) ms) (some className)) ((modifierWordsOf ms).reverse ++
      before) ws rest trees) :
    Takes e (java.member inside className) before (modifierWordsOf ms ++ ws) rest trees := by
  obtain ⟨hbrace, hstatic⟩ := hws.no_initializer ms
  unfold Grammar.member
  simp only [Parser.monadLift_eq, Parser.cursor]
  refine .get ?_
  rw [List.append_assoc]
  simp only [token_cursor, hbrace, peek_java, peek_cursor, hstatic]
  exact .bind (takes_modifiers ms hws.modifiers) (.get h)

/-- What comes behind the modifiers starts a declaration, and that of no type. -/
structure StartsMember (e : Spot) (ws : List Word) : Prop extends StartsDeclaration e ws where
  typeDef : ∀ before, java.atTypeDef (cursor e before ws) = false

section

variable {ws : List Word}

theorem startsMember_type (t : TypeUse) : StartsMember e (t.words ++ ws) where
  modifiers := endsModifiers_type t
  brace := isPunct_type t
  typeDef before := by
    simp only [Grammar.atTypeDef, token_cursor, isPunct_type, Bool.false_and, Bool.or_false]
    obtain ⟨⟨spot, word, hword⟩ | ⟨segment, more⟩, dims⟩ := t
    · have hne : ∀ word ∈ primitives,
          word ≠ "class" ∧ word ≠ "interface" ∧ word ≠ "enum" := by decide
      simp [Language.typeWords, java, TypeUse.words, TypeName.words, hne word hword]
    · rfl

theorem startsMember_name (s : Spot) (name : String) : StartsMember e (s.ident name :: ws) where
  modifiers := ⟨rfl, nofun, nofun⟩
  brace := rfl
  typeDef _ := rfl

theorem startsMember_parameters (parameters : Option TypeParameters) (h : StartsMember e ws) :
    StartsMember e (parameters.elim [] TypeParameters.words ++ ws) := by
  cases parameters with
  | none => exact h
  | some p => exact ⟨⟨⟨rfl, nofun, nofun⟩, rfl⟩, fun _ => rfl⟩

end

theorem firstSpot_parameters (parameters : Option TypeParameters) {ws : List Word} :
    firstSpot e (parameters.elim [] TypeParameters.words ++ ws) =
      (parameters.map TypeParameters.opening).getD (firstSpot e ws) := by
  cases parameters <;> rfl

/-- A member that is no type is taken as a method or as fields, from where it starts. -/
theorem takes_member_of_startsMember {className : String} {ms : List Modifier} {ws : List Word}
    {trees : List (Tree JavaKind)} (start : Spot) (hws : StartsMember e (ws ++ rest))
    (hstart : firstSpot e (modifierWordsOf ms ++ (ws ++ rest)) = start)
    (h : ∀ c : Cursor, c.pos = start.pos → c.doc = start.doc → Takes e (java.methodOrFields c
      (modifierTree start ms) (some className)) ((modifierWordsOf ms).reverse ++ before) ws rest
      trees) :
    Takes e (java.member inside className) before (modifierWordsOf ms ++ ws) rest trees := by
  refine takes_member hws.toStartsDeclaration ?_
  rw [hws.typeDef, hstart]
  refine h _ ?_ ?_
  · rw [pos_cursor, hstart]
  · rw [doc_cursor, hstart]

theorem takes_plainMember (className : String) (m : PlainMember) :
    Takes e (java.member inside className) before (m.words className) rest
      (m.trees className) := by
  cases m with
  | initializer keyword block =>
    -- an initializer starts with its bracket; any other member with modifiers, a type or a name
    unfold Grammar.member
    simp only [Parser.monadLift_eq, Parser.cursor]
    refine .get ?_
    cases keyword with
    | none => exact .last (takes_initializer .instanceInit block.opening block) .pure
    | some s =>
      have hbrace : (first e (PlainMember.words className (.initializer (some s) block) ++
          rest).tail).isPunct '\x7b' = true := rfl
      rw [token_cursor, peek_java, peek_cursor, hbrace]
      exact .bump (.passLines (.last (takes_initializer .staticInit s block) .pure))
  | fields modifiers type declarators semicolon =>
    refine takes_member_of_startsMember
      (PlainMember.fields modifiers type declarators semicolon).spot ?_ ?_ fun c hpos hdoc => ?_
    · rw [List.append_assoc]
      exact startsMember_type type
    · rw [List.append_assoc, firstSpot_append, firstSpot_words]
      rfl
    · rw [PlainMember.trees, ← hpos, ← hdoc]
      exact takes_fieldDef type declarators semicolon
  | method modifiers parameters type name r =>
    refine takes_member_of_startsMember (PlainMember.method modifiers parameters type name r).spot
      ?_ ?_ fun c hpos hdoc => ?_
    · rw [List.append_assoc, List.append_assoc]
      exact startsMember_parameters parameters (startsMember_type type)
    · rw [List.append_assoc, List.append_assoc, firstSpot_append, firstSpot_parameters,
        firstSpot_words]
      rfl
    · rw [PlainMember.trees, declared, ← hpos, ← hdoc]
      exact takes_methodDef parameters type name r
  | constructor modifiers parameters name r =>
    refine takes_member_of_startsMember (PlainMember.constructor modifiers parameters name r).spot
      ?_ ?_ fun c hpos hdoc => ?_
    · rw [List.append_assoc]
      exact startsMember_parameters parameters (startsMember_name name className)
    · rw [List.append_assoc, firstSpot_append, firstSpot_parameters]
      rfl
    · rw [PlainMember.trees, declared, ← hpos, ← hdoc]
      exact takes_constructor parameters name className r

end ApiDoc.Syntax.Source
