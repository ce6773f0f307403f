import ApiDoc.Proofs.Source.Member

/-!
# Taking types

Types, enum constants and their bodies are taken by induction over the nested declarations: a body
is taken if those inside it are, with one level of nesting less. The recursion is that of the data,
over members, enum constants and bodies at once (`takes_body`).
-/

namespace ApiDoc.Syntax.Source

open ApiDoc.Syntax.Parser (Step iterate)
open Grammar (java)

variable {e : Spot} {before rest : List Word}

/-! ## Heads -/

theorem takes_typeKeyword (k : TypeKeyword) :
    Takes e java.typeKeyword before k.words rest (k.kind, k.isEnum) := by
  unfold Grammar.typeKeyword
  cases k with
  | annotationType sign keyword => exact .eatIf rfl (.expectKeyword .pure)
  | _ => exact .eatIf_none rfl (.bump .pure)

/-- A clause is taken, if it is there, up to a token that ends a type, is no comma and does not
start such a clause itself. -/
theorem takes_clause (kind : JavaKind) (word : String) (c : Option Clause)
    (hrest : endsType (first e rest) = true) (hcomma : (first e rest).isPunct ',' = false)
    (hword : (first e rest).isKeyword word = false) :
    Takes e (java.clause kind word) before (c.elim [] (Clause.words word)) rest
      (c.toList.map (Clause.tree kind)) := by
  unfold Grammar.clause
  refine .atKeyword ?_
  cases c with
  | none =>
    rw [Option.elim_none, List.nil_append, hword]
    exact .pure
  | some c =>
    have hfirst : (first e (Clause.words word c ++ rest)).isKeyword word = true := by
      simp [Clause.words]
    rw [Option.elim_some, hfirst]
    exact .last (takes_typeList kind word c hrest hcomma) (.passLines .pure)

theorem takes_typeDef {inside : Grammar.BodyParser JavaKind} (start : Cursor)
    (modifiers : Tree JavaKind) (h : TypeHead) (opening : Spot) {ws : List Word}
    {body : Tree JavaKind}
    (hbody : ∀ before, Takes e (inside h.name.text h.keyword.isEnum) before
      (opening.punct '\x7b' :: ws) rest body) :
    Takes e (java.typeDef inside start modifiers) before
      (h.rest ++ opening.punct '\x7b' :: ws) rest
      { kind := h.keyword.kind, text := h.name.text, pos := start.pos, doc := start.doc,
        children := [modifiers] ++ h.parameters.toList.map TypeParameters.tree ++
          h.extended.toList.map (Clause.tree .extendsClause) ++
          h.implemented.toList.map (Clause.tree .implementsClause) ++ [body] } := by
  obtain ⟨ms, keyword, name, parameters, extended, implemented⟩ := h
  unfold Grammar.typeDef
  simp only [Parser.monadLift_eq]
  simp only [TypeHead.rest, List.append_assoc, List.cons_append]
  refine .bind (takes_typeKeyword keyword) ?_
  rw [← List.singleton_append]
  -- Each part may be left out: what comes first behind it shows that it ends there.
  refine .bind (takes_name name) (.atPunct (.optional ?_ (fun p _ => takes_typeParameters p)
    (.passLines (.bind (takes_clause .extendsClause "extends" extended ?_ ?_ ?_)
      (.bind (takes_clause .implementsClause "implements" implemented rfl rfl rfl)
        (.last (hbody _) .pure))))))
  · rw [List.append_assoc]
    refine isPunct_typeParameters parameters ?_
    cases extended <;> cases implemented <;> rfl
  · cases implemented <;> rfl
  · cases implemented <;> rfl
  · cases implemented <;> rfl

/-! ## Enum constants -/

theorem firstSpot_constant (h : ConstantHead) {ws : List Word} :
    firstSpot e (h.words ++ ws) = h.spot := by
  rw [ConstantHead.words, List.append_assoc, firstSpot_append]
  rfl

/-- An enum constant is taken with its body, if it has one: the words of the body, and its node. -/
theorem takes_enumConstant {inside : Grammar.BodyParser JavaKind} (h : ConstantHead)
    (body : Option (List Word × Tree JavaKind))
    (hbody : ∀ b before, body = some b → Takes e (inside "" false) before b.1 rest b.2)
    (hparen : (first e (body.elim [] Prod.fst ++ rest)).isPunct '(' = false)
    (hbrace : (first e (body.elim [] Prod.fst ++ rest)).isPunct '\x7b' = body.isSome) :
    Takes e (java.enumConstant inside) before (h.words ++ body.elim [] Prod.fst) rest
      (h.tree (body.toList.map Prod.snd)) := by
  have hstart : firstSpot e (h.words ++ body.elim [] Prod.fst ++ rest) = h.spot := by
    rw [List.append_assoc, firstSpot_constant]
  unfold Grammar.enumConstant
  simp only [Parser.monadLift_eq, Parser.cursor]
  refine .get ?_
  rw [pos_cursor, doc_cursor, hstart]
  obtain ⟨annotations, name, arguments⟩ := h
  rw [show ConstantHead.words ⟨annotations, name, arguments⟩ ++ body.elim [] Prod.fst =
    annotations.flatMap Annotation.words ++ ([name.word] ++ (arguments.elim [] Group.words ++
      body.elim [] Prod.fst)) by simp [ConstantHead.words]]
  refine .bind (takes_annotations annotations name) (.bind (takes_name name) (.atPunct
    (.optional ?_ (fun g _ => takes_parenthesized g) (.atPunct ?_))))
  · rw [List.append_assoc]
    exact first_elim (p := fun t => t.isPunct '(') (fun g => rfl) hparen
  · rw [hbrace, ← List.append_nil (body.elim [] Prod.fst)]
    exact .optional rfl (fun b hb => hbody b _ hb) .pure

section

variable {inside : Grammar.BodyParser JavaKind} {found : List (Tree JavaKind)}

theorem isPunct_constant (c : Constant) {ws : List Word} {p : Char} (hp : p ≠ '@') :
    (first e (c.words ++ ws)).isPunct p = false := by
  have hhead : ∀ (h : ConstantHead) (ws : List Word),
      (first e (h.words ++ ws)).isPunct p = false := by
    rintro ⟨annotations, name, arguments⟩ ws
    cases annotations with
    | nil => rfl
    | cons a annotations => simp [ConstantHead.words, Annotation.words, hp.symm]
  cases c with
  | plain head => exact hhead head ws
  | withBody head opening members closing =>
    rw [Constant.words, List.append_assoc]
    exact hhead head _

theorem takes_constantsRound_next (c : Constant) (comma : Spot)
    (hc : Takes e (java.enumConstant inside) before c.words (comma.punct ',' :: rest) c.tree) :
    Takes e (java.constantsRound inside found) before (c.words ++ [comma.punct ',']) rest
      (.next (found ++ [c.tree])) := by
  unfold Grammar.constantsRound
  simp only [Parser.monadLift_eq]
  refine .passLines (.atPunct ?_)
  rw [List.append_assoc, isPunct_constant c (by decide)]
  refine .eatIf_none ?_ (.bind hc (.passLines (.eatIf rfl .pure)))
  rw [List.append_assoc, isPunct_constant c (by decide)]

/-- Behind the constants of an enum stands a semicolon, or the end of the body. -/
theorem isPunct_endOfConstants {semicolon : Option Spot} {p : Char}
    (hrest : semicolon = none → (first e rest).isPunct '}' = true) (hsemicolon : p ≠ ';')
    (hbrace : p ≠ '}') :
    (first e ((semicolon.elim [] fun s => [s.punct ';']) ++ rest)).isPunct p = false := by
  cases semicolon with
  | none => exact Token.isPunct_ne (hrest rfl) hbrace.symm
  | some s => simp [hsemicolon.symm]

theorem takes_endOfConstants (semicolon : Option Spot)
    (hrest : semicolon = none → (first e rest).isPunct '}' = true) :
    Takes e java.endOfConstants before (semicolon.elim [] fun s => [s.punct ';']) rest () := by
  unfold Grammar.endOfConstants
  refine .atPunct ?_
  cases semicolon with
  | none =>
    rw [Option.elim_none, List.nil_append, hrest rfl]
    exact .pure
  | some s => exact .expectPunct .pure

/-- A round behind the last comma, with no constant in it. -/
theorem takes_constantsRound_nil (semicolon : Option Spot)
    (hrest : semicolon = none → (first e rest).isPunct '}' = true) :
    Takes e (java.constantsRound inside found) before
      (semicolon.elim [] fun s => [s.punct ';']) rest (.done found) := by
  unfold Grammar.constantsRound
  simp only [Parser.monadLift_eq]
  refine .passLines (.atPunct ?_)
  cases semicolon with
  | none =>
    rw [Option.elim_none, List.nil_append, hrest rfl]
    exact .pure
  | some s => exact .eatIf rfl .pure

theorem takes_constantsRound_last (c : Constant) (semicolon : Option Spot)
    (hrest : semicolon = none → (first e rest).isPunct '}' = true)
    (hc : Takes e (java.enumConstant inside) before c.words
      ((semicolon.elim [] fun s => [s.punct ';']) ++ rest) c.tree) :
    Takes e (java.constantsRound inside found) before
      (c.words ++ semicolon.elim [] fun s => [s.punct ';']) rest (.done (found ++ [c.tree])) := by
  unfold Grammar.constantsRound
  simp only [Parser.monadLift_eq]
  refine .passLines (.atPunct ?_)
  rw [List.append_assoc, isPunct_constant c (by decide)]
  refine .eatIf_none ?_ (.bind hc (.passLines (.eatIf_none ?_
    (.last (takes_endOfConstants semicolon hrest) .pure))))
  · rw [List.append_assoc, isPunct_constant c (by decide)]
  · exact isPunct_endOfConstants hrest (by decide) (by decide)

end

/-! ## Members -/

/-- A token that starts one more member of a body, or one more declaration of a file. -/
structure StartsRound (t : Token) : Prop where
  semicolon : t.isPunct ';' = false
  brace : t.isPunct '}' = false
  eof : t.isEof = false

section

variable {inside : Grammar.BodyParser JavaKind} {className : String}
  {found trees result : List (Tree JavaKind)} {ws vs : List Word}

theorem StartsRound.ne_nil (h : ∀ behind, StartsRound (first e (ws ++ behind))) : ws ≠ [] := by
  rintro rfl
  cases (h []).eof

theorem startsRound_modifiers (ms : List Modifier) (h : StartsRound (first e ws)) :
    StartsRound (first e (modifierWordsOf ms ++ ws)) := by
  match ms with
  | [] => exact h
  | .word _ _ _ :: _ => exact ⟨rfl, rfl, rfl⟩
  | .mark _ :: _ => exact ⟨rfl, rfl, rfl⟩

theorem startsRound_parameters (parameters : Option TypeParameters) (h : StartsRound (first e ws)) :
    StartsRound (first e (parameters.elim [] TypeParameters.words ++ ws)) := by
  cases parameters with
  | none => exact h
  | some p => exact ⟨rfl, rfl, rfl⟩

theorem startsRound_type (t : TypeUse) : StartsRound (first e (t.words ++ ws)) := by
  obtain ⟨name | ⟨segment, more⟩, dims⟩ := t <;> exact ⟨rfl, rfl, rfl⟩

theorem startsRound_plain (m : PlainMember) :
    StartsRound (first e (m.words className ++ ws)) := by
  cases m with
  | initializer keyword block => cases keyword <;> exact ⟨rfl, rfl, rfl⟩
  | fields modifiers type declarators semicolon =>
    rw [PlainMember.words, List.append_assoc, List.append_assoc]
    exact startsRound_modifiers modifiers (startsRound_type type)
  | method modifiers parameters type name r =>
    rw [PlainMember.words, List.append_assoc, List.append_assoc, List.append_assoc]
    exact startsRound_modifiers modifiers
      (startsRound_parameters parameters (startsRound_type type))
  | constructor modifiers parameters name r =>
    rw [PlainMember.words, List.append_assoc, List.append_assoc]
    exact startsRound_modifiers modifiers (startsRound_parameters parameters ⟨rfl, rfl, rfl⟩)

theorem startsRound_head (h : TypeHead) : StartsRound (first e (h.words ++ ws)) := by
  rw [TypeHead.words, List.append_assoc]
  refine startsRound_modifiers h.modifiers ?_
  obtain ⟨_, keyword, _, _, _, _⟩ := h
  cases keyword <;> exact ⟨rfl, rfl, rfl⟩

theorem takes_members_next (hfirst : ∀ behind, StartsRound (first e (ws ++ behind)))
    (h : Takes e (java.member inside className) before ws (vs ++ rest) trees)
    (hmore : Takes e (iterate (found ++ trees) (java.membersRound inside className))
      (ws.reverse ++ before) vs rest result) :
    Takes e (iterate found (java.membersRound inside className)) before (ws ++ vs) rest result := by
  refine .next (StartsRound.ne_nil hfirst) ?_ hmore
  unfold Grammar.membersRound
  simp only [Parser.monadLift_eq]
  refine .passSeparators (hfirst _).semicolon (.eatIf_none (hfirst _).brace (.peek ?_))
  rw [(hfirst _).eof]
  exact .last h .pure

theorem takes_members_done (closing : Spot) :
    Takes e (iterate found (java.membersRound inside className)) before [closing.punct '}'] rest
      found := by
  refine .done ?_
  unfold Grammar.membersRound
  simp only [Parser.monadLift_eq]
  exact .passSeparators rfl (.eatIf rfl .pure)

/-- A semicolon among members is passed over. -/
theorem takes_members_semicolon (s : Spot)
    (h : Takes e (iterate found (java.membersRound inside className)) (s.punct ';' :: before) ws
      rest trees) :
    Takes e (iterate found (java.membersRound inside className)) before (s.punct ';' :: ws) rest
      trees := by
  -- the round skips separators before it looks, so it starts as well behind the semicolon
  refine .passed ?_ h
  simp only [Grammar.membersRound, Parser.monadLift_eq, Grammar.passSeparators_bind,
    pastSeparators_semicolon]

end

/-! ## Nested declarations -/

theorem exists_body (t : TypeDecl) :
    ∃ (opening : Spot) (ws : List Word), t.body = opening.punct '\x7b' :: ws := by
  cases t <;> exact ⟨_, _, by rw [TypeDecl.body]⟩

theorem startsDeclaration_head (h : TypeHead) {ws : List Word} :
    StartsDeclaration e (h.rest ++ ws) := by
  obtain ⟨_, keyword, _, _, _, _⟩ := h
  cases keyword with
  | annotationType sign keyword => exact ⟨⟨rfl, fun _ => rfl, nofun⟩, rfl⟩
  | _ => exact ⟨endsModifiers_keyword _ (by decide), rfl⟩

theorem firstSpot_rest (h : TypeHead) {ws : List Word} :
    firstSpot e (h.rest ++ ws) = h.keyword.spot := by
  obtain ⟨_, keyword, _, _, _, _⟩ := h
  cases keyword <;> rfl

theorem atTypeDef_head (h : TypeHead) {ws : List Word} :
    java.atTypeDef (cursor e before (h.rest ++ ws)) = true := by
  obtain ⟨_, keyword, _, _, _, _⟩ := h
  cases keyword <;> rfl

theorem firstSpot_head (h : TypeHead) {ws : List Word} :
    firstSpot e (modifierWordsOf h.modifiers ++ (h.rest ++ ws)) = h.spot := by
  rw [firstSpot_append, firstSpot_rest, TypeHead.spot]

/-- A type is taken from its keyword on if its body is. -/
theorem takes_typeDecl {inside : Grammar.BodyParser JavaKind} (t : TypeDecl)
    (hbody : ∀ before,
      Takes e (inside t.head.name.text t.head.keyword.isEnum) before t.body rest t.block)
    {earlier ws : List Word} :
    Takes e (java.typeDef inside
        (cursor e earlier (modifierWordsOf t.head.modifiers ++ (t.head.rest ++ ws)))
        (modifierTree t.head.spot t.head.modifiers)) before
      (t.head.rest ++ t.body) rest t.tree := by
  obtain ⟨opening, vs, hvs⟩ := exists_body t
  rw [hvs] at hbody ⊢
  have h : Takes e _ before _ rest _ := takes_typeDef
    (cursor e earlier (modifierWordsOf t.head.modifiers ++ (t.head.rest ++ ws)))
    (modifierTree t.head.spot t.head.modifiers) t.head opening hbody
  rw [pos_cursor, doc_cursor, firstSpot_head] at h
  exact h

/-- A type that is a member is taken if its body is. -/
theorem takes_typeMember {inside : Grammar.BodyParser JavaKind} {className : String} (t : TypeDecl)
    (hbody : ∀ before,
      Takes e (inside t.head.name.text t.head.keyword.isEnum) before t.body rest t.block) :
    Takes e (java.member inside className) before (t.head.words ++ t.body) rest [t.tree] := by
  rw [TypeHead.words, List.append_assoc]
  refine takes_member ?_ ?_
  · rw [List.append_assoc]
    exact startsDeclaration_head t.head
  · rw [List.append_assoc, firstSpot_head, atTypeDef_head]
    exact .last (takes_typeDecl t hbody) .pure

section

variable {inside : Grammar.BodyParser JavaKind} {className : String} {opening : Spot}
  {ws vs : List Word} {constants trees : List (Tree JavaKind)}

/-- A body without enum constants is taken if its members are. -/
theorem takes_memberBody
    (hmembers : ∀ before,
      Takes e (iterate [] (java.membersRound inside className)) before ws rest trees) :
    Takes e (java.members inside className false) before (opening.punct '\x7b' :: ws) rest
      (node .objBlock "" opening trees) := by
  unfold Grammar.members
  simp only [Parser.monadLift_eq, Parser.iterate_eq]
  exact .expectPunct (.silent .pure (.last (hmembers _) .pure))

/-- The body of an enum is taken if its constants and its members are. -/
theorem takes_enumBody
    (hconstants : ∀ before,
      Takes e (iterate [] (java.constantsRound inside)) before ws (vs ++ rest) constants)
    (hmembers : ∀ before,
      Takes e (iterate constants (java.membersRound inside className)) before vs rest trees) :
    Takes e (java.members inside className true) before (opening.punct '\x7b' :: (ws ++ vs)) rest
      (node .objBlock "" opening trees) := by
  unfold Grammar.members
  simp only [Parser.monadLift_eq, Parser.iterate_eq]
  exact .expectPunct (.bind (hconstants _) (.last (hmembers _) .pure))

end

mutual

/-- The body of a type is taken if there are as many levels as bodies nest in it. -/
theorem takes_body (t : TypeDecl) {levels : Nat} (hlevels : t.depth ≤ levels)
    {before rest : List Word} :
    Takes e (java.body levels t.head.name.text t.head.keyword.isEnum) before t.body rest
      t.block := by
  cases levels with
  -- the body of a type is a level of its own
  | zero => cases t <;> simp [TypeDecl.depth] at hlevels
  | succ levels =>
    cases t with
    | type head hhead opening members closing =>
      rw [TypeDecl.depth, Nat.add_le_add_iff_right] at hlevels
      rw [TypeDecl.head, hhead, TypeDecl.body, TypeDecl.block]
      exact takes_memberBody fun before => takes_members members hlevels _ closing []
    | enum head hhead opening constants closing =>
      rw [TypeDecl.depth, Nat.add_le_add_iff_right] at hlevels
      rw [TypeDecl.head, hhead, TypeDecl.body, TypeDecl.block]
      -- the constants end in front of the closing brace, which ends the members
      refine takes_enumBody (fun before => ?_) fun before => takes_members_done closing
      simpa using takes_constants constants hlevels none [] fun _ => rfl
    | enumWithMembers head hhead opening constants semicolon members closing =>
      rw [TypeDecl.depth, Nat.add_le_add_iff_right, Nat.max_le] at hlevels
      rw [TypeDecl.head, hhead, TypeDecl.body, TypeDecl.block, List.append_cons]
      exact takes_enumBody
        (fun before => takes_constants constants hlevels.1 (some semicolon) [] nofun)
        fun before => takes_members members hlevels.2 _ closing _

/-- Members are taken behind those found before, up to the end of the body. -/
theorem takes_members (ms : Members) {levels : Nat} (hlevels : ms.depth ≤ levels)
    (className : String) (closing : Spot) (found : List (Tree JavaKind))
    {before rest : List Word} :
    Takes e (iterate found (java.membersRound (java.body levels) className)) before
      (ms.words className ++ [closing.punct '}']) rest (found ++ ms.trees className) := by
  cases ms with
  | nil =>
    rw [Members.words, Members.trees, List.append_nil]
    exact takes_members_done closing
  | semicolon spot more =>
    rw [Members.words, Members.trees]
    exact takes_members_semicolon spot (takes_members more hlevels className closing found)
  | plain member more =>
    rw [Members.words, Members.trees, List.append_assoc, ← List.append_assoc found]
    exact takes_members_next (fun _ => startsRound_plain member)
      (takes_plainMember className member) (takes_members more hlevels className closing _)
  -- A nested type has one level less, and the recursion goes into its body as well.
  | type t more =>
    rw [Members.depth, Nat.max_le] at hlevels
    rw [Members.words, Members.trees, List.append_assoc, List.append_cons found]
    have hstarts : ∀ ws : List Word, StartsRound (first e (t.head.words ++ t.body ++ ws)) := by
      intro ws
      rw [List.append_assoc]
      exact startsRound_head t.head
    exact takes_members_next hstarts (takes_typeMember t fun before => takes_body t hlevels.1)
      (takes_members more hlevels.2 className closing _)

theorem takes_constant (c : Constant) {levels : Nat} (hlevels : c.depth ≤ levels)
    {before rest : List Word} (hparen : (first e rest).isPunct '(' = false)
    (hbrace : (first e rest).isPunct '\x7b' = false) :
    Takes e (java.enumConstant (java.body levels)) before c.words rest c.tree := by
  cases c with
  | plain head =>
    rw [Constant.words, Constant.tree, ← List.append_nil head.words]
    exact takes_enumConstant head none nofun hparen hbrace
  | withBody head opening members closing =>
    cases levels with
    | zero => simp [Constant.depth] at hlevels
    | succ levels =>
      rw [Constant.depth, Nat.add_le_add_iff_right] at hlevels
      rw [Constant.words, Constant.tree]
      refine takes_enumConstant head (some (_, _)) ?_ rfl rfl
      rintro _ before ⟨⟩
      exact takes_memberBody fun before => takes_members members hlevels "" closing []

/-- Constants are taken behind those found before, with the semicolon behind them if there is
one. -/
theorem takes_constants (cs : Constants) {levels : Nat} (hlevels : cs.depth ≤ levels)
    (semicolon : Option Spot) (found : List (Tree JavaKind)) {before rest : List Word}
    (hrest : semicolon = none → (first e rest).isPunct '}' = true) :
    Takes e (iterate found (java.constantsRound (java.body levels))) before
      (cs.words ++ semicolon.elim [] fun s => [s.punct ';']) rest (found ++ cs.trees) := by
  cases cs with
  | nil =>
    rw [Constants.words, Constants.trees, List.append_nil]
    exact .done (takes_constantsRound_nil semicolon hrest)
  | last constant =>
    rw [Constants.words, Constants.trees]
    exact .done (takes_constantsRound_last constant semicolon hrest
      (takes_constant constant hlevels (isPunct_endOfConstants hrest (by decide) (by decide))
        (isPunct_endOfConstants hrest (by decide) (by decide))))
  | cons constant comma more =>
    rw [Constants.depth, Nat.max_le] at hlevels
    rw [Constants.words, Constants.trees, List.append_cons found, List.append_cons,
      List.append_assoc]
    refine .next (by simp) ?_ (takes_constants more hlevels.2 semicolon _ hrest)
    exact takes_constantsRound_next constant comma (takes_constant constant hlevels.1 rfl rfl)

end

end ApiDoc.Syntax.Source
