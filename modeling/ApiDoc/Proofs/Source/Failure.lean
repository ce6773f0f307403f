import ApiDoc.Proofs.Source.File

/-!
# Parsers that fail

`Fails` is the other half of `Takes`: in front of given words, which are all that is left of the
source, a parser fails. A failure behind words that are taken is a failure of the whole, so that of
a member is that of its file (`fails_file`).
-/

namespace ApiDoc.Syntax.Source

open ApiDoc.Syntax.Parser (Step iterate)
open Grammar (java)

/-- Behind `before`, the parser fails in front of the words `ws`, the last ones of the source. -/
def Fails {α : Type} (e : Spot) (p : Parser α) (before ws : List Word) : Prop :=
  ∃ error c, p (cursor e before ws) = .error error c

namespace Fails

variable {σ α β : Type} {e : Spot} {before ws rest : List Word} {w : Word} {a : α}

/-! ## Sequences -/

/-- The first part of a sequence fails. -/
theorem at_once {p : Parser α} {k : α → Parser β} (h : Fails e p before ws) :
    Fails e (p >>= k) before ws := by
  obtain ⟨error, c, h⟩ := h
  exact ⟨error, c, Parser.bind_of_error h⟩

/-- What comes behind the words that the first part takes fails. -/
theorem behind {p : Parser α} {k : α → Parser β} (hp : Takes e p before ws rest a)
    (h : Fails e (k a) (ws.reverse ++ before) rest) : Fails e (p >>= k) before (ws ++ rest) := by
  obtain ⟨error, c, h⟩ := h
  exact ⟨error, c, (Parser.bind_of_ok hp).trans h⟩

theorem silent {p : Parser α} {k : α → Parser β} (hp : Takes e p before [] ws a)
    (h : Fails e (k a) before ws) : Fails e (p >>= k) before ws :=
  behind hp h

/-! ## Looking ahead -/

theorem get {k : Cursor → Parser β} (h : Fails e (k (cursor e before ws)) before ws) :
    Fails e (MonadState.get >>= k) before ws :=
  h

theorem peek {k : Token → Parser β} (h : Fails e (k (first e ws)) before ws) :
    Fails e (Parser.peek >>= k) before ws := by
  rw [Fails, Parser.peek_bind, token_cursor]
  exact h

theorem pos {k : Text.Position → Parser β} (h : Fails e (k (firstSpot e ws).pos) before ws) :
    Fails e (Parser.pos >>= k) before ws := by
  rw [Fails, Parser.pos_bind, pos_cursor]
  exact h

theorem atPunct {p : Char} {k : Bool → Parser β}
    (h : Fails e (k ((first e ws).isPunct p)) before ws) :
    Fails e (Parser.atPunct p >>= k) before ws := by
  rw [Fails, Parser.atPunct_bind, token_cursor]
  exact h

theorem passLines {k : Unit → Parser β} (h : Fails e (k ()) before ws) :
    Fails e (java.passLines >>= k) before ws :=
  h

theorem passSeparators {k : Unit → Parser β} (hfirst : (first e ws).isPunct ';' = false)
    (h : Fails e (k ()) before ws) : Fails e (java.passSeparators >>= k) before ws := by
  rw [Fails, Grammar.passSeparators_bind, pastSeparators_cursor hfirst]
  exact h

/-! ## Single words -/

theorem eatIf {p : Token → Bool} {k : Bool → Parser β} (hw : p w.token = true)
    (h : Fails e (k true) (w :: before) ws) : Fails e (Parser.eatIf p >>= k) before (w :: ws) := by
  rw [Fails, Parser.eatIf_bind, token_cursor, first_cons, if_pos hw, next_cursor]
  exact h

theorem eatIf_none {p : Token → Bool} {k : Bool → Parser β} (hfirst : p (first e ws) = false)
    (h : Fails e (k false) before ws) : Fails e (Parser.eatIf p >>= k) before ws := by
  rw [Fails, Parser.eatIf_bind, token_cursor, if_neg (by simp [hfirst])]
  exact h

theorem expectPunct {s : Spot} {p : Char} {k : Token → Parser β}
    (h : Fails e (k (s.punct p).token) (s.punct p :: before) ws) :
    Fails e (Parser.expectPunct p >>= k) before (s.punct p :: ws) := by
  show Fails e _ before ([s.punct p] ++ ws)
  refine behind ?_ h
  exact Parser.expectPunct_ok.mpr ⟨by simp, by simp, by simp⟩

/-- A token that has to be there is not. -/
theorem expect {p : Token → Bool} {expected : String} (h : p (first e ws) = false) :
    Fails e (Parser.expect p expected) before ws := by
  refine ⟨(cursor e before ws).unexpected expected, cursor e before ws, ?_⟩
  show (if p (cursor e before ws).token then Parser.bump else Parser.unexpected expected)
    (cursor e before ws) = _
  rw [token_cursor, h]
  rfl

/-- A part that may be missing is taken, and what comes behind it fails; `t` says whether it is
there. -/
theorem optional {γ : Type} {o : Option γ} {words : γ → List Word} {t : Bool} {p : Parser α}
    {value : γ → α} {k : List α → Parser β} (ht : t = o.isSome)
    (hp : ∀ x, o = some x → Takes e p before (words x) rest (value x))
    (h : Fails e (k (o.toList.map value)) ((o.elim [] words).reverse ++ before) rest) :
    Fails e (if t then p >>= fun a => Pure.pure [a] >>= k else Pure.pure [] >>= k) before
      (o.elim [] words ++ rest) := by
  subst ht
  cases o with
  | none => exact h
  | some x => exact behind (hp x rfl) h

/-! ## Repetitions -/

theorem round {s : σ} {body : σ → Parser (Step σ α)} (h : Fails e (body s) before ws) :
    Fails e (iterate s body) before ws := by
  obtain ⟨error, c, h⟩ := h
  exact ⟨error, c, by rw [iterate, Parser.iterateFrom, h]⟩

/-- A round takes words, and what is left of the repetition fails, or what comes behind it. -/
theorem next_bind {s s' : σ} {body : σ → Parser (Step σ α)} {k : α → Parser β} (hne : ws ≠ [])
    (h : Takes e (body s) before ws rest (.next s'))
    (hrest : Fails e (iterate s' body >>= k) (ws.reverse ++ before) rest) :
    Fails e (iterate s body >>= k) before (ws ++ rest) := by
  have hlt : (cursor e (ws.reverse ++ before) rest).remaining <
      (cursor e before (ws ++ rest)).remaining := by
    have := List.length_pos_iff.mpr hne
    simp only [remaining_cursor, List.length_append]
    omega
  have hiterate : iterate s body (cursor e before (ws ++ rest)) =
      iterate s' body (cursor e (ws.reverse ++ before) rest) := Parser.iterate_of_next h hlt
  obtain ⟨error, c, hrest⟩ := hrest
  refine ⟨error, c, ?_⟩
  rw [← hrest]
  show EStateM.bind _ _ _ = EStateM.bind _ _ _
  rw [EStateM.bind, hiterate, EStateM.bind]

end Fails

/-! ## Declarations -/

variable {e : Spot} {before ws : List Word}

/-- A declaration of fields fails as what follows its first name does. -/
theorem fails_fieldDef {start : Cursor} {modifiers : Tree JavaKind} {className : Option String}
    (type : TypeUse) (n : Name) (hparen : (first e ws).isPunct '(' = false)
    (h : ∀ before, Fails e (java.fields n.text start modifiers type.tree) before ws) :
    Fails e (java.methodOrFields start modifiers className) before
      (type.words ++ n.word :: ws) := by
  unfold Grammar.methodOrFields
  refine .atPunct ?_
  rw [isPunct_type]
  refine .silent .pure (.get ?_)
  rw [not_atConstructor]
  refine .behind (takes_typeNode type rfl) (.silent takes_quotedName? ?_)
  rw [← List.singleton_append]
  refine .behind (takes_name n) (.atPunct ?_)
  rw [hparen]
  exact h _

section

variable {inside : Grammar.BodyParser JavaKind} {className : String} {found : List (Tree JavaKind)}

/-- A member fails as its declaration behind its modifiers does. -/
theorem fails_member (ms : List Modifier) (hws : StartsMember e ws)
    (h : ∀ before c modifiers,
      Fails e (java.methodOrFields c modifiers (some className)) before ws) :
    Fails e (java.member inside className) before (modifierWordsOf ms ++ ws) := by
  obtain ⟨hbrace, hstatic⟩ := hws.no_initializer ms
  unfold Grammar.member
  simp only [Parser.monadLift_eq, Parser.cursor]
  refine .get ?_
  simp only [token_cursor, hbrace, peek_java, peek_cursor, hstatic]
  refine .behind (takes_modifiers ms hws.modifiers) (.get ?_)
  rw [hws.typeDef]
  exact h _ _ _

theorem fails_members (hfirst : StartsRound (first e ws))
    (h : Fails e (java.member inside className) before ws) :
    Fails e (iterate found (java.membersRound inside className)) before ws := by
  refine .round ?_
  unfold Grammar.membersRound
  simp only [Parser.monadLift_eq]
  refine .passSeparators hfirst.semicolon (.eatIf_none hfirst.brace (.peek ?_))
  rw [hfirst.eof]
  exact .at_once h

end

/-- A type fails as its body does. -/
theorem fails_typeDef {inside : Grammar.BodyParser JavaKind} (start : Cursor)
    (modifiers : Tree JavaKind) (h : TypeHead) (opening : Spot)
    (hbody : ∀ before,
      Fails e (inside h.name.text h.keyword.isEnum) before (opening.punct '\x7b' :: ws)) :
    Fails e (java.typeDef inside start modifiers) before
      (h.rest ++ opening.punct '\x7b' :: ws) := by
  obtain ⟨ms, keyword, name, parameters, extended, implemented⟩ := h
  unfold Grammar.typeDef
  simp only [Parser.monadLift_eq]
  simp only [TypeHead.rest, List.append_assoc, List.cons_append]
  refine .behind (takes_typeKeyword keyword) ?_
  rw [← List.singleton_append]
  refine .behind (takes_name name) (.atPunct (.optional ?_ (fun p _ => takes_typeParameters p)
    (.passLines (.behind (takes_clause .extendsClause "extends" extended ?_ ?_ ?_)
      (.behind (takes_clause .implementsClause "implements" implemented rfl rfl rfl)
        (.at_once (hbody _)))))))
  · refine isPunct_typeParameters parameters ?_
    cases extended <;> cases implemented <;> rfl
  · cases implemented <;> rfl
  · cases implemented <;> rfl
  · cases implemented <;> rfl

/-- A file fails as the members of its first type do. -/
theorem fails_file (h : TypeHead) (hhead : h.keyword.isEnum = false) (opening : Spot)
    (hmembers : ∀ before, Fails e
      (iterate [] (java.membersRound (java.body (maxNesting - 1)) h.name.text)) before ws) :
    Fails e Java.file before (h.words ++ opening.punct '\x7b' :: ws) := by
  -- Nothing is read of the body but its brace before the members fail.
  have hbody : ∀ before, Fails e (java.body maxNesting h.name.text h.keyword.isEnum) before
      (opening.punct '\x7b' :: ws) := by
    intro before
    show Fails e (java.members (java.body (maxNesting - 1)) _ _) _ _
    rw [hhead]
    unfold Grammar.members
    simp only [Parser.monadLift_eq, Parser.iterate_eq]
    exact .expectPunct (.silent .pure (.at_once (hmembers _)))
  have hfirst : StartsRound (first e (h.words ++ opening.punct '\x7b' :: ws)) := startsRound_head h
  show Fails e (iterate [] Java.fileRound >>= _) _ _
  refine .at_once (.round ?_)
  unfold Java.fileRound
  refine .passSeparators hfirst.semicolon (.peek ?_)
  rw [hfirst.eof]
  refine .at_once ?_
  unfold Java.declaration
  rw [TypeHead.words, List.append_assoc]
  refine .get (.behind (takes_modifiers h.modifiers (startsDeclaration_head h).modifiers) (.get ?_))
  rw [token_cursor, (isKeyword_head h).1, (isKeyword_head h).2, atTypeDef_head]
  exact fails_typeDef _ _ h opening hbody

end ApiDoc.Syntax.Source
