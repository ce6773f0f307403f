import ApiDoc.Proofs.Dialect.Member

/-!
# Groovy reads what Java reads: types and their bodies

In a source that has the same tokens in both languages, both grammars take the same words for the
start of a type declaration (`atTypeDef_groovy`). No parser changes the tokens, so this holds
wherever a declaration inside a body starts. Bodies nest, and the agreement of bodies at one level
gives that of the bodies around them: `body_groovy`.
-/

namespace ApiDoc.Syntax

namespace Grammar

open ApiDoc.Syntax.Parser

variable {c d : Cursor} {t : Tree JavaKind} {ts : List (Tree JavaKind)}

/-! ## Heads of types -/

theorem atTypeDef_groovy (hc : c.Shared) : groovy.atTypeDef c = java.atTypeDef c := by
  have hwords : groovy.language.typeWords = java.language.typeWords ++ ["trait"] := rfl
  rw [atTypeDef, hwords, List.any_append, List.any_cons, hc.isKeyword (by decide), List.any_nil,
    Bool.or_false, Bool.or_false]
  rfl

/-- A type declaration does not start with a dot. -/
theorem isPunct_of_atTypeDef (h : java.atTypeDef c = true) : c.token.isPunct '.' = false := by
  rw [Bool.eq_false_iff]
  intro hdot
  have hkind := Token.kind_of_isPunct hdot
  have hsign : c.token.isPunct '@' = false := Token.isPunct_ne hdot (by decide)
  simp [atTypeDef, Token.isKeyword, hkind, hsign] at h

theorem typeKeyword_groovy {kind : JavaKind} {isEnum : Bool}
    (h : java.typeKeyword c = .ok (kind, isEnum) d) (hat : java.atTypeDef c = true) :
    groovy.typeKeyword c = .ok (kind.normalized, isEnum) d := by
  simp only [typeKeyword, eatPunct_bind, bump_bind, ite_ok, bind_ok, pure_ok, Prod.mk.injEq,
    Bool.false_eq_true, if_true, if_false] at h ⊢
  rcases h with ⟨hsign, word, e, hword, ⟨rfl, rfl⟩, rfl⟩ | ⟨hsign, ⟨rfl, rfl⟩, rfl⟩
  · exact .inl ⟨hsign, word, e, hword, ⟨rfl, rfl⟩, rfl⟩
  · refine .inr ⟨hsign, ⟨?_, rfl⟩, rfl⟩
    have htext : c.token.text ∈ Language.java.typeWords := by
      simp only [atTypeDef, Bool.eq_false_iff.mpr hsign, Bool.false_and, Bool.or_false,
        List.any_eq_true, Token.isKeyword, Bool.and_eq_true, decide_eq_true_eq] at hat
      obtain ⟨word, hword, -, htext⟩ := hat
      exact htext ▸ hword
    simp only [Language.typeWords, List.mem_cons, List.not_mem_nil, or_false] at htext
    rcases htext with hword | hword | hword <;> rw [hword] <;> rfl

theorem clause_groovy {kind : JavaKind} {keyword : String} (hc : c.Shared)
    (h : java.clause kind keyword c = .ok ts d) :
    groovy.clause kind keyword c = .ok (ts.map Tree.normalized) d := by
  simp only [clause, atKeyword_bind, passLines_bind, ite_run, ite_ok, bind_ok, pure_ok] at h ⊢
  rcases h with ⟨hkeyword, types, e, htypes, rfl, rfl⟩ | ⟨hkeyword, rfl, rfl⟩
  · have he : e.Shared := hc.of_ok (fun _ => java.runs_typeList kind keyword) htypes
    exact .inl ⟨hkeyword, types.normalized, e, typeList_groovy hc htypes, rfl, he.pastLines⟩
  · exact .inr ⟨hkeyword, rfl, rfl⟩

/-! ## Inside a body -/

/-- The parser of bodies `other` reads what `inside` reads. -/
def FollowsBody (inside : BodyParser JavaKind) (other : BodyParser NodeKind) : Prop :=
  ∀ className isEnum c t d, Cursor.Shared c → inside className isEnum c = .ok t d → t.Plain →
    other className isEnum c = .ok t.normalized d

section

variable {inside : BodyParser JavaKind} {other : BodyParser NodeKind}
  {found : List (Tree JavaKind)} {r : Step (List (Tree JavaKind)) (List (Tree JavaKind))}
  (hruns : ∀ track className isEnum mark, Runs track mark (inside className isEnum) fun _ => mark)
  (hinside : FollowsBody inside other)
include hinside

theorem typeDef_groovy {start : Cursor} {modifiers : Tree JavaKind} (hc : c.Shared)
    (h : java.typeDef inside start modifiers c = .ok t d) (hat : java.atTypeDef c = true)
    (hplain : t.Plain) :
    groovy.typeDef other start modifiers.normalized c = .ok t.normalized d := by
  simp only [typeDef, monadLift_eq, optional_bind, atPunct_bind, passLines_bind, bind_ok, pure_ok,
    java_pastLines] at h ⊢
  obtain ⟨⟨kind, isEnum⟩, c₁, hkeyword, name, c₂, hname, parameters, c₃, hparameters, extended, c₄,
    hextended, implemented, c₅, himplemented, body, c₆, hbody, rfl, rfl⟩ := h
  -- No word of Groovy alone stands behind any of the cursors on the way.
  have hc₁ : c₁.Shared := hc.of_ok (fun _ => java.runs_typeKeyword) hkeyword
  have hc₂ : c₂.Shared := hc₁.of_ok (fun _ => java.runs_name) hname
  have hc₃ : c₃.Shared := shared_of_optional hc₂ (fun _ => java.runs_typeParameters) hparameters
  have hc₄ : c₄.Shared := hc₃.of_ok (fun _ => java.runs_clause _ _) hextended
  have hc₅ : c₅.Shared := hc₄.of_ok (fun _ => java.runs_clause _ _) himplemented
  refine ⟨(kind.normalized, isEnum), c₁, typeKeyword_groovy hkeyword hat, name, c₂,
    name_groovy hname, parameters.map Tree.normalized, c₃,
    optional_groovy hparameters fun t _ => typeParameters_groovy hc₂, ?_⟩
  rw [hc₃.pastLines]
  refine ⟨extended.map Tree.normalized, c₄, clause_groovy hc₃ hextended,
    implemented.map Tree.normalized, c₅, clause_groovy hc₄ himplemented, body.normalized, c₆,
    hinside _ _ _ _ _ hc₅ hbody (hplain.of_mem (by simp)), ?_, rfl⟩
  rw [Tree.normalized_mk]
  simp only [List.map_append, List.map_singleton]

/-! ### Enum constants -/

omit hinside in
theorem annotationsRound_groovy (hc : c.Shared) (h : java.annotationsRound found c = .ok r d) :
    groovy.annotationsRound (found.map Tree.normalized) c =
      .ok (r.map (List.map Tree.normalized) (List.map Tree.normalized)) d := by
  simp only [annotationsRound, atPunct_bind, passLines_bind, ite_run, ite_ok, bind_ok, pure_ok]
    at h ⊢
  rcases h with ⟨hsign, mark, e, hmark, rfl, rfl⟩ | ⟨hsign, rfl, rfl⟩
  · have he : e.Shared := hc.of_ok (fun _ => java.runs_annotationMark) hmark
    exact .inl ⟨hsign, mark.normalized, e, annotationMark_groovy hmark, by simp [Step.map],
      he.pastLines⟩
  · exact .inr ⟨hsign, rfl, rfl⟩

omit hinside in
theorem annotations_groovy (hc : c.Shared) (h : java.annotations c = .ok ts d) :
    groovy.annotations c = .ok (ts.map Tree.normalized) d :=
  iterate_maps _ _ Cursor.Shared
    (fun found _ _ _ hc => hc.of_ok fun _ => java.runs_annotationsRound found)
    (fun _ _ _ _ => annotationsRound_groovy) hc h

theorem enumConstant_groovy (hc : c.Shared) (h : java.enumConstant inside c = .ok t d)
    (hplain : t.Plain) : groovy.enumConstant other c = .ok t.normalized d := by
  simp only [enumConstant, monadLift_eq, cursor_bind, optional_bind, atPunct_bind, bind_ok, pure_ok]
    at h ⊢
  obtain ⟨annotations, c₁, hannotations, name, c₂, hname, arguments, c₃, harguments, body, c₄,
    hbody, rfl, rfl⟩ := h
  have hc₁ : c₁.Shared := hc.of_ok (fun _ => java.runs_annotations) hannotations
  have hc₂ : c₂.Shared := hc₁.of_ok (fun _ => java.runs_name) hname
  have hc₃ : c₃.Shared := shared_of_optional hc₂ (fun _ => java.runs_parenthesized) harguments
  refine ⟨annotations.map Tree.normalized, c₁, annotations_groovy hc hannotations, name, c₂,
    name_groovy hname, arguments.map Tree.normalized, c₃,
    optional_groovy harguments fun t _ => parenthesized_groovy, body.map Tree.normalized, c₄,
    optional_groovy hbody fun t ht h => hinside _ _ _ _ _ hc₃ h (hplain.of_mem (by simp [ht])), ?_,
    rfl⟩
  rw [Tree.normalized_mk]
  simp only [List.map_append]
  rfl

omit hinside in
theorem endOfConstants_groovy (h : java.endOfConstants c = .ok () d) :
    groovy.endOfConstants c = .ok () d := by
  simp only [endOfConstants, java_language, atPunct_bind, ite_run, ite_ok, bind_ok, pure_ok,
    expectPunct_ok] at h
  simp only [endOfConstants, groovy_language, eatPunct_bind, ite_ok, pure_ok]
  rcases h with ⟨hclose, -, rfl⟩ | ⟨-, _, e, ⟨hsemicolon, -, rfl⟩, -, rfl⟩
  · exact .inr ⟨by simp [Token.isPunct_ne hclose], trivial, rfl⟩
  · exact .inl ⟨hsemicolon, trivial, rfl⟩

include hruns in
theorem constantsRound_groovy (hc : c.Shared) (h : java.constantsRound inside found c = .ok r d)
    (hplain : ∀ t ∈ r.value, t.Plain) :
    groovy.constantsRound other (found.map Tree.normalized) c =
        .ok (r.map (List.map Tree.normalized) (List.map Tree.normalized)) d ∧
      ∀ t ∈ found, t.Plain := by
  simp only [constantsRound, monadLift_eq, passLines_bind, atPunct_bind, eatPunct_bind, ite_run,
    ite_ok, bind_ok, pure_ok, Bool.false_eq_true, if_true, if_false, java_pastLines, hc.pastLines]
    at h ⊢
  rcases h with ⟨hclose, rfl, rfl⟩ | ⟨hclose, ⟨hsemicolon, rfl, rfl⟩ |
    ⟨hsemicolon, constant, e, hconstant, hrest⟩⟩
  · exact ⟨.inl ⟨hclose, rfl, rfl⟩, hplain⟩
  · exact ⟨.inr ⟨hclose, .inl ⟨hsemicolon, rfl, rfl⟩⟩, hplain⟩
  · have he : e.Shared := hc.of_ok (fun track => java.runs_enumConstant (hruns track)) hconstant
    -- Whether or not a comma follows, the constant is among those found.
    have hfound : ∀ t ∈ found ++ [constant], t.Plain := by
      rcases hrest with ⟨-, rfl, rfl⟩ | ⟨-, _, f, hend, rfl, rfl⟩
      · exact hplain
      · exact hplain
    rw [List.forall_mem_append, List.forall_mem_singleton] at hfound
    refine ⟨.inr ⟨hclose, .inr ⟨hsemicolon, constant.normalized, e,
      enumConstant_groovy hinside hc hconstant hfound.2, ?_⟩⟩, hfound.1⟩
    rw [he.pastLines]
    rcases hrest with ⟨hcomma, rfl, rfl⟩ | ⟨hcomma, _, f, hend, rfl, rfl⟩
    · exact .inl ⟨hcomma, by simp [Step.map], rfl⟩
    · exact .inr ⟨hcomma, (), f, endOfConstants_groovy hend, by simp [Step.map], rfl⟩

include hruns in
theorem enumConstants_groovy (hc : c.Shared) (h : java.enumConstants inside c = .ok ts d)
    (hplain : ∀ t ∈ ts, t.Plain) :
    groovy.enumConstants other c = .ok (ts.map Tree.normalized) d :=
  (iterate_follows _ _ Cursor.Shared (fun r _ => ∀ t ∈ r.value, Tree.Plain t)
    (fun found _ _ _ hc => hc.of_ok fun track => java.runs_constantsRound (hruns track) found)
    (fun _ _ _ _ => constantsRound_groovy hruns hinside) hc h hplain).1

/-! ### Members -/

theorem member_groovy {className : String} (hc : c.Shared)
    (h : java.member inside className c = .ok ts d) (hplain : ∀ t ∈ ts, t.Plain) :
    groovy.member other className c = .ok (ts.map Tree.normalized) d := by
  simp only [member, monadLift_eq, cursor_bind, bump_bind, passLines_bind, ite_run, ite_ok, bind_ok,
    pure_ok, java_pastLines, hc.peek, (hc.onward c.onward_next).pastLines] at h ⊢
  rcases h with ⟨hblock, block, e, hinit, rfl, rfl⟩ |
    ⟨hblock, ⟨hstatic, block, e, hinit, rfl, rfl⟩ | ⟨hstatic, modifiers, e, hmodifiers, hrest⟩⟩
  · exact .inl ⟨hblock, block.normalized, e, initializer_groovy hinit, rfl, rfl⟩
  · exact .inr ⟨hblock, .inl ⟨hstatic, block.normalized, e, initializer_groovy hinit, rfl, rfl⟩⟩
  · have he : e.Shared := hc.of_ok (fun _ => java.runs_modifiers) hmodifiers
    have hdot : e.token.isPunct '.' = false := by
      rcases hrest with ⟨hat, -⟩ | ⟨-, hmember⟩
      · exact isPunct_of_atTypeDef hat
      · exact isPunct_of_methodOrFields hmember
    refine .inr ⟨hblock, .inr ⟨hstatic, modifiers.normalized, e,
      modifiers_groovy hc hmodifiers hdot, ?_⟩⟩
    rw [atTypeDef_groovy he]
    rcases hrest with ⟨hat, type, f, htype, rfl, rfl⟩ | ⟨hat, hmember⟩
    · exact .inl ⟨hat, type.normalized, f,
        typeDef_groovy hinside he htype hat (hplain _ List.mem_cons_self), rfl, rfl⟩
    · exact .inr ⟨hat, methodOrFields_groovy he hmember hplain⟩

theorem membersRound_groovy {className : String} (hc : c.Shared)
    (h : java.membersRound inside className found c = .ok r d) (hplain : ∀ t ∈ r.value, t.Plain) :
    groovy.membersRound other className (found.map Tree.normalized) c =
        .ok (r.map (List.map Tree.normalized) (List.map Tree.normalized)) d ∧
      ∀ t ∈ found, t.Plain := by
  have hstart : (java.pastSeparators c).Shared := hc.onward (java.onward_pastSeparators c)
  simp only [membersRound, monadLift_eq, passSeparators_bind, eatPunct_bind, peek_bind, ite_run,
    ite_ok, bind_ok, pure_ok, not_unexpected_ok, Bool.false_eq_true, if_true, if_false, false_and,
    exists_false, and_false, false_or, hc.pastSeparators] at h ⊢
  rcases h with ⟨hclose, rfl, rfl⟩ | ⟨hclose, heof, more, e, hmember, rfl, rfl⟩
  · exact ⟨.inl ⟨hclose, rfl, rfl⟩, hplain⟩
  · obtain ⟨hfound, hmore⟩ := List.forall_mem_append.mp hplain
    exact ⟨.inr ⟨hclose, heof, more.map Tree.normalized, e,
      member_groovy hinside hstart hmember hmore, by simp [Step.map], rfl⟩, hfound⟩

include hruns in
theorem members_groovy : FollowsBody (java.members inside) (groovy.members other) := by
  intro className isEnum c t d hc h hplain
  simp only [members, monadLift_eq, iterate_eq, branch_bind, bind_ok, pure_ok] at h ⊢
  obtain ⟨start, c₁, hstart, constants, c₂, hconstants, found, c₃, hfound, rfl, rfl⟩ := h
  have hc₁ : c₁.Shared := hc.of_ok (fun _ => runs_expectPunct '{') hstart
  have hc₂ : c₂.Shared := by
    cases isEnum with
    | true => exact hc₁.of_ok (fun track => java.runs_enumConstants (hruns track)) hconstants
    | false =>
      cases hconstants
      exact hc₁
  -- That the members are plain is known of those found at the end; the loop carries it back to the
  -- constants it starts from.
  obtain ⟨hfollows, hconstantsPlain⟩ :=
    iterate_follows _ _ Cursor.Shared (fun r _ => ∀ t ∈ r.value, t.Plain)
      (fun found _ _ _ hc =>
        hc.of_ok fun track => java.runs_membersRound (hruns track) className found)
      (fun _ _ _ _ => membersRound_groovy hinside) hc₂ hfound fun t ht => hplain.of_mem ht
  refine ⟨start, c₁, hstart, constants.map Tree.normalized, c₂, ?_, found.map Tree.normalized, c₃,
    hfollows, (normalized_node ..).symm, rfl⟩
  cases isEnum with
  | true => exact enumConstants_groovy hruns hinside hc₁ hconstants hconstantsPlain
  | false =>
    cases hconstants
    rfl

end

/-- Bodies are read alike at every level of nesting. -/
theorem body_groovy (levels : Nat) : FollowsBody (java.body levels) (groovy.body levels) := by
  induction levels with
  | zero =>
    intro className isEnum c t d hc h
    cases h
  | succ levels ih => exact members_groovy (fun _ => java.runs_body levels) ih

theorem topTypeDef_groovy {start : Cursor} {modifiers : Tree JavaKind} (hc : c.Shared)
    (h : java.topTypeDef start modifiers c = .ok t d) (hat : java.atTypeDef c = true)
    (hplain : t.Plain) :
    groovy.topTypeDef start modifiers.normalized c = .ok t.normalized d :=
  typeDef_groovy (body_groovy maxNesting) hc h hat hplain

end Grammar

end ApiDoc.Syntax
