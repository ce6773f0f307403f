import ApiDoc.Proofs.Dialect.Basic
import ApiDoc.Proofs.Syntax.GroovyFile

/-!
# Groovy reads what Java reads: members

Groovy lets a declaration leave out its type, its semicolon and what ends a list, so what Java has
to read there is one of several things Groovy may read. What stands behind a construct tells them
apart. Dimensions behind a name are Java's alone: the lemmas are about trees that lack them.
-/

namespace ApiDoc.Syntax

/-- No name in the tree has dimensions behind it. -/
def Tree.Plain (t : Tree JavaKind) : Prop := t.Lacks .arrayDeclarator

theorem Tree.Plain.of_mem {s t : Tree JavaKind} (h : t.Plain) (hs : s ∈ t.children) : s.Plain :=
  (Tree.lacks_iff.mp h).2 s hs

namespace Grammar

open ApiDoc.Syntax.Parser

variable {c d : Cursor} {t : Tree JavaKind} {text : String}

theorem java_language : java.language = .java := rfl

theorem groovy_language : groovy.language = .groovy := rfl

/-! ## Declared types -/

/-- A type that is one identifier ends behind it, if nothing there carries a type on. -/
theorem typeText_of_ident (h : java.typeText c = .ok text d) (hident : c.token.kind = .ident)
    (hends : ∀ p ∈ typeJoints, c.next.token.isPunct p = false) : d = c.next := by
  have hname : c.token.isName java.soft = true := by simp [Token.isName, hident]
  have hlone := typeText_of_name hname (by decide : ∀ word ∈ primitives, word ∉ java.soft) hends
  cases hlone.symm.trans h
  rfl

theorem declaredType_groovy {follows : Token → Bool}
    (hfollows : ∀ t, ∀ p ∈ typeJoints, t.isPunct p = true → follows t = false)
    (h : java.declaredType follows c = .ok t d) (hd : follows d.token = false) :
    groovy.declaredType follows c = .ok t.normalized d := by
  have htype : java.typeNode c = .ok t d := h
  obtain ⟨text, htext, -⟩ := typeNode_ok.mp htype
  have hstart := kind_of_typeText htext
  have hdef : c.token.isKeyword "def" = false := by
    rcases hstart with ⟨-, hprimitive⟩ | hident
    · have hne : c.token.text ≠ "def" := fun heq => absurd (heq ▸ hprimitive) (by decide)
      simp [Token.isKeyword, hne]
    · exact Token.isKeyword_of_kind (by simp [hident])
  -- Groovy takes a lone name for a declaration without a type; here the type would end at it.
  have hlone : (groovy.isName c.token && follows (c.peek 1)) = false := by
    cases hname : groovy.isName c.token with
    | false => rfl
    | true =>
      have hident : c.token.kind = .ident := by
        refine hstart.resolve_left ?_
        rintro ⟨hkeyword, hprimitive⟩
        have hsoft : ∀ word ∈ primitives, word ∉ groovy.soft := by decide
        simp only [isName, Token.isName, hkeyword, reduceCtorEq, decide_false, decide_true,
          Bool.false_or, Bool.true_and, List.contains_iff_mem] at hname
        exact hsoft _ hprimitive hname
      have hnext : c.next.token = c.peek 1 :=
        Cursor.token_next (Token.isEof_of_kind (by simp [hident]))
      rw [Bool.true_and, ← hnext]
      cases hlone : follows c.next.token with
      | false => rfl
      | true =>
        have hends : ∀ p ∈ typeJoints, c.next.token.isPunct p = false := by
          intro p hp
          rw [Bool.eq_false_iff]
          intro hpunct
          exact Bool.noConfusion (hlone.symm.trans (hfollows _ p hp hpunct))
        have hend : d = c.next := typeText_of_ident htext hident hends
        exact (hlone.symm.trans (hend ▸ hd)).symm ▸ rfl
  simp only [declaredType, groovy_language, get_bind, eatKeyword_bind, hdef, hlone, ite_run,
    Bool.false_eq_true, if_false]
  exact typeNode_groovy htype

theorem followsParameter_of_joint {t : Token} {p : Char} (hp : p ∈ typeJoints)
    (h : t.isPunct p = true) : followsParameter t = false := by
  have hkind := Token.kind_of_isPunct h
  simp only [typeJoints, List.mem_cons, List.not_mem_nil, or_false] at hp
  rcases hp with rfl | rfl | rfl <;>
    simp [followsParameter, Token.isPunct_ne h, Token.isNewline, hkind]

theorem followsMember_of_ident {t : Token} (h : t.kind = .ident) : followsMember t = false := by
  simp [followsMember, Token.isPunct, Token.isNewline, Token.isEof, h]

theorem followsParameter_of_kind {t : Token} (h : t.kind = .ident ∨ t.kind = .ellipsis) :
    followsParameter t = false := by
  rcases h with h | h <;> simp [followsParameter, Token.isPunct, Token.isNewline, h]

/-! ## Dimensions behind a name -/

theorem dimensions_of_empty (h : dimensions c = .ok text d) (htext : text = "") : d = c := by
  have hempty : text = "" → "" = "" ∧ d = c := by
    refine iterate_induction (motive := fun s c a d => a = "" → s = "" ∧ d = c) ?_ ?_ h
    · intro dims c text d hround htext
      simp only [atDimension_bind, ite_run, ite_ok, bump_bind, pure_ok, reduceCtorEq, false_and,
        and_false, false_or, Step.done.injEq] at hround
      obtain ⟨-, rfl, rfl⟩ := hround
      exact ⟨htext, rfl⟩
    · intro dims c dims' e text d hround hlt ih htext
      simp only [atDimension_bind, ite_run, ite_ok, bump_bind, pure_ok, reduceCtorEq, false_and,
        and_false, or_false, Step.next.injEq] at hround
      obtain ⟨-, rfl, rfl⟩ := hround
      obtain ⟨hdims, -⟩ := ih htext
      exact absurd hdims (by simp)
  exact (hempty htext).2

/-- A name that Java reads without dimensions ends at the same place in Groovy. -/
theorem nameDimensions_groovy {dims : List (Tree JavaKind)}
    (h : java.nameDimensions c = .ok dims d) (hplain : ∀ t ∈ dims, t.Plain) :
    dims = [] ∧ groovy.nameDimensions c = .ok [] d := by
  simp only [nameDimensions, java_language, pos_bind, bind_ok, pure_ok] at h
  obtain ⟨text, e, htext, rfl, rfl⟩ := h
  split at hplain
  · next hempty =>
    rw [dimensions_of_empty htext (String.isEmpty_iff.mp hempty)]
    exact ⟨if_pos hempty, rfl⟩
  · exact absurd rfl (Tree.lacks_iff.mp (hplain _ List.mem_cons_self)).1

/-! ## Parameters -/

theorem defaultValue_groovy (h : c.token.isPunct '=' = false) :
    groovy.defaultValue c = .ok [] c := by
  simp only [defaultValue, groovy_language, eatPunct_bind, h, Bool.false_eq_true, if_false,
    pure_apply]

/-- A type does not start with a punctuation character. -/
theorem isPunct_of_declaredType {follows : Token → Bool} (h : java.declaredType follows c = .ok t d)
    (p : Char) : c.token.isPunct p = false := by
  obtain ⟨text, htext, -⟩ := typeNode_ok.mp (show java.typeNode c = .ok t d from h)
  refine Token.isPunct_of_kind ?_
  rcases kind_of_typeText htext with ⟨hkeyword, -⟩ | hident
  · simp [hkeyword]
  · simp [hident]

theorem parameter_groovy (hc : c.Shared) (h : java.parameter c = .ok t d) (hplain : t.Plain)
    (hvalue : d.token.isPunct '=' = false) : groovy.parameter c = .ok t.normalized d := by
  simp only [parameter, pos_bind, bind_ok, pure_ok] at h ⊢
  obtain ⟨modifiers, c₁, hmodifiers, type, c₂, htype, variadic, c₃, hvariadic, name, c₄, hname,
    dims, c₅, hdims, value, c₆, hdefault, rfl, rfl⟩ := h
  cases hdefault
  obtain ⟨rfl, hnone⟩ := nameDimensions_groovy hdims fun t ht =>
    hplain.of_mem (List.mem_append_left _ (List.mem_append_right _ ht))
  have hbehind : followsParameter c₂.token = false := by
    refine followsParameter_of_kind ?_
    rcases eatIf_ok hvariadic with ⟨hellipsis, -, -⟩ | ⟨-, -, rfl⟩
    · exact .inr (of_decide_eq_true hellipsis)
    · exact .inl (kind_of_name hname)
  refine ⟨modifiers.normalized, c₁,
    modifiers_groovy hc hmodifiers (isPunct_of_declaredType htype '.'), type.normalized, c₂,
    declaredType_groovy (fun _ _ => followsParameter_of_joint) htype hbehind, variadic, c₃,
    hvariadic, name, c₄, name_groovy hname, [], c₅, hnone, [], c₅, defaultValue_groovy hvalue, ?_,
    rfl⟩
  exact (normalized_node _ _ _ [modifiers, type]).symm

/-- A parameter does not start with the bracket that closes the list. -/
theorem isPunct_of_parameter (h : java.parameter c = .ok t d) : c.token.isPunct ')' = false := by
  rw [Bool.eq_false_iff]
  intro hclose
  have hnone : java.modifiers c = .ok _ c :=
    modifiers_of_none (Token.isPunct_ne hclose (by decide))
      (by simp [atModifier, Token.kind_of_isPunct hclose])
  simp only [parameter, pos_bind, bind_of_ok hnone] at h
  obtain ⟨type, e, htype, -⟩ := bind_ok.mp h
  exact Bool.noConfusion (hclose.symm.trans (isPunct_of_declaredType htype ')'))

theorem parametersRound_groovy {found : List (Tree JavaKind)}
    {r : Step (List (Tree JavaKind)) (List (Tree JavaKind))} (hc : c.Shared)
    (h : java.parametersRound found c = .ok r d) (hplain : ∀ t ∈ r.value, t.Plain) :
    groovy.parametersRound (found.map Tree.normalized) c =
        .ok (r.map (List.map Tree.normalized) (List.map Tree.normalized)) d ∧
      ∀ t ∈ found, t.Plain := by
  simp only [parametersRound, passLines_bind, eatIf_bind, eatPunct_bind, ite_ok, bind_ok, pure_ok,
    Bool.false_eq_true, if_true, if_false, java_pastLines, hc.pastLines] at h ⊢
  rcases h with ⟨hclose, rfl, rfl⟩ | ⟨hopen, parameter, e, hparameter, hrest⟩
  · refine ⟨.inl ⟨?_, rfl, rfl⟩, hplain⟩
    simp only [Bool.and_eq_true] at hclose
    simp [hclose.1, groovy_language]
  · have he : e.Shared := hc.of_ok (fun _ => java.runs_parameter) hparameter
    -- Groovy would read a default value behind an equals sign; here a comma or the bracket stands
    -- there
    have hbehind : e.token.isPunct '=' = false := by
      rcases hrest with ⟨hcomma, -⟩ | ⟨-, close, f, hclose, -⟩
      · exact Token.isPunct_ne hcomma (by decide)
      · exact Token.isPunct_ne (expectPunct_ok.mp hclose).1 (by decide)
    have hfound : ∀ t ∈ found ++ [parameter], t.Plain := by
      rcases hrest with ⟨-, rfl, -⟩ | ⟨-, close, f, -, rfl, -⟩
      · exact hplain
      · exact hplain
    rw [List.forall_mem_append, List.forall_mem_singleton] at hfound
    obtain ⟨hfound, hparameterPlain⟩ := hfound
    refine ⟨.inr ⟨?_, parameter.normalized, e,
      parameter_groovy hc hparameter hparameterPlain hbehind, ?_⟩, hfound⟩
    · simp [isPunct_of_parameter hparameter]
    · rw [he.pastLines]
      rcases hrest with ⟨hcomma, rfl, rfl⟩ | ⟨hcomma, close, f, hclose, rfl, rfl⟩
      · exact .inl ⟨hcomma, by simp [Step.map], rfl⟩
      · exact .inr ⟨hcomma, close, f, hclose, by simp [Step.map], rfl⟩

theorem parameters_groovy (hc : c.Shared) (h : java.parameters c = .ok t d) (hplain : t.Plain) :
    groovy.parameters c = .ok t.normalized d := by
  simp only [parameters, bind_ok, pure_ok] at h ⊢
  obtain ⟨start, e, hstart, found, f, hfound, rfl, rfl⟩ := h
  have he : e.Shared := hc.of_ok (fun _ => runs_expectPunct '(') hstart
  refine ⟨start, e, hstart, found.map Tree.normalized, f, ?_, (normalized_node ..).symm, rfl⟩
  exact (iterate_follows _ _ Cursor.Shared (fun r _ => ∀ t ∈ r.value, t.Plain)
    (fun found _ _ _ hc => hc.of_ok fun _ => java.runs_parametersRound found)
    (fun _ _ _ _ => parametersRound_groovy) he hfound fun t ht => hplain.of_mem ht).1

/-! ## Methods -/

theorem endOfDeclaration_groovy (h : java.endOfDeclaration c = .ok () d) :
    groovy.endOfDeclaration c = .ok () d := by
  simp only [endOfDeclaration, java_language, bind_ok, expectPunct_ok, pure_ok] at h
  obtain ⟨_, e, ⟨hsemicolon, -, rfl⟩, -, rfl⟩ := h
  simp only [endOfDeclaration, groovy_language, eatPunct_bind, hsemicolon, if_true, pure_apply]

theorem throwsClause_groovy {throws : List (Tree JavaKind)} (hc : c.Shared)
    (h : java.throwsClause c = .ok throws d) :
    groovy.throwsClause c = .ok (throws.map Tree.normalized) d := by
  simp only [throwsClause, get_bind, passLines_bind, ite_run, ite_ok, bind_ok, pure_ok,
    java_pastLines, hc.pastLines, hc.peek] at h ⊢
  rcases h with ⟨hthrows, types, e, htypes, rfl, rfl⟩ | ⟨hthrows, rfl, rfl⟩
  · exact .inl ⟨hthrows, types.normalized, e, typeList_groovy hc htypes, rfl, rfl⟩
  · exact .inr ⟨hthrows, rfl, rfl⟩

/-- No line end stands before what ends a method. -/
theorem passToMethodEnd_groovy (hc : c.Shared) (h : java.passToMethodEnd c = .ok () d) :
    groovy.passToMethodEnd c = .ok () d := by
  have hgroovy : groovy.passLines c = .ok () c := congrArg (EStateM.Result.ok ()) hc.pastLines
  have hjava : java.passLines c = .ok () c := rfl
  simp only [passToMethodEnd, get_bind, ite_run, hc.peek, hjava, hgroovy] at h ⊢
  exact h

theorem methodEnd_groovy {kind kind' : JavaKind} {found rest : List (Tree JavaKind)}
    (hc : c.Shared) (h : java.methodEnd kind found c = .ok (kind', rest) d) :
    groovy.methodEnd kind (found.map Tree.normalized) c =
      .ok (kind', rest.map Tree.normalized) d := by
  simp only [methodEnd, eatKeyword_bind, atPunct_bind, ite_run, ite_ok, bind_ok, pure_ok,
    Prod.mk.injEq, Bool.false_eq_true, if_true, if_false] at h ⊢
  rcases h with ⟨hdefault, value, e, hvalue, _, f, hend, ⟨rfl, rfl⟩, rfl⟩ | ⟨hdefault,
    ⟨hopen, block, e, hblock, ⟨rfl, rfl⟩, rfl⟩ | ⟨hopen, _, e, hend, ⟨rfl, rfl⟩, rfl⟩⟩
  · exact .inl ⟨hdefault, value.normalized, e, expression_groovy (hc.onward c.onward_next) hvalue,
      (), f, endOfDeclaration_groovy hend, ⟨rfl, by simp⟩, rfl⟩
  · exact .inr ⟨hdefault, .inl ⟨hopen, block.normalized, e, block_groovy hblock,
      ⟨rfl, by simp⟩, rfl⟩⟩
  · exact .inr ⟨hdefault, .inr ⟨hopen, (), e, endOfDeclaration_groovy hend, ⟨rfl, rfl⟩, rfl⟩⟩

/-- What ends a method is added behind the children found so far. -/
theorem mem_of_methodEnd {kind kind' : JavaKind} {found rest : List (Tree JavaKind)}
    (h : java.methodEnd kind found c = .ok (kind', rest) d) : ∀ t ∈ found, t ∈ rest := by
  simp only [methodEnd, eatKeyword_bind, atPunct_bind, ite_run, ite_ok, bind_ok, pure_ok,
    Prod.mk.injEq, Bool.false_eq_true, if_true, if_false] at h
  rcases h with ⟨-, value, e, -, _, f, -, ⟨-, rfl⟩, -⟩ | ⟨-,
    ⟨-, block, e, -, ⟨-, rfl⟩, -⟩ | ⟨-, _, e, -, ⟨-, rfl⟩, -⟩⟩
  · exact fun t => List.mem_append_left _
  · exact fun t => List.mem_append_left _
  · exact fun t => id

theorem method_groovy {kind : JavaKind} {name : String} {start : Cursor}
    {head : List (Tree JavaKind)} (hc : c.Shared)
    (h : java.method kind name start head c = .ok t d) (hplain : t.Plain) :
    groovy.method kind name start (head.map Tree.normalized) c = .ok t.normalized d := by
  simp only [method, methodRest, bind_assoc, bind_ok, pure_ok] at h ⊢
  obtain ⟨parameters, c₁, hparameters, dims, c₂, hdims, throws, c₃, hthrows, _, c₄, hskip,
    ⟨kind', rest⟩, c₅, hend, rfl, rfl⟩ := h
  have hfound : ∀ t ∈ [parameters] ++ dims ++ throws, t.Plain := fun t ht =>
    hplain.of_mem (List.mem_append_right _ (mem_of_methodEnd hend t ht))
  obtain ⟨rfl, hnone⟩ := nameDimensions_groovy hdims fun t ht =>
    hfound t (List.mem_append_left _ (List.mem_append_right _ ht))
  have hc₁ : c₁.Shared := hc.of_ok (fun _ => java.runs_parameters) hparameters
  have hc₂ : c₂.Shared := hc₁.of_ok (fun _ => java.runs_nameDimensions) hdims
  have hc₃ : c₃.Shared := hc₂.of_ok (fun _ => java.runs_throwsClause) hthrows
  have hc₄ : c₄.Shared := hc₃.of_ok (fun _ => java.runs_passToMethodEnd) hskip
  refine ⟨parameters.normalized, c₁, parameters_groovy hc hparameters (hfound _ List.mem_cons_self),
    [], c₂, hnone, throws.map Tree.normalized, c₃, throwsClause_groovy hc₂ hthrows, (), c₄,
    passToMethodEnd_groovy hc₃ hskip, (kind', rest.map Tree.normalized), c₅,
    methodEnd_groovy hc₄ hend, ?_, rfl⟩
  rw [Tree.normalized_mk, List.map_append]
  rfl

/-! ## Fields -/

theorem initialValue_groovy {value : List (Tree JavaKind)} (hc : c.Shared)
    (h : java.initialValue c = .ok value d) :
    groovy.initialValue c = .ok (value.map Tree.normalized) d := by
  simp only [initialValue, eatPunct_bind, ite_ok, bind_ok, pure_ok, Bool.false_eq_true, if_true,
    if_false] at h ⊢
  rcases h with ⟨hequals, value, e, hvalue, rfl, rfl⟩ | ⟨hequals, rfl, rfl⟩
  · exact .inl ⟨hequals, value.normalized, e,
      expression_groovy (hc.onward c.onward_next) hvalue, rfl, rfl⟩
  · exact .inr ⟨hequals, rfl, rfl⟩

section

variable {start : Cursor} {modifiers type : Tree JavaKind}

theorem fieldsRound_groovy {s : List (Tree JavaKind) × String × Text.Position}
    {r : Step (List (Tree JavaKind) × String × Text.Position) (List (Tree JavaKind))}
    (hc : c.Shared) (h : java.fieldsRound start modifiers type s c = .ok r d)
    (hplain : ∀ t ∈ (r.map Prod.fst id).value, t.Plain) :
    groovy.fieldsRound start modifiers.normalized type.normalized (s.1.map Tree.normalized, s.2) c =
        .ok (r.map (fun s => (s.1.map Tree.normalized, s.2)) (List.map Tree.normalized)) d ∧
      ∀ t ∈ s.1, t.Plain := by
  obtain ⟨found, name, p⟩ := s
  simp only [fieldsRound, eatPunct_bind, passLines_bind, pos_bind, ite_ok, bind_ok, pure_ok,
    Bool.false_eq_true, if_true, if_false, java_pastLines] at h ⊢
  obtain ⟨dims, c₁, hdims, value, c₂, hvalue, hrest⟩ := h
  have hc₁ : c₁.Shared := hc.of_ok (fun _ => java.runs_nameDimensions) hdims
  have hc₂ : c₂.Shared := hc₁.of_ok (fun _ => java.runs_initialValue) hvalue
  -- Whether the declaration goes on or ends here, the field is one of those found.
  have hfound : ∀ t ∈ found ++ [⟨java.kind .variableDef, name, p, start.doc,
      [modifiers, type] ++ dims ++ value⟩], t.Plain := by
    rcases hrest with ⟨-, name, f, -, rfl, -⟩ | ⟨-, rfl, -⟩
    · exact hplain
    · exact hplain
  rw [List.forall_mem_append, List.forall_mem_singleton] at hfound
  obtain ⟨hfound, hfield⟩ := hfound
  obtain ⟨rfl, hnone⟩ := nameDimensions_groovy hdims fun t ht =>
    hfield.of_mem (List.mem_append_left _ (List.mem_append_right _ ht))
  refine ⟨⟨[], c₁, hnone, value.map Tree.normalized, c₂, initialValue_groovy hc₁ hvalue, ?_⟩,
    hfound⟩
  have hnode : found.map Tree.normalized ++
        [⟨groovy.kind .variableDef, name, p, start.doc,
          [modifiers.normalized, type.normalized] ++ [] ++ value.map Tree.normalized⟩] =
      (found ++ [Tree.mk (java.kind .variableDef) name p start.doc
        ([modifiers, type] ++ [] ++ value)]).map Tree.normalized := by
    rw [List.map_append, List.map_singleton, Tree.normalized_mk]
    rfl
  rw [(hc₂.onward c₂.onward_next).pastLines]
  rcases hrest with ⟨hcomma, name, f, hname, rfl, rfl⟩ | ⟨hcomma, rfl, rfl⟩
  · exact .inl ⟨hcomma, name, f, name_groovy hname, by rw [hnode, Step.map], rfl⟩
  · exact .inr ⟨hcomma, by rw [hnode, Step.map], rfl⟩

theorem fields_groovy {first : String} {fields : List (Tree JavaKind)} (hc : c.Shared)
    (h : java.fields first start modifiers type c = .ok fields d)
    (hplain : ∀ t ∈ fields, t.Plain) :
    groovy.fields first start modifiers.normalized type.normalized c =
      .ok (fields.map Tree.normalized) d := by
  simp only [Grammar.fields, bind_ok, pure_ok] at h ⊢
  obtain ⟨found, e, hfound, _, f, hend, rfl, rfl⟩ := h
  refine ⟨found.map Tree.normalized, e, ?_, (), f, endOfDeclaration_groovy hend, rfl, rfl⟩
  exact (iterate_follows (fun s => (s.1.map Tree.normalized, s.2)) _ Cursor.Shared
    (fun r _ => ∀ t ∈ (r.map Prod.fst id).value, Tree.Plain t)
    (fun s _ _ _ hc => hc.of_ok fun _ => java.runs_fieldsRound start modifiers type s)
    (fun _ _ _ _ => fieldsRound_groovy) hc hfound hplain).1

end

/-! ## Methods and fields -/

theorem quotedName_java : java.quotedName? c = .ok none c := rfl

theorem quotedName_groovy (h : c.token.kind ≠ .stringLit) : groovy.quotedName? c = .ok none c := by
  simp [quotedName?, get_bind, h, pure_apply]

theorem methodOrFields_groovy {start : Cursor} {modifiers : Tree JavaKind}
    {className : Option String} {ts : List (Tree JavaKind)} (hc : c.Shared)
    (h : java.methodOrFields start modifiers className c = .ok ts d)
    (hplain : ∀ t ∈ ts, t.Plain) :
    groovy.methodOrFields start modifiers.normalized className c =
      .ok (ts.map Tree.normalized) d := by
  simp only [methodOrFields, optional_bind, atPunct_bind, get_bind, bind_ok] at h ⊢
  obtain ⟨parameters, c₁, hparameters, hrest⟩ := h
  have hc₁ : c₁.Shared := shared_of_optional hc (fun _ => java.runs_typeParameters) hparameters
  refine ⟨parameters.map Tree.normalized, c₁,
    optional_groovy hparameters fun t _ => typeParameters_groovy hc, ?_⟩
  simp only [bump_bind, ite_run, ite_ok, bind_ok, pure_ok] at hrest ⊢
  rcases hrest with ⟨hconstructor, method, c₂, hmethod, rfl, rfl⟩ | ⟨hconstructor, type, c₂, htype,
    quoted, c₃, hquoted, hrest⟩
  · exact .inl ⟨hconstructor, method.normalized, c₂,
      method_groovy (hc₁.onward c₁.onward_next) hmethod (hplain _ List.mem_cons_self), rfl, rfl⟩
  -- Java has no quoted names, and an identifier is none to Groovy
  cases quotedName_java.symm.trans hquoted
  obtain ⟨name, c₄, hname, hrest⟩ := bind_ok.mp hrest
  have hident := kind_of_name hname
  have hc₂ : c₂.Shared := hc₁.of_ok (fun _ => java.runs_declaredType _) htype
  have hc₄ : c₄.Shared := hc₂.of_ok (fun _ => java.runs_name) hname
  have htype' : groovy.declaredType followsMember c₁ = .ok type.normalized c₂ :=
    declaredType_groovy (fun _ _ => Groovy.followsMember_of_joint) htype
      (followsMember_of_ident hident)
  refine .inr ⟨hconstructor, type.normalized, c₂, htype', none, c₂,
    quotedName_groovy (by simp [hident]), bind_ok.mpr ⟨name, c₄, name_groovy hname, ?_⟩⟩
  simp only [atPunct_bind, ite_run, ite_ok, bind_ok, pure_ok] at hrest ⊢
  rcases hrest with ⟨hopen, method, c₅, hmethod, rfl, rfl⟩ | ⟨hopen, hfields⟩
  · refine .inl ⟨hopen, method.normalized, c₅, ?_, rfl, rfl⟩
    have hhead := method_groovy hc₄ hmethod (hplain _ List.mem_cons_self)
    rwa [List.map_append, List.map_append] at hhead
  · refine .inr ⟨hopen, ?_⟩
    cases parameters with
    | nil => exact fields_groovy hc₄ hfields hplain
    | cons parameter _ => cases hfields

/-- A method or field does not start with a dot. -/
theorem isPunct_of_methodOrFields {start : Cursor} {modifiers : Tree JavaKind}
    {className : Option String} {ts : List (Tree JavaKind)}
    (h : java.methodOrFields start modifiers className c = .ok ts d) :
    c.token.isPunct '.' = false := by
  simp only [methodOrFields, optional_bind, atPunct_bind, get_bind, ite_run, ite_ok, bind_ok] at h
  obtain ⟨parameters, c₁, hparameters, hrest⟩ := h
  rcases hparameters with ⟨hangle, -⟩ | ⟨-, hnone⟩
  · exact Token.isPunct_ne hangle (by decide)
  cases hnone
  rcases hrest with ⟨hconstructor, -⟩ | ⟨-, type, c₂, htype, -⟩
  · refine Token.isPunct_of_kind ?_
    cases className with
    | none => cases hconstructor
    | some name =>
      simp only [atConstructor, Bool.and_eq_true, decide_eq_true_eq] at hconstructor
      simp [hconstructor.1.1]
  · exact isPunct_of_declaredType htype '.'

theorem initializer_groovy {kind : JavaKind} {p : Text.Position}
    (h : java.initializer kind p c = .ok t d) :
    groovy.initializer kind p c = .ok t.normalized d := by
  simp only [initializer, bind_ok, pure_ok] at h ⊢
  obtain ⟨block, e, hblock, rfl, rfl⟩ := h
  exact ⟨block.normalized, e, block_groovy hblock, (normalized_node _ _ _ [block]).symm, rfl⟩

end Grammar

end ApiDoc.Syntax
