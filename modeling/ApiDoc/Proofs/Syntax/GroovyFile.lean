import ApiDoc.Proofs.Syntax.Shape

/-!
# What stands at the top of a Groovy file

A Groovy file is taken round by round, one declaration or statement each. Whether a script method
comes is found out by looking ahead; what is then read is that method, and never a field
(`eq_single_of_methodHead`).
-/

namespace ApiDoc.Syntax

open ApiDoc.Syntax.Parser

namespace Parser

variable {α : Type} {p : Parser α} {a : α} {b : Bool} {c d : Cursor}

theorem forward_succeeds (hp : p.Forward) : (succeeds p).Forward := by
  intro c
  have hc := hp c
  unfold stop at hc ⊢
  unfold succeeds
  cases h : p c with
  | ok a d => simpa only [h] using hc
  | error error d =>
    simp only [h] at hc ⊢
    split
    · next hsplit =>
      split at hsplit
      · cases hsplit
      · cases hsplit
        exact hc
    · next hsplit =>
      split at hsplit
      · cases hsplit
        exact hc
      · cases hsplit

theorem succeeds_ok (h : succeeds p c = .ok b d) :
    b = true ∧ (∃ a, p c = .ok a d) ∨ b = false ∧ ∃ error, p c = .error error d := by
  unfold succeeds at h
  cases hp : p c with
  | ok a e =>
    simp only [hp] at h
    cases h
    exact .inl ⟨rfl, a, rfl⟩
  | error error e =>
    simp only [hp] at h
    split at h
    · cases h
    · cases h
      exact .inr ⟨rfl, error, rfl⟩

/-- Looking ahead moves nothing. -/
theorem lookahead_ok (hp : p.Forward) (h : lookahead p c = .ok a d) :
    d = c ∧ ∃ e, p c = .ok a e := by
  rw [lookahead, get_bind] at h
  obtain ⟨a', e, hrun, hrest⟩ := bind_ok.mp h
  have honward := hp.onward hrun
  rw [bind_of_ok (rewind_apply honward.index_le), pure_ok, honward.moveTo] at hrest
  obtain ⟨rfl, rfl⟩ := hrest
  exact ⟨rfl, e, hrun⟩

end Parser

namespace Groovy

open ApiDoc.Syntax.Grammar

variable {c d e : Cursor} {hasModifiers typed : Bool}

/-! ## Script methods -/

theorem forward_methodType : (methodType hasModifiers).Forward := by
  refine .bind (forward_eatIf _) fun _ => ?_
  refine .ite (.pure _) ?_
  refine .bind .get fun _ => ?_
  refine .ite (.pure _) ?_
  exact forward_succeeds (forward_typeText _ _)

theorem forward_methodHead : (methodHead hasModifiers).Forward := by
  refine .bind forward_methodType fun _ => ?_
  refine .bind .get fun _ => ?_
  refine .ite (.pure _) ?_
  refine .bind forward_bump fun _ => ?_
  refine .bind (forward_succeeds forward_skipBalanced) fun _ => ?_
  refine .ite ?_ (.pure _)
  exact .bind .get fun _ => .pure _

/-- The cursor is at a name and the parameters behind it. -/
def AtMethodName (c : Cursor) : Prop :=
  (groovy.isName c.token = true ∨ c.token.kind = .stringLit) ∧ (c.peek 1).isPunct '(' = true

/-- A head has a name. -/
theorem methodHead_ok (h : methodHead hasModifiers c = .ok true d) :
    ∃ typed e, methodType hasModifiers c = .ok typed e ∧ AtMethodName e := by
  obtain ⟨typed, e, htype, hrest⟩ := bind_ok.mp h
  refine ⟨typed, e, htype, ?_⟩
  simp only [get_bind, ite_run, ite_ok, pure_ok, Bool.false_eq_true, false_and, and_false,
    false_or] at hrest
  have hnamed := hrest.1
  simp only [Bool.not_eq_true, Bool.not_eq_false', Bool.and_eq_true, Bool.or_eq_true,
    decide_eq_true_eq] at hnamed
  exact ⟨hnamed.1.2, hnamed.2⟩

/-- What the type of a method can be: `def`, a type, or nothing before a name behind modifiers. Or
it cannot be read. -/
theorem methodType_ok (h : methodType hasModifiers c = .ok typed d) :
    c.token.isKeyword "def" = true ∧ d = c.next ∨
      c.token.isKeyword "def" = false ∧
        (groovy.isName c.token = true ∧ (c.peek 1).isPunct '(' = true ∧ d = c ∨
          (∃ text, groovy.typeText c = .ok text d) ∨
            ∃ error, groovy.typeText c = .error error d) := by
  rw [methodType, eatKeyword_bind, ite_ok] at h
  rcases h with ⟨hdef, h⟩ | ⟨hdef, h⟩
  · simp only [if_true, pure_ok] at h
    exact .inl ⟨hdef, h.2.symm⟩
  · refine .inr ⟨Bool.eq_false_iff.mpr hdef, ?_⟩
    simp only [Bool.false_eq_true, if_false, get_bind, ite_run, ite_ok, pure_ok, Bool.and_eq_true]
      at h
    rcases h with ⟨⟨⟨-, hname⟩, hopen⟩, -, rfl⟩ | ⟨-, h⟩
    · exact .inl ⟨hname, hopen, rfl⟩
    · exact .inr ((succeeds_ok h).imp And.right And.right)

theorem kind_of_isName {t : Token} (h : groovy.isName t = true) :
    t.kind = .ident ∨ t.kind = .keyword := by
  simp only [Grammar.isName, Token.isName, Bool.or_eq_true, Bool.and_eq_true, decide_eq_true_eq]
    at h
  exact h.imp id And.left

theorem kind_of_followsMember {t : Token} (h : followsMember t = true) :
    t.kind = .punct ∨ t.kind = .newline ∨ t.kind = .eof := by
  simp only [followsMember, Token.isPunct, Token.isNewline, Token.isEof, Bool.or_eq_true,
    Bool.and_eq_true, decide_eq_true_eq] at h
  grind

/-- What carries a type on cannot follow a member. -/
theorem followsMember_of_joint {t : Token} {p : Char} (hp : p ∈ typeJoints)
    (h : t.isPunct p = true) : followsMember t = false := by
  have hkind := Token.kind_of_isPunct h
  simp only [typeJoints, List.mem_cons, List.not_mem_nil, or_false] at hp
  rcases hp with rfl | rfl | rfl <;>
    simp [followsMember, Token.isPunct_ne h, Token.isNewline, Token.isEof, hkind]

theorem not_followsMember_of_atMethodName (h : AtMethodName c) : followsMember c.token = false := by
  cases hfollows : followsMember c.token with
  | false => rfl
  | true =>
    have hkind := kind_of_followsMember hfollows
    rcases h.1 with hname | hstring
    · rcases kind_of_isName hname with hname | hname <;> simp [hname] at hkind
    · simp [hstring] at hkind

/-- A lone name before what can follow a member is a type, and its end is no name of a method. -/
theorem typeText_of_followsMember (hname : groovy.isName c.token = true)
    (hfollows : followsMember (c.peek 1) = true) :
    ∃ text, groovy.typeText c = .ok text c.next ∧ ¬AtMethodName c.next := by
  have heof : c.token.isEof = false := by
    apply Token.isEof_of_kind
    rcases kind_of_isName hname with hkind | hkind <;> simp [hkind]
  have hnext := Cursor.token_next heof
  rw [← hnext] at hfollows
  have hends : ∀ p ∈ typeJoints, c.next.token.isPunct p = false := by
    intro p hp
    rw [Bool.eq_false_iff]
    intro hpunct
    rw [followsMember_of_joint hp hpunct] at hfollows
    cases hfollows
  refine ⟨_, Parser.typeText_of_name hname (by decide) hends, ?_⟩
  intro hat
  rw [not_followsMember_of_atMethodName hat] at hfollows
  cases hfollows

theorem declaredType_ok {type : Tree NodeKind}
    (h : groovy.declaredType followsMember c = .ok type d) :
    c.token.isKeyword "def" = true ∧ d = c.next ∨ c.token.isKeyword "def" = false ∧
      (groovy.isName c.token = true ∧ followsMember (c.peek 1) = true ∧ d = c ∨
        (groovy.isName c.token && followsMember (c.peek 1)) = false ∧
          ∃ text, groovy.typeText c = .ok text d) := by
  have hrun : (do
      if ← eatKeyword "def" then return groovy.leaf .type "def" c.pos
      else if groovy.isName c.token && followsMember (c.peek 1) then
        return groovy.leaf .type "def" c.pos
      else groovy.typeNode : Parser (Tree NodeKind)) c = .ok type d := h
  -- The branches of the parser, in order: `def`, a lone name, a type.
  rw [eatKeyword_bind, ite_ok] at hrun
  rcases hrun with ⟨hdef, hrun⟩ | ⟨hdef, hrun⟩
  · simp only [if_true, pure_ok] at hrun
    exact .inl ⟨hdef, hrun.2.symm⟩
  · simp only [Bool.false_eq_true, if_false, ite_run, ite_ok, pure_ok] at hrun
    refine .inr ⟨Bool.eq_false_iff.mpr hdef, ?_⟩
    rcases hrun with ⟨hlone, -, rfl⟩ | ⟨hlone, hrun⟩
    · exact .inl ⟨(Bool.and_eq_true_iff.mp hlone).1, (Bool.and_eq_true_iff.mp hlone).2, rfl⟩
    · rw [typeNode, pos_bind] at hrun
      obtain ⟨text, e, htext, hleaf⟩ := bind_ok.mp hrun
      cases hleaf
      exact .inr ⟨Bool.eq_false_iff.mpr hlone, text, htext⟩

/-- The type that is read ends where the one that was looked for ends. -/
theorem eq_of_declaredType {type : Tree NodeKind} (htype : methodType hasModifiers c = .ok typed e)
    (hat : AtMethodName e) (h : groovy.declaredType followsMember c = .ok type d) : d = e := by
  rcases methodType_ok htype with ⟨hdef, rfl⟩ | ⟨hdef, hlooked⟩
  · rcases declaredType_ok h with ⟨-, rfl⟩ | ⟨hnot, -⟩
    · rfl
    · exact absurd (hdef.symm.trans hnot) (by simp)
  · rcases declaredType_ok h with ⟨hdef', -⟩ | ⟨-, hread⟩
    · exact absurd (hdef.symm.trans hdef') (by simp)
    rcases hlooked with ⟨hname, hopen, rfl⟩ | htext
    · -- a name before parameters has no type in either reading
      have hfollows : followsMember (e.peek 1) = true := by simp [followsMember, hopen]
      rcases hread with ⟨-, -, rfl⟩ | ⟨hlone, -⟩
      · rfl
      · simp [hname, hfollows] at hlone
    · rcases hread with ⟨hname, hfollows, rfl⟩ | ⟨-, text', htext'⟩
      · -- the lone name would have been the type, and no method name stands behind it
        obtain ⟨text', htext', hnot⟩ := typeText_of_followsMember hname hfollows
        rcases htext with ⟨text, htext⟩ | ⟨error, htext⟩
        · cases htext.symm.trans htext'
          exact absurd hat hnot
        · cases htext.symm.trans htext'
      · rcases htext with ⟨text, htext⟩ | ⟨error, htext⟩
        · cases htext.symm.trans htext'
          rfl
        · cases htext.symm.trans htext'

/-- No method starts with an angle bracket, which is no type. -/
theorem not_angle_of_methodType (htype : methodType hasModifiers c = .ok typed e)
    (hat : AtMethodName e) : c.token.isPunct '<' = false := by
  cases hangle : c.token.isPunct '<' with
  | false => rfl
  | true =>
    have hkind := Token.kind_of_isPunct hangle
    have hname : groovy.isName c.token = false := by simp [Grammar.isName, Token.isName, hkind]
    have hnothing : expectName groovy.soft c = .error (c.unexpected "identifier") c := by
      show (if groovy.isName c.token then bump else unexpected "identifier") c = _
      rw [hname]
      rfl
    -- A type needs a name first; so there is none, and the cursor is still at the bracket.
    have htext : groovy.typeText c = .error (c.unexpected "identifier") c := by
      simp only [Grammar.typeText, Parser.typeText, get_bind, peek_bind, hkind, reduceCtorEq,
        decide_false, Bool.false_and, Bool.false_eq_true, if_false]
      exact bind_of_error (bind_of_error hnothing)
    rcases methodType_ok htype with ⟨hdef, -⟩ | ⟨-, ⟨hname', -⟩ | ⟨text, htext'⟩ | ⟨error, htext'⟩⟩
    · simp [Token.isKeyword_of_kind, hkind] at hdef
    · exact absurd (hname.symm.trans hname') (by simp)
    · cases htext.symm.trans htext'
    · cases htext.symm.trans htext'
      rcases hat.1 with hname' | hstring
      · exact absurd (hname.symm.trans hname') (by simp)
      · simp [hkind] at hstring

/-- Where a head was found, a method is read, and nothing else. -/
theorem eq_single_of_methodHead {start : Cursor} {modifiers : Tree NodeKind}
    {ms : List (Tree NodeKind)} (hhead : methodHead hasModifiers c = .ok true e)
    (h : groovy.methodOrFields start modifiers none c = .ok ms d) :
    ∃ m, ms = [m] ∧ (m.kind = .methodDef ∨ m.kind = .annotationFieldDef) := by
  obtain ⟨typed, f, htype, hat⟩ := methodHead_ok hhead
  have hmethod : ∀ {name : String} {head : List (Tree NodeKind)} {c : Cursor},
      (do return [← groovy.method .methodDef name start head] : Parser _) c = .ok ms d →
        ∃ m, ms = [m] ∧ (m.kind = .methodDef ∨ m.kind = .annotationFieldDef) := by
    intro name head c hrun
    obtain ⟨m, _, hm, hpure⟩ := bind_ok.mp hrun
    cases hpure
    exact ⟨m, rfl, (groovy.yields_method _ _ _ _ hm).2.1⟩
  simp only [methodOrFields, atPunct_bind, not_angle_of_methodType htype hat, atConstructor,
    Bool.false_eq_true, if_false, pure_bind, get_bind] at h
  obtain ⟨type, f', htype', hrest⟩ := bind_ok.mp h
  cases eq_of_declaredType htype hat htype'
  obtain ⟨quoted, g, hquoted, hrest⟩ := bind_ok.mp hrest
  cases quoted with
  | some name => exact hmethod hrest
  | none =>
    -- the name is no string, so it is a word with the parenthesis behind it
    simp only [quotedName?, get_bind, hat.2, Bool.and_true, ite_run, ite_ok, bump_bind, pure_ok,
      reduceCtorEq, false_and, and_false, false_or] at hquoted
    obtain ⟨hquoted, -, rfl⟩ := hquoted
    have hname : groovy.isName f.token = true := by
      refine hat.1.resolve_right fun hstring => hquoted ?_
      simp [hstring, groovy]
    have heof : f.token.isEof = false := by
      apply Token.isEof_of_kind
      rcases kind_of_isName hname with hkind | hkind <;> simp [hkind]
    simp only [Grammar.name, bind_assoc, pure_bind] at hrest
    obtain ⟨t, g, hexpect, hrest⟩ := bind_ok.mp hrest
    obtain ⟨-, -, rfl⟩ := expectName_ok.mp hexpect
    rw [atPunct_bind, Cursor.token_next heof, hat.2] at hrest
    exact hmethod hrest

/-! ## Files -/

theorem yields_statement : statement.Yields fun t => t.kind = .statement ∧ t.children = [] := by
  refine .seq fun start => ?_
  refine .seq fun _ => ?_
  refine .seq fun _ => ?_
  refine .guarded fun _ => ?_
  refine .seq fun _ => ?_
  exact .pure ⟨rfl, rfl⟩

theorem fileRound_ok {found : List (Tree NodeKind)}
    {r : Step (List (Tree NodeKind)) (List (Tree NodeKind))} (h : fileRound found c = .ok r d) :
    (groovy.pastSeparators c).token.isEof = true ∧ r = .done found ∧
        d = groovy.pastSeparators c ∨
      ∃ n, r = .next (found ++ [n]) ∧ (groovy.packageDef (groovy.pastSeparators c) = .ok n d ∨
        groovy.importDef (groovy.pastSeparators c) = .ok n d ∨
          declaration (groovy.pastSeparators c) = .ok n d) := by
  simp only [fileRound, passSeparators_bind, peek_bind, ite_run, ite_ok, bind_ok, pure_ok] at h
  rcases h with ⟨heof, rfl, rfl⟩ | ⟨-, ⟨-, n, e, hn, rfl, rfl⟩ | ⟨-, ⟨-, n, e, hn, rfl, rfl⟩ |
    ⟨-, n, e, hn, rfl, rfl⟩⟩⟩
  · exact .inl ⟨heof, rfl, rfl⟩
  · exact .inr ⟨n, rfl, .inl hn⟩
  · exact .inr ⟨n, rfl, .inr (.inl hn)⟩
  · exact .inr ⟨n, rfl, .inr (.inr hn)⟩

end Groovy

end ApiDoc.Syntax
