import ApiDoc.Proofs.Syntax.Total

/-!
# Looking ahead for a script method

At the top of a script, looking ahead tells a method from a statement. It always comes to an answer
and moves nothing (`exists_looksLikeMethod`): it takes tokens, and tries a type and a bracketed run,
which may fail but have no fault of their own (`Answers`). Behind a yes, what is read is one method
or a fault, and the declaration is all that was read: `looksLikeMethod_keeps_declaration`.
-/

namespace ApiDoc.Syntax

namespace Parser

/-- From every place of `track`, the parser comes to a result at a place of `track`. -/
def Answers {α : Type} (track : Track) (p : Parser α) : Prop :=
  ∀ c : Cursor, c.slots = track.slots → ∃ a d, p c = .ok a d ∧ d.slots = track.slots

namespace Answers

variable {α β : Type} {track : Track} {p q : Parser α} {k : α → Parser β}

theorem pure (a : α) : Answers track (Pure.pure a) := fun c hc => ⟨a, c, rfl, hc⟩

theorem get : Answers track (MonadState.get : Parser Cursor) := fun c hc => ⟨c, c, rfl, hc⟩

theorem bind (hp : Answers track p) (hk : ∀ a, Answers track (k a)) : Answers track (p >>= k) := by
  intro c hc
  obtain ⟨a, d, hrun, hd⟩ := hp c hc
  rw [bind_of_ok hrun]
  exact hk a d hd

theorem ite {b : Prop} [Decidable b] (hp : Answers track p) (hq : Answers track q) :
    Answers track (if b then p else q) := by
  split
  · exact hp
  · exact hq

theorem bump : Answers track Parser.bump := fun c hc =>
  ⟨c.token, c.next, rfl, c.onward_next.slots_eq.trans hc⟩

theorem eatIf (p : Token → Bool) : Answers track (Parser.eatIf p) := by
  intro c hc
  rw [eatIf_apply]
  split
  · exact ⟨true, c.next, rfl, c.onward_next.slots_eq.trans hc⟩
  · exact ⟨false, c, rfl, hc⟩

/-- Trying a parser that has no fault of its own does not fail. -/
theorem succeeds (hp : ∀ mark, Runs track mark p fun _ => mark) (hforward : p.Forward) :
    Answers track (Parser.succeeds p) := by
  intro c hc
  have hrun := hp c.index c hc (Nat.le_refl _)
  have hstop := (hforward c).slots_eq.trans hc
  unfold Parser.succeeds
  unfold stop at hstop
  cases h : p c with
  | ok a d =>
    rw [h] at hstop
    exact ⟨true, d, rfl, hstop⟩
  | error error d =>
    rw [h] at hrun hstop
    simp only [hrun, Bool.false_eq_true, if_false]
    exact ⟨false, d, rfl, hstop⟩

end Answers

/-- Looking ahead gives what reading gives, and stays. -/
theorem lookahead_of_ok {α : Type} {p : Parser α} (hp : p.Forward) {c d : Cursor} {a : α}
    (h : p c = .ok a d) : lookahead p c = .ok a c := by
  have honward := hp.onward h
  rw [lookahead, get_bind, bind_of_ok h, bind_of_ok (rewind_apply honward.index_le),
    honward.moveTo]
  rfl

end Parser

namespace Groovy

open ApiDoc.Syntax.Parser
open ApiDoc.Syntax.Grammar

variable {track : Track} {c start : Cursor} {modifiers : Tree NodeKind}

theorem answers_methodType (hasModifiers : Bool) : Answers track (methodType hasModifiers) := by
  refine .bind (.eatIf _) fun isDef => ?_
  apply Answers.ite
  · exact .pure _
  refine .bind .get fun c => ?_
  apply Answers.ite
  · exact .pure _
  · exact .succeeds (fun _ => groovy.runs_typeText.stay) (forward_typeText _ _)

theorem answers_methodHead (hasModifiers : Bool) : Answers track (methodHead hasModifiers) := by
  refine .bind (answers_methodType hasModifiers) fun typed => ?_
  refine .bind .get fun c => ?_
  apply Answers.ite
  · exact .pure _
  refine .bind .bump fun name => ?_
  refine .bind (.succeeds (fun _ => runs_skipBalanced.stay) forward_skipBalanced) fun closed => ?_
  apply Answers.ite
  · exact .bind .get fun d => .pure _
  · exact .pure _

/-- Looking for a script method always answers, and leaves the cursor where it was. -/
theorem exists_looksLikeMethod (hc : c.slots = track.slots) (hasModifiers : Bool) :
    ∃ found, looksLikeMethod hasModifiers c = .ok found c := by
  obtain ⟨found, d, hhead, -⟩ := answers_methodHead hasModifiers c hc
  exact ⟨found, lookahead_of_ok forward_methodHead hhead⟩

/-- Where a method was seen, one method is read, or reading fails. -/
theorem error_or_single_of_looksLikeMethod {hasModifiers : Bool}
    (hfound : looksLikeMethod hasModifiers c = .ok true c) (start : Cursor)
    (modifiers : Tree NodeKind) :
    (∃ error d, groovy.methodOrFields start modifiers none c = .error error d) ∨
      ∃ m d, groovy.methodOrFields start modifiers none c = .ok [m] d ∧
        (m.kind = .methodDef ∨ m.kind = .annotationFieldDef) := by
  obtain ⟨-, e, hhead⟩ := lookahead_ok forward_methodHead hfound
  cases hread : groovy.methodOrFields start modifiers none c with
  | error error d => exact .inl ⟨error, d, rfl⟩
  | ok ms d =>
    obtain ⟨m, rfl, hkind⟩ := eq_single_of_methodHead hhead hread
    exact .inr ⟨m, d, rfl, hkind⟩

/-- Where a method was seen, the declaration is all that is read. -/
theorem declaration_of_looksLikeMethod (hmodifiers : groovy.modifiers start = .ok modifiers c)
    (htype : groovy.atTypeDef c = false)
    (hfound : looksLikeMethod (!modifiers.children.isEmpty) c = .ok true c) :
    (do return [← declaration] : Parser _) start =
      groovy.methodOrFields start modifiers none c := by
  rw [declaration, bind_assoc, get_bind, bind_assoc, bind_of_ok hmodifiers, bind_assoc, get_bind,
    htype, if_neg Bool.false_ne_true, bind_assoc, bind_of_ok hfound, if_pos rfl, bind_assoc]
  rcases error_or_single_of_looksLikeMethod hfound start modifiers with
    ⟨error, d, hread⟩ | ⟨m, d, hread, -⟩
  · rw [bind_of_error hread, hread]
  · rw [bind_of_ok hread, hread]
    rfl

/-- Looking ahead never drops a declaration. Anywhere in a token list, looking for a script method
answers and leaves the cursor where it was. If it answers yes, reading a method or fields there
fails or gives one node, a method or an annotation element. And where this follows the modifiers of
a declaration, the node of the declaration is all that is read. -/
theorem looksLikeMethod_keeps_declaration {tokens : List Token}
    (hc : (Cursor.ofTokens tokens).Moves c) (hasModifiers : Bool) :
    ∃ found, looksLikeMethod hasModifiers c = .ok found c ∧
      (found = true → ∀ start modifiers,
        ((∃ error d, groovy.methodOrFields start modifiers none c = .error error d) ∨
          ∃ m d, groovy.methodOrFields start modifiers none c = .ok [m] d ∧
            (m.kind = .methodDef ∨ m.kind = .annotationFieldDef)) ∧
        (groovy.modifiers start = .ok modifiers c → hasModifiers = !modifiers.children.isEmpty →
          groovy.atTypeDef c = false → (do return [← declaration] : Parser _) start =
            groovy.methodOrFields start modifiers none c)) := by
  have hslots := hc.slots_eq.trans (Cursor.slots_ofTokens tokens)
  obtain ⟨found, hfound⟩ := exists_looksLikeMethod hslots hasModifiers
  refine ⟨found, hfound, ?_⟩
  rintro rfl start modifiers
  refine ⟨error_or_single_of_looksLikeMethod hfound start modifiers, ?_⟩
  rintro hmodifiers rfl htype
  exact declaration_of_looksLikeMethod hmodifiers htype hfound

/-- `static f() {}` -/
def staticMethod : Cursor := .ofTokens
  [⟨.keyword, "static", ⟨1, 1⟩, false⟩, ⟨.ident, "f", ⟨1, 8⟩, true⟩, ⟨.punct, "(", ⟨1, 9⟩, false⟩,
   ⟨.punct, ")", ⟨1, 10⟩, false⟩, ⟨.punct, "\x7b", ⟨1, 12⟩, true⟩,
   ⟨.punct, "\x7d", ⟨1, 13⟩, false⟩]

theorem looksLikeMethod_keeps_declaration_static :
    staticMethod.Moves staticMethod.next ∧
      looksLikeMethod true staticMethod.next = .ok true staticMethod.next ∧
      ∃ modifiers m d, groovy.modifiers staticMethod = .ok modifiers staticMethod.next ∧
        groovy.methodOrFields staticMethod modifiers none staticMethod.next = .ok [m] d ∧
        (m.kind = .methodDef ∨ m.kind = .annotationFieldDef) ∧
        declaration staticMethod = .ok m d := by
  have hmoves : staticMethod.Moves staticMethod.next := .next .stay
  obtain ⟨found, hlook, hkeeps⟩ := looksLikeMethod_keeps_declaration hmoves true
  have hyes : (looksLikeMethod true).read staticMethod.next = .ok true := by decide +kernel
  -- What each parser returns is evaluated; where it stops follows from the general theorem.
  have hmodifiers : (do return ((← groovy.modifiers).children.isEmpty, ← get) : Parser _).read
      staticMethod = .ok (false, staticMethod.next) := by decide +kernel
  have hkind : (do return (← declaration).kind : Parser _).read staticMethod = .ok .methodDef := by
    decide +kernel
  rw [Parser.read, hlook] at hyes
  cases hyes
  obtain ⟨_, hmodifiers⟩ := read_ok.mp hmodifiers
  obtain ⟨modifiers, f, hmodifiers, hf⟩ := bind_ok.mp hmodifiers
  obtain ⟨hempty, hf⟩ := Prod.mk.inj (EStateM.Result.ok.inj hf).1
  have hf : f = staticMethod.next := hf
  rw [hf] at hmodifiers
  obtain ⟨_, hkind⟩ := read_ok.mp hkind
  obtain ⟨m, d, hdeclaration, -⟩ := bind_ok.mp hkind
  obtain ⟨hsingle, hwhole⟩ := hkeeps rfl staticMethod modifiers
  have hread := hwhole hmodifiers (by rw [hempty]; rfl) (by decide +kernel)
  rw [bind_of_ok hdeclaration] at hread
  rcases hsingle with ⟨error, _, herror⟩ | ⟨m', d', hm', hkind'⟩
  · cases hread.trans herror
  · cases hread.trans hm'
    exact ⟨hmoves, hlook, modifiers, m, d, hmodifiers, hm', hkind', hdeclaration⟩

/-- `final A<"f"() {}` -/
def brokenType : Cursor := .ofTokens
  [⟨.keyword, "final", ⟨1, 1⟩, false⟩, ⟨.ident, "A", ⟨1, 7⟩, true⟩, ⟨.punct, "<", ⟨1, 8⟩, false⟩,
   ⟨.stringLit, "\"f\"", ⟨1, 9⟩, false⟩, ⟨.punct, "(", ⟨1, 12⟩, false⟩,
   ⟨.punct, ")", ⟨1, 13⟩, false⟩, ⟨.punct, "\x7b", ⟨1, 15⟩, true⟩,
   ⟨.punct, "\x7d", ⟨1, 16⟩, false⟩]

-- Reading may still fail behind a yes: the type breaks off, and what is behind it looks like a
-- name.
example : (looksLikeMethod true).read brokenType.next = .ok true ∧
    (do return (← declaration).kind : Parser _).read brokenType =
      .error ⟨⟨1, 9⟩, .unexpectedToken ⟨.stringLit, "\"f\"", ⟨1, 9⟩, false⟩ "type argument"⟩ := by
  decide +kernel

end Groovy

end ApiDoc.Syntax
