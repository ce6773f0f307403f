import ApiDoc.Proofs.Syntax.Run

/-!
# Parsers go forward

A parser that looks ahead has to know where an attempt leaves the cursor, also where the attempt
ends in an error. `Parser.Forward` says that a parser changes no slot and does not go back, whatever
comes of it:

* `Forward.bind`, `Forward.ite` and `Forward.iterate` carry it through sequences, choices and
  repetitions;
* `forward_skipBalanced` and `forward_typeText` have it of what is read ahead in search of a method.

Of whole constructs more is known where they succeed, and less has to be known where they fail:
`Parser.Runs`, for which see the module on progress.
-/

namespace ApiDoc.Syntax

namespace Cursor

/-- The cursor `d` stands at or behind `c`, in the same slots. -/
structure Onward (c d : Cursor) : Prop where
  slots_eq : d.slots = c.slots
  index_le : c.index ≤ d.index

variable {c d e : Cursor}

theorem Onward.refl (c : Cursor) : c.Onward c := ⟨rfl, Nat.le_refl _⟩

theorem Onward.trans (h : c.Onward d) (h' : d.Onward e) : c.Onward e :=
  ⟨h'.slots_eq.trans h.slots_eq, Nat.le_trans h.index_le h'.index_le⟩

theorem onward_next? (h : c.next? = some d) : c.Onward d := by
  obtain ⟨before, here, after, index, remaining, hb, ha⟩ := c
  cases after with
  | nil => cases h
  | cons s rest =>
    simp only [next?] at h
    split at h
    · cases h
    · cases h
      exact ⟨by simp [slots, Cursor.rest], Nat.le_succ _⟩

theorem onward_next (c : Cursor) : c.Onward c.next := by
  unfold next
  cases h : c.next? with
  | none => exact .refl c
  | some d => exact onward_next? h

theorem onward_skipWhile (p : Token → Bool) (c : Cursor) : c.Onward (c.skipWhile p) := by
  fun_induction skipWhile p c with
  | case1 c hp hnext => exact .refl c
  | case2 c hp d hnext ih => exact (onward_next? hnext).trans ih
  | case3 c hp => exact .refl c

end Cursor

namespace Parser

/-- The cursor where a parser stops, with a value or with an error. -/
def stop {α : Type} (p : Parser α) (c : Cursor) : Cursor :=
  match p c with
  | .ok _ d => d
  | .error _ d => d

/-- A parser that never goes back. -/
def Forward {α : Type} (p : Parser α) : Prop :=
  ∀ c : Cursor, c.Onward (p.stop c)

namespace Forward

variable {σ α β : Type} {p q : Parser α} {c d : Cursor}

theorem onward (hp : p.Forward) {a : α} (h : p c = .ok a d) : c.Onward d := by
  have hstop : p.stop c = d := by rw [stop, h]
  exact hstop ▸ hp c

theorem pure (a : α) : (Pure.pure a : Parser α).Forward := Cursor.Onward.refl

theorem throw (error : ParseError) : (MonadExcept.throw error : Parser α).Forward :=
  Cursor.Onward.refl

theorem get : (MonadState.get : Parser Cursor).Forward := Cursor.Onward.refl

theorem bind {k : α → Parser β} (hp : p.Forward) (hk : ∀ a, (k a).Forward) :
    (p >>= k).Forward := by
  intro c
  have hc := hp c
  unfold stop at hc ⊢
  show c.Onward (match EStateM.bind p k c with | .ok _ d => d | .error _ d => d)
  unfold EStateM.bind
  cases h : p c with
  | ok a e =>
    rw [h] at hc
    exact hc.trans (hk a e)
  | error error e =>
    rw [h] at hc
    exact hc

theorem ite {b : Prop} [Decidable b] (hp : p.Forward) (hq : q.Forward) :
    (if b then p else q).Forward := by
  split
  · exact hp
  · exact hq

/-- A step that is left out at times, and what comes behind it. -/
theorem guarded {b : Prop} [Decidable b] {p : Parser PUnit} {k : PUnit → Parser β}
    (hp : p.Forward) (hk : ∀ a, (k a).Forward) : (if b then p >>= k else k ⟨⟩).Forward :=
  .ite (.bind hp hk) (hk ⟨⟩)

/-- A repetition goes forward if its rounds do. -/
theorem iterate {body : σ → Parser (Step σ α)} (h : ∀ s, (body s).Forward) (s : σ) :
    (Parser.iterate s body).Forward := by
  intro c
  show c.Onward (match iterateFrom body s c with | .ok _ d => d | .error _ d => d)
  fun_induction iterateFrom body s c with
  | case1 s c error e hbody => simpa only [stop, hbody] using h s c
  | case2 s c result e hbody => simpa only [stop, hbody] using h s c
  | case3 s c s' e hbody hlt ih => exact ((h s).onward hbody).trans ih
  | case4 s c s' e hbody hlt => exact (h s).onward hbody

end Forward

/-! ## Tokens -/

theorem forward_peek : peek.Forward := .bind .get fun _ => .pure _

theorem forward_bump : bump.Forward := fun c => c.onward_next

theorem forward_atPunct (p : Char) : (atPunct p).Forward := .bind forward_peek fun _ => .pure _

theorem forward_eatIf (p : Token → Bool) : (eatIf p).Forward := by
  intro c
  rw [stop, eatIf_apply]
  cases p c.token with
  | true => exact c.onward_next
  | false => exact .refl c

theorem forward_unexpected {α : Type} (expected : String) :
    (unexpected expected : Parser α).Forward :=
  .bind .get fun _ => .throw _

theorem forward_expect (p : Token → Bool) (expected : String) : (expect p expected).Forward := by
  apply Forward.bind forward_peek
  intro t
  apply Forward.ite
  · exact forward_bump
  · exact forward_unexpected _

theorem forward_textSince (mark : Nat) : (textSince mark).Forward := by
  apply Forward.bind
  · apply Forward.bind .get
    intro c
    exact .ite (.throw _) (.pure _)
  · intro _
    exact .bind .get fun _ => .pure _

/-! ## Runs of tokens -/

theorem forward_bracketRound (start : Token) (due : List Char) :
    (bracketRound start due).Forward := by
  apply Forward.bind forward_bump
  intro t
  refine .guarded (.throw _) fun _ => ?_
  split
  · exact .throw _
  · exact .pure _
  · exact .pure _

theorem forward_skipBalanced : skipBalanced.Forward := by
  apply Forward.bind forward_peek
  intro start
  exact .iterate (forward_bracketRound start) []

/-- A round that takes a dot and an identifier, or stops. -/
theorem forward_dotted {σ α : Type} {f : Token → σ} {a : α} :
    (do
      if ← atDottedIdent then
        let _ ← bump
        let segment ← bump
        return .next (f segment)
      else return .done a : Parser (Step σ α)).Forward := by
  apply Forward.bind (.bind .get fun _ => .pure _)
  intro isDotted
  apply Forward.ite
  · exact .bind forward_bump fun _ => .bind forward_bump fun segment => .pure _
  · exact .pure _

theorem forward_angleRound (start : Token) (depth : Nat) : (angleRound start depth).Forward := by
  apply Forward.bind forward_peek
  intro t
  apply Forward.ite (.throw _)
  apply Forward.ite (forward_unexpected _)
  apply Forward.bind forward_bump
  intro _
  exact .ite (.pure _) (.pure _)

theorem forward_skipAngles : skipAngles.Forward := by
  apply Forward.bind (forward_expect _ _)
  intro start
  exact .iterate (forward_angleRound start) 1

theorem forward_dimensions : dimensions.Forward := by
  refine .iterate (fun dims => ?_) ""
  apply Forward.bind (.bind .get fun _ => .pure _)
  intro isPair
  apply Forward.ite
  · exact .bind forward_bump fun _ => .bind forward_bump fun _ => .pure _
  · exact .pure _

theorem forward_skipClassType (soft : List String) : (skipClassType soft).Forward := by
  apply Forward.bind (forward_expect _ _)
  intro first
  refine .iterate (fun _ => ?_) ()
  apply Forward.bind (forward_atPunct '<')
  intro isAngle
  exact .guarded forward_skipAngles fun _ => forward_dotted

theorem forward_typeText (primitives soft : List String) : (typeText primitives soft).Forward := by
  apply Forward.bind .get
  intro c
  apply Forward.bind forward_peek
  intro t
  have hdims : ∀ _ : PUnit, (do
      let _ ← dimensions
      textSince c.index : Parser String).Forward := fun _ =>
    .bind forward_dimensions fun _ => forward_textSince _
  apply Forward.ite
  · exact .bind forward_bump fun _ => hdims ⟨⟩
  · exact .bind (forward_skipClassType soft) hdims

/-- The marks that carry a type on. -/
def typeJoints : List Char := ['<', '.', '[']

/-- A name that nothing carries on is a type of its own. -/
theorem typeText_of_name {primitives soft : List String} {c : Cursor}
    (hname : c.token.isName soft = true) (hsoft : ∀ word ∈ primitives, word ∉ soft)
    (hends : ∀ p ∈ typeJoints, c.next.token.isPunct p = false) :
    typeText primitives soft c = .ok (c.next.textSince c.index) c.next := by
  have hprimitive : (c.token.kind = .keyword && primitives.contains c.token.text) = false := by
    simp only [Token.isName, Bool.or_eq_true, Bool.and_eq_true, decide_eq_true_eq,
      List.contains_iff_mem] at hname
    rcases hname with hident | ⟨-, hmem⟩
    · simp [hident]
    · have hnot : c.token.text ∉ primitives := fun hin => hsoft _ hin hmem
      simp [hnot]
  -- Neither arguments nor a further segment nor dimensions follow, so each loop ends at once.
  have hclass : skipClassType soft c = .ok () c.next := by
    rw [skipClassType, bind_of_ok (expectName_ok.mpr ⟨hname, rfl, rfl⟩)]
    refine iterate_of_done ?_
    simp only [atPunct_bind, atDottedIdent_bind, hends '<' (by decide), hends '.' (by decide),
      Bool.false_and, Bool.false_eq_true, if_false, pure_apply]
  have hdims : dimensions c.next = .ok "" c.next := by
    refine iterate_of_done ?_
    simp only [atDimension_bind, hends '[' (by decide), Bool.false_and, Bool.false_eq_true,
      if_false, pure_apply]
  simp only [typeText, get_bind, peek_bind, hprimitive, Bool.false_eq_true, if_false]
  rw [bind_of_ok hclass, bind_of_ok hdims, textSince_apply c.onward_next.index_le]

end Parser

end ApiDoc.Syntax
