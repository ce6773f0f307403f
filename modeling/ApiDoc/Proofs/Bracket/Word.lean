import ApiDoc.Proofs.Bracket.Balanced
import Mathlib.Data.List.Basic

/-!
# Words of brackets

Slots in which brackets match, in kind and in nesting. Read from the left, such a word opens and
closes brackets, and a bracket may close only the innermost open one: `openBehind` is the list of
those that are open, and a word matches if and only if none is open at its end
(`matched_iff_openBehind`). Counting brackets gives the number of those that are open
(`depth_eq_length`), so between two places of a matched word at the same depth nothing is left open.
-/

namespace ApiDoc.Syntax

/-- Brackets match in the slots, in kind and nesting, and the source does not end in them. -/
abbrev Matched (ws : List Slot) : Prop := Balanced Slot.token (fun _ => True) ws

/-- How many more brackets the slots open than they close. -/
def depth (ws : List Slot) : Int :=
  ws.countP (·.token.opens) - ws.countP (·.token.closes)

/-- The slot `s` behind `ws` closes a bracket, and the innermost bracket that is open in front of it
is of another kind: what stands between the two matches. -/
def Clash (ws : List Slot) (s : Slot) : Prop :=
  ∃ (front inside : List Slot) (o : Slot) (b b' : Bracket), ws = front ++ o :: inside ∧
    o.token.isPunct b.opening = true ∧ Matched inside ∧ s.token.isPunct b'.closing = true ∧ b' ≠ b

/-! ## Open brackets -/

/-- The brackets that are left open if the token closes the innermost one. -/
def closeInnermost (t : Token) : List Bracket → Option (List Bracket)
  | [] => none
  | b :: bs => if t.isPunct b.closing then some bs else none

/-- The brackets that are open behind a token, innermost first, if `bs` are open in front of it.
There are none to tell if the source ends, or if a bracket closes that is not the innermost one. -/
def openAfter (bs : List Bracket) (t : Token) : Option (List Bracket) :=
  if t.isEof then none
  else if t.isPunct '(' then some (.round :: bs)
  else if t.isPunct '[' then some (.square :: bs)
  else if t.isPunct '{' then some (.curly :: bs)
  else if t.closes then closeInnermost t bs
  else some bs

/-- The brackets that are open behind slots, if `bs` are open in front of them. -/
def openBehind (bs : List Bracket) : List Slot → Option (List Bracket)
  | [] => some bs
  | s :: ws => (openAfter bs s.token).bind fun bs => openBehind bs ws

section

variable {t : Token} {b : Bracket} {bs bs' : List Bracket}

theorem openAfter_opening (h : t.isPunct b.opening = true) : openAfter bs t = some (b :: bs) := by
  rw [openAfter, Token.isEof_of_isPunct h, if_neg Bool.false_ne_true]
  cases b with
  | round => exact if_pos h
  | square =>
    rw [Token.isPunct_ne h (q := '(') (by decide), if_neg Bool.false_ne_true]
    exact if_pos h
  | curly =>
    rw [Token.isPunct_ne h (q := '(') (by decide), if_neg Bool.false_ne_true,
      Token.isPunct_ne h (q := '[') (by decide), if_neg Bool.false_ne_true]
    exact if_pos h

theorem openAfter_of_not_opens (heof : t.isEof = false) (hopens : t.opens = false) :
    openAfter bs t = if t.closes then closeInnermost t bs else some bs := by
  simp only [Token.opens, Bool.or_eq_false_iff] at hopens
  simp only [openAfter, heof, hopens.1.1, hopens.1.2, hopens.2, if_neg Bool.false_ne_true]

theorem openAfter_closing (h : t.isPunct b.closing = true) :
    openAfter (b :: bs) t = some bs := by
  rw [openAfter_of_not_opens (Token.isEof_of_isPunct h) (Token.opens_of_closing h),
    if_pos (Token.closes_of_closing h)]
  exact if_pos h

theorem openAfter_other (hopens : t.opens = false) (hcloses : t.closes = false)
    (heof : t.isEof = false) : openAfter bs t = some bs := by
  rw [openAfter_of_not_opens heof hopens, hcloses, if_neg Bool.false_ne_true]

/-- What a token can do: open a bracket, close the innermost one, or neither. -/
theorem openAfter_cases (h : openAfter bs t = some bs') :
    (∃ b, t.isPunct b.opening = true ∧ bs' = b :: bs) ∨
      (∃ b, t.isPunct b.closing = true ∧ bs = b :: bs') ∨
      (t.opens = false ∧ t.closes = false ∧ t.isEof = false ∧ bs' = bs) := by
  cases hopens : t.opens with
  | true =>
    obtain ⟨b, hb⟩ := Token.exists_opening hopens
    rw [openAfter_opening hb] at h
    exact .inl ⟨b, hb, (Option.some.inj h).symm⟩
  | false =>
    -- the end of the source leaves no brackets open
    have heof : t.isEof = false := by
      by_contra heof
      rw [openAfter, if_pos (by simpa using heof)] at h
      cases h
    rw [openAfter_of_not_opens heof hopens] at h
    cases hcloses : t.closes with
    | false =>
      rw [hcloses, if_neg Bool.false_ne_true] at h
      exact .inr (.inr ⟨rfl, rfl, heof, (Option.some.inj h).symm⟩)
    | true =>
      rw [hcloses, if_pos rfl] at h
      cases bs with
      | nil => cases h
      | cons b bs =>
        rw [closeInnermost] at h
        split at h
        · next hb => exact .inr (.inl ⟨b, hb, congrArg _ (Option.some.inj h)⟩)
        · cases h

end

section

variable {bs bs' : List Bracket} {ws vs : List Slot} {s : Slot}

theorem openBehind_append :
    openBehind bs (ws ++ vs) = (openBehind bs ws).bind fun bs => openBehind bs vs := by
  induction ws generalizing bs with
  | nil => rfl
  | cons s ws ih =>
    rw [List.cons_append, openBehind, openBehind, Option.bind_assoc]
    congr 1
    funext bs
    exact ih

theorem openBehind_concat :
    openBehind bs (ws ++ [s]) = (openBehind bs ws).bind fun bs => openAfter bs s.token := by
  rw [openBehind_append]
  congr 1
  funext bs
  exact Option.bind_fun_some _

/-- What can be told at the end of a word can be told at each place of it. -/
theorem exists_openBehind (h : openBehind bs (ws ++ vs) = some bs') :
    ∃ mid, openBehind bs ws = some mid ∧ openBehind mid vs = some bs' := by
  rw [openBehind_append] at h
  exact Option.bind_eq_some_iff.mp h

theorem isEof_of_openBehind (h : openBehind bs ws = some bs') :
    ∀ s ∈ ws, s.token.isEof = false := by
  induction ws generalizing bs with
  | nil => exact fun s hs => absurd hs List.not_mem_nil
  | cons s ws ih =>
    obtain ⟨mid, hstep, hrest⟩ := Option.bind_eq_some_iff.mp h
    refine List.forall_mem_cons.mpr ⟨?_, ih hrest⟩
    obtain ⟨b, hb, -⟩ | ⟨b, hb, -⟩ | ⟨-, -, heof, -⟩ := openAfter_cases hstep
    · exact Token.isEof_of_isPunct hb
    · exact Token.isEof_of_isPunct hb
    · exact heof

/-- Counting brackets gives the number of open ones. -/
theorem depth_eq_length (h : openBehind bs ws = some bs') :
    (bs.length : Int) + depth ws = bs'.length := by
  induction ws generalizing bs with
  | nil =>
    cases h
    simp [depth]
  | cons s ws ih =>
    obtain ⟨mid, hstep, hrest⟩ := Option.bind_eq_some_iff.mp h
    have hlength := ih hrest
    simp only [depth, List.countP_cons] at hlength ⊢
    obtain ⟨b, hb, rfl⟩ | ⟨b, hb, rfl⟩ | ⟨hopens, hcloses, -, rfl⟩ := openAfter_cases hstep
    · rw [List.length_cons] at hlength
      rw [Token.opens_of_opening hb, Token.closes_of_opening hb, if_pos rfl,
        if_neg Bool.false_ne_true]
      omega
    · rw [List.length_cons, Token.opens_of_closing hb, Token.closes_of_closing hb, if_pos rfl,
        if_neg Bool.false_ne_true]
      omega
    · rw [hopens, hcloses, if_neg Bool.false_ne_true]
      exact hlength

end

/-! ## Matched words -/

/-- Behind a matched word, the same brackets are open as in front of it. -/
theorem Balanced.openBehind {P : Slot → Prop} {ws : List Slot}
    (h : Balanced Slot.token P ws) (bs : List Bracket) : openBehind bs ws = some bs := by
  induction h generalizing bs with
  | nil => rfl
  | single hopens hcloses heof _ _ ih =>
    rw [Syntax.openBehind, openAfter_other hopens hcloses heof]
    exact ih bs
  | @group P b o c inside ss ho hc _ _ ihinside ihss =>
    rw [Syntax.openBehind, openAfter_opening ho, Option.bind_some, openBehind_append,
      ihinside (b :: bs), Option.bind_some, Syntax.openBehind, openAfter_closing hc]
    exact ihss bs

/-- The brackets of `bs`, innermost first, are open behind the slots: between any two of them, and
behind the innermost one, the slots match. -/
inductive Opened : (bs : List Bracket) → List Slot → Prop
  | matched {ws : List Slot} (h : Matched ws) : Opened [] ws
  | cons {b : Bracket} {bs : List Bracket} {o : Slot} {front inside : List Slot}
      (hfront : Opened bs front) (ho : o.token.isPunct b.opening = true)
      (hinside : Matched inside) : Opened (b :: bs) (front ++ o :: inside)

namespace Opened

variable {b : Bracket} {bs bs' : List Bracket} {ws vs : List Slot} {s : Slot}

/-- A matched word changes nothing. -/
theorem append (h : Opened bs ws) (hvs : Matched vs) : Opened bs (ws ++ vs) := by
  cases h with
  | matched hws => exact .matched (hws.append hvs)
  | cons hfront ho hinside =>
    rw [List.append_assoc, List.cons_append]
    exact .cons hfront ho (hinside.append hvs)

/-- A closing bracket closes the innermost open one. -/
theorem close (h : Opened (b :: bs) ws) (hs : s.token.isPunct b.closing = true) :
    Opened bs (ws ++ [s]) := by
  cases h with
  | @cons _ _ o front inside hfront ho hinside =>
    rw [List.append_assoc, List.cons_append]
    exact hfront.append (.group ho hs hinside .nil)

theorem step (h : Opened bs ws) (hs : openAfter bs s.token = some bs') :
    Opened bs' (ws ++ [s]) := by
  obtain ⟨b, hb, rfl⟩ | ⟨b, hb, rfl⟩ | ⟨hopens, hcloses, heof, rfl⟩ := openAfter_cases hs
  · exact .cons h hb .nil
  · exact h.close hb
  · exact h.append (.single hopens hcloses heof trivial .nil)

theorem of_openBehind (h : Opened bs ws) (hvs : openBehind bs vs = some bs') :
    Opened bs' (ws ++ vs) := by
  induction vs generalizing bs ws with
  | nil =>
    cases hvs
    rwa [List.append_nil]
  | cons s vs ih =>
    obtain ⟨mid, hstep, hrest⟩ := Option.bind_eq_some_iff.mp hvs
    rw [List.append_cons]
    exact ih (h.step hstep) hrest

end Opened

section

variable {ws vs : List Slot} {s : Slot} {bs bs' : List Bracket}

theorem opened_of_openBehind (h : openBehind [] ws = some bs) : Opened bs ws :=
  Opened.of_openBehind (.matched .nil) h

/-- Slots match if and only if, read from the left, they leave no bracket open. -/
theorem matched_iff_openBehind : Matched ws ↔ openBehind [] ws = some [] := by
  refine ⟨fun h => h.openBehind [], fun h => ?_⟩
  cases opened_of_openBehind h with
  | matched hws => exact hws

/-- Behind a matched word, what matches together with it matches. -/
theorem Matched.of_append (hws : Matched ws) (h : Matched (ws ++ vs)) : Matched vs := by
  rw [matched_iff_openBehind, openBehind_append, hws.openBehind, Option.bind_some] at h
  exact matched_iff_openBehind.mpr h

/-- At a place of a matched word at depth zero, what is read matches. -/
theorem Matched.of_depth (h : Matched (ws ++ vs)) (hdepth : depth ws = 0) : Matched ws := by
  obtain ⟨mid, hmid, -⟩ := exists_openBehind (matched_iff_openBehind.mp h)
  have hlength := depth_eq_length hmid
  rw [hdepth] at hlength
  have hnil : mid = [] := List.length_eq_zero_iff.mp (by simpa using hlength.symm)
  rw [matched_iff_openBehind, hmid, hnil]

theorem Matched.depth_eq (h : Matched ws) : depth ws = 0 := by
  simpa using depth_eq_length (h.openBehind [])

/-- A bracket that clashes is not read. -/
theorem Clash.openBehind (h : Clash ws s) : openBehind [] (ws ++ [s]) = none := by
  obtain ⟨front, inside, o, b, b', rfl, ho, hinside, hs, hne⟩ := h
  rw [openBehind_concat, openBehind_append]
  cases hfront : Syntax.openBehind [] front with
  | none => rfl
  | some bs =>
    have hinner : Syntax.openBehind bs (o :: inside) = some (b :: bs) := by
      rw [Syntax.openBehind, openAfter_opening ho, Option.bind_some]
      exact hinside.openBehind (b :: bs)
    rw [Option.bind_some, hinner, Option.bind_some,
      openAfter_of_not_opens (Token.isEof_of_isPunct hs) (Token.opens_of_closing hs),
      if_pos (Token.closes_of_closing hs)]
    exact if_neg fun hb => hne (Token.eq_of_closing hs hb)

/-- Where everything is read, nothing clashes. -/
theorem not_clash (h : openBehind [] ws = some bs) (hs : vs ++ [s] <+: ws) : ¬Clash vs s := by
  intro hclash
  obtain ⟨rest, rfl⟩ := hs
  obtain ⟨mid, hmid, -⟩ := exists_openBehind h
  rw [hclash.openBehind] at hmid
  cases hmid

end

end ApiDoc.Syntax
