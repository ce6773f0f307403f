import ApiDoc.Proofs.Bracket.Word

/-!
# Bracketed runs, exactly

From an opening bracket on, a bracketed run is taken if and only if there is one, and it is the
shortest run in which brackets match. Otherwise there is an error, at the first closing bracket that
clashes with the innermost open one or, if the source ends before, at the opening bracket:
`skipBalanced_exact`. Round by round, the brackets that are due are those that are open behind the
slots that are taken, and `Ends` says how this can come to an end.
-/

namespace ApiDoc.Syntax

open ApiDoc.Syntax.Parser
open Cursor (facing)

namespace Cursor

/-- The last slot is the end of the source. -/
def Ended (c : Cursor) : Prop := ∃ s ∈ c.slots.getLast?, s.token.isEof = true

/-- The slots from the cursor up to the end of the source. -/
def upToEnd (c : Cursor) : List Slot := c.rest.takeWhile fun s => !s.token.isEof

/-- Slots stand at the cursor, in front of the end of the source, and brackets match in them. -/
structure HasRun (c : Cursor) (ws : List Slot) : Prop where
  ne_nil : ws ≠ []
  initial : ws <+: c.upToEnd
  matched : Matched ws

variable {c : Cursor} {ws more : List Slot} {s : Slot}

/-- However a cursor is moved in the slots of a token list, they end in the end of the source. -/
theorem ended_of_moves {tokens : List Token} (h : (ofTokens tokens).Moves c) : c.Ended := by
  rw [Ended, h.slots_eq, slots_ofTokens]
  exact (Track.ofTokens tokens).ended

theorem Ended.getLast? (h : c.Ended) : ∃ s ∈ c.rest.getLast?, s.token.isEof = true := by
  have hne : c.rest ≠ [] := List.cons_ne_nil _ _
  rwa [Ended, slots, List.getLast?_append_of_ne_nil _ hne] at h

theorem initial_upToEnd (h : c.rest = ws ++ more) (hws : ∀ s ∈ ws, s.token.isEof = false) :
    ws <+: c.upToEnd := by
  rw [upToEnd, h, List.takeWhile_append_of_pos (by simpa using hws)]
  exact List.prefix_append _ _

theorem upToEnd_eq (h : c.rest = ws ++ s :: more) (hws : ∀ s ∈ ws, s.token.isEof = false)
    (hs : s.token.isEof = true) : c.upToEnd = ws := by
  rw [upToEnd, h, List.takeWhile_append_of_pos (by simpa using hws), List.takeWhile_cons, hs]
  exact List.append_nil _

/-- Behind a run, the end of the source is still to come. -/
theorem HasRun.exists_rest (hend : c.Ended) (h : c.HasRun ws) :
    ∃ rest, c.rest = ws ++ rest ∧ rest ≠ [] := by
  obtain ⟨rest, hrest⟩ := h.initial.trans (List.takeWhile_prefix _)
  refine ⟨rest, hrest.symm, ?_⟩
  rintro rfl
  obtain ⟨e, he, heof⟩ := hend.getLast?
  rw [← hrest, List.append_nil] at he
  rw [isEof_of_openBehind (h.matched.openBehind []) e (List.mem_of_getLast? he)] at heof
  cases heof

theorem index_ahead (h : c.rest = ws ++ more) (hmore : more ≠ []) :
    (c.ahead ws.length).index = c.index + ws.length := by
  rw [ahead_eq h hmore, index_facing, List.length_append, List.length_reverse, c.length_before,
    Nat.add_comm]

theorem hasRun_of_matched (h : c.rest = ws ++ more) (hne : ws ≠ []) (hws : Matched ws) :
    c.HasRun ws :=
  ⟨hne, initial_upToEnd h (isEof_of_openBehind (hws.openBehind [])), hws⟩

end Cursor

/-- In front of the end, slots go on. -/
theorem ended_behind {s : Slot} {rest : List Slot} (hs : s.token.isEof = false)
    (h : ∃ e ∈ (s :: rest).getLast?, e.token.isEof = true) :
    rest ≠ [] ∧ ∃ e ∈ rest.getLast?, e.token.isEof = true := by
  cases rest with
  | nil =>
    obtain ⟨e, he, heof⟩ := h
    obtain rfl : s = e := by simpa using he
    rw [hs] at heof
    cases heof
  | cons t rest => exact ⟨List.cons_ne_nil _ _, by rwa [List.getLast?_cons_cons] at h⟩

/-! ## Brackets that are due -/

section

variable {bs bs' : List Bracket} {t : Token} {b : Bracket}

/-- The brackets that are due are those that close the open ones. -/
theorem trackBracket_of_openAfter (hbs : bs ≠ []) (h : openAfter bs t = some bs') :
    trackBracket (bs.map Bracket.closing) t = .ok (bs'.map Bracket.closing) := by
  obtain ⟨b, hb, rfl⟩ | ⟨b, hb, rfl⟩ | ⟨hopens, hcloses, -, rfl⟩ := openAfter_cases h
  · exact trackBracket_of_opens hb
  · rw [List.map_cons, trackBracket_of_closes hb, if_pos rfl]
  · exact trackBracket_other hopens hcloses (by simpa using hbs)

/-- A bracket that cannot be read closes another kind than the innermost open one. -/
theorem trackBracket_of_clash (heof : t.isEof = false) (h : openAfter (b :: bs) t = none) :
    ∃ b' : Bracket, t.isPunct b'.closing = true ∧ b' ≠ b ∧
      trackBracket ((b :: bs).map Bracket.closing) t =
        .error (.wrongBracket b'.closing b.closing) := by
  have hopens : t.opens = false := by
    by_contra hopens
    obtain ⟨b', hb'⟩ := Token.exists_opening (by simpa using hopens)
    rw [openAfter_opening hb'] at h
    cases h
  have hcloses : t.closes = true := by
    by_contra hcloses
    rw [openAfter_other hopens (by simpa using hcloses) heof] at h
    cases h
  obtain ⟨b', hb'⟩ := Token.exists_closing hcloses
  have hne : b' ≠ b := by
    rintro rfl
    rw [openAfter_closing hb'] at h
    cases h
  have hchar : b.closing ≠ b'.closing := by cases b <;> cases b' <;> simp_all [Bracket.closing]
  exact ⟨b', hb', hne, by rw [List.map_cons, trackBracket_of_closes hb', if_neg hchar]⟩

end

/-! ## Ends of a run -/

/-- What comes of taking slots inside the brackets `bs`: all brackets are closed, or one clashes
with the innermost open one, or the source ends. -/
inductive Ends (start : Token) : (bs : List Bracket) → (before rest : List Slot) →
    EStateM.Result ParseError Cursor Unit → Prop
  | closed {bs : List Bracket} {before ws more : List Slot} (hws : openBehind bs ws = some [])
      (hmore : more ≠ []) :
      Ends start bs before (ws ++ more) (.ok () (facing (ws.reverse ++ before) more))
  | clash {bs bs' : List Bracket} {b b' : Bracket} {before ws more : List Slot} {s : Slot}
      {d : Cursor} (hws : openBehind bs ws = some (b :: bs'))
      (hs : s.token.isPunct b'.closing = true) (hne : b' ≠ b) :
      Ends start bs before (ws ++ s :: more)
        (.error ⟨s.token.pos, .wrongBracket b'.closing b.closing⟩ d)
  | unclosed {bs bs' : List Bracket} {before ws more : List Slot} {s : Slot} {d : Cursor}
      (hws : openBehind bs ws = some bs') (hs : s.token.isEof = true) :
      Ends start bs before (ws ++ s :: more) (.error ⟨start.pos, .neverClosed start.text⟩ d)

section

variable {start : Token} {bs bs' : List Bracket} {before rest : List Slot} {s : Slot}

/-- A slot in front changes what is open. -/
theorem Ends.step {result : EStateM.Result ParseError Cursor Unit}
    (hs : openAfter bs s.token = some bs') (h : Ends start bs' (s :: before) rest result) :
    Ends start bs before (s :: rest) result := by
  have hopen : ∀ {ws : List Slot}, openBehind bs (s :: ws) = openBehind bs' ws := by
    intro ws
    rw [openBehind, hs, Option.bind_some]
  cases h with
  | @closed _ ws more hws hmore =>
    have hclosed := @Ends.closed start bs before (s :: ws) more (hopen.trans hws) hmore
    rwa [List.reverse_cons, List.append_assoc] at hclosed
  | clash hws hs hne => exact .clash (hopen.trans hws) hs hne
  | unclosed hws hs => exact .unclosed (hopen.trans hws) hs

/-- Where brackets are due, taking slots comes to one of these ends. -/
theorem ends_iterate (hbs : bs ≠ []) (hend : ∃ s ∈ rest.getLast?, s.token.isEof = true) :
    Ends start bs before rest
      (iterate (bs.map Bracket.closing) (bracketRound start) (facing before rest)) := by
  induction rest generalizing bs before with
  | nil =>
    obtain ⟨s, hs, -⟩ := hend
    cases hs
  | cons s rest ih =>
    obtain ⟨b, outer, rfl⟩ := List.exists_cons_of_ne_nil hbs
    -- one round: the source ends, the bracket is a wrong one, or the run goes on with other
    -- brackets due
    cases heof : s.token.isEof with
    | true =>
      have hround : bracketRound start ((b :: outer).map Bracket.closing)
          (facing before (s :: rest)) =
            .error ⟨start.pos, .neverClosed start.text⟩ (facing before (s :: rest)).next := by
        rw [bracketRound, bump_bind, Cursor.token_facing, headToken_cons, heof]
        rfl
      rw [iterate_of_error hround]
      exact @Ends.unclosed start _ _ _ [] _ _ _ rfl heof
    | false =>
      obtain ⟨hrest, hlast⟩ := ended_behind heof hend
      cases hopen : openAfter (b :: outer) s.token with
      | none =>
        obtain ⟨b', hb', hne, htrack⟩ := trackBracket_of_clash heof hopen
        have hround : bracketRound start ((b :: outer).map Bracket.closing)
            (facing before (s :: rest)) = .error
              ⟨s.token.pos, .wrongBracket b'.closing b.closing⟩ (facing (s :: before) rest) := by
          rw [bracketRound, bump_bind, Cursor.token_facing, headToken_cons, heof,
            Cursor.next_facing heof hrest]
          simp only [htrack]
          rfl
        rw [iterate_of_error hround]
        exact @Ends.clash start _ _ _ _ _ [] _ _ _ rfl hb' hne
      | some bs =>
        have htrack := trackBracket_of_openAfter hbs hopen
        cases bs with
        | nil =>
          rw [iterate_of_done (bracketRound_done heof hrest htrack)]
          have hclosed : openBehind (b :: outer) [s] = some [] := by
            rw [openBehind, hopen]
            rfl
          exact .closed hclosed hrest
        | cons b' bs =>
          rw [iterate_of_next (bracketRound_next heof hrest htrack (by simp))
            (Cursor.remaining_facing_lt hrest)]
          exact (ih (List.cons_ne_nil _ _) hlast).step hopen

end

section

variable {c : Cursor}

/-- The bracket at the cursor is open while the slots behind it are taken. -/
theorem ends_skipBalanced (hend : c.Ended) (hopens : c.token.opens = true) :
    ∃ b : Bracket, (∀ ws, openBehind [] (c.here :: ws) = openBehind [b] ws) ∧
      Ends c.token [b] (c.here :: c.before) c.after (skipBalanced c) := by
  obtain ⟨b, hb⟩ := Token.exists_opening hopens
  have heof : c.here.token.isEof = false := Token.isEof_of_isPunct hb
  obtain ⟨hafter, hlast⟩ := ended_behind heof hend.getLast?
  have hopen : ∀ ws, openBehind [] (c.here :: ws) = openBehind [b] ws := fun ws =>
    congrArg (·.bind fun bs => openBehind bs ws) (openAfter_opening hb)
  refine ⟨b, hopen, ?_⟩
  have hround : bracketRound c.token [] (facing c.before (c.here :: c.after)) =
      .ok (.next [b.closing]) (facing (c.here :: c.before) c.after) :=
    bracketRound_next heof hafter (trackBracket_of_opens hb) (List.cons_ne_nil _ _)
  have hskip : skipBalanced c = iterate [] (bracketRound c.token)
      (facing c.before (c.here :: c.after)) := congrArg _ c.facing_eq.symm
  rw [hskip, iterate_of_next hround (Cursor.remaining_facing_lt hafter)]
  exact ends_iterate (List.cons_ne_nil b []) hlast

/-- What is taken is a run. -/
theorem hasRun_of_skipBalanced (hend : c.Ended) (hopens : c.token.opens = true) {d : Cursor}
    (h : skipBalanced c = .ok () d) : ∃ ws, c.HasRun ws := by
  obtain ⟨b, hb, hends⟩ := ends_skipBalanced hend hopens
  rw [h] at hends
  generalize hafter : c.after = after at hends
  cases hends with
  | @closed _ ws more hws hmore =>
    have hrest : c.rest = (c.here :: ws) ++ more := by rw [Cursor.rest, hafter, List.cons_append]
    exact ⟨_, Cursor.hasRun_of_matched hrest (List.cons_ne_nil _ _)
      (matched_iff_openBehind.mpr ((hb ws).trans hws))⟩

/-- A run that is there is taken, or a shorter one. -/
theorem skipBalanced_of_hasRun (hend : c.Ended) (hopens : c.token.opens = true) {ws : List Slot}
    (h : c.HasRun ws) :
    ∃ vs, c.HasRun vs ∧ vs.length ≤ ws.length ∧ skipBalanced c = .ok () (c.ahead vs.length) := by
  obtain ⟨rest, hrest, hne⟩ := h.exists_rest hend
  have hmatched := h.matched
  -- The cursor is at an opening bracket, so the run starts with a group; that group is taken.
  cases hmatched with
  | nil => exact absurd rfl h.ne_nil
  | @single _ s ss hnot =>
    have hhere : c.here = s := by
      rw [Cursor.rest, List.cons_append] at hrest
      exact (List.cons.inj hrest).1
    rw [← hhere] at hnot
    have hopens' : c.here.token.opens = true := hopens
    rw [hnot] at hopens'
    cases hopens'
  | @group _ b o cl inside ss ho hc hinside hss =>
    have hsplit : c.rest = (o :: (inside ++ [cl])) ++ (ss ++ rest) := by simp [hrest]
    have hbehind : ss ++ rest ≠ [] := List.append_ne_nil_of_right_ne_nil ss hne
    have hread := @skipBalanced_facing c.before _ _ _ _ _ ho hc hinside hbehind
    have hplace : o :: (inside ++ cl :: (ss ++ rest)) = c.rest := by simp [hrest]
    rw [hplace, c.facing_eq] at hread
    refine ⟨o :: (inside ++ [cl]), Cursor.hasRun_of_matched hsplit (List.cons_ne_nil _ _)
      (.group ho hc hinside .nil), by simp, ?_⟩
    rw [hread, Cursor.ahead_eq hsplit hbehind]
    simp

/-- Of the runs that are there, the shortest one is taken. -/
theorem exists_shortest (hend : c.Ended) (hopens : c.token.opens = true) {d : Cursor}
    (h : skipBalanced c = .ok () d) :
    ∃ ws, c.HasRun ws ∧ (∀ vs, c.HasRun vs → ws.length ≤ vs.length) ∧ d = c.ahead ws.length := by
  have htaken : ∀ {vs}, c.HasRun vs → ∃ ws, c.HasRun ws ∧ ws.length ≤ vs.length ∧
      d = c.ahead ws.length ∧ d.index = c.index + ws.length := by
    intro vs hvs
    obtain ⟨ws, hws, hle, hread⟩ := skipBalanced_of_hasRun hend hopens hvs
    obtain ⟨rest, hrest, hne⟩ := hws.exists_rest hend
    obtain ⟨-, rfl⟩ := EStateM.Result.ok.inj (h.symm.trans hread)
    exact ⟨ws, hws, hle, rfl, Cursor.index_ahead hrest hne⟩
  obtain ⟨vs, hvs⟩ := hasRun_of_skipBalanced hend hopens h
  obtain ⟨ws, hws, -, hd, hindex⟩ := htaken hvs
  refine ⟨ws, hws, fun us hus => ?_, hd⟩
  -- a shorter run would be taken up to another place
  obtain ⟨ws', -, hle, -, hindex'⟩ := htaken hus
  omega

/-- If there is no run, the error is at the first bracket that clashes, or at the opening one. -/
theorem skipBalanced_error (hend : c.Ended) (hopens : c.token.opens = true)
    (hnone : ¬∃ ws, c.HasRun ws) :
    ∃ e d, skipBalanced c = .error e d ∧ e.fault.isLexical = false ∧
      ((∃ ws s, ws ++ [s] <+: c.upToEnd ∧ Clash ws s ∧ (∀ vs u, vs ++ [u] <+: ws → ¬Clash vs u) ∧
          e.pos = s.token.pos) ∨
        (∀ ws s, ws ++ [s] <+: c.upToEnd → ¬Clash ws s) ∧ e.pos = c.pos) := by
  obtain ⟨b, hb, hends⟩ := ends_skipBalanced hend hopens
  generalize hresult : skipBalanced c = result at hends
  generalize hafter : c.after = after at hends
  -- How the loop ended says which error it is.
  cases hends with
  | closed hws hmore => exact absurd (hasRun_of_skipBalanced hend hopens hresult) hnone
  | @clash bs innermost b' _ ws more s d hws hs hne =>
    have hopen := (hb ws).trans hws
    have hrest : c.rest = (c.here :: ws ++ [s]) ++ more := by simp [Cursor.rest, hafter]
    refine ⟨_, d, rfl, rfl, .inl ⟨c.here :: ws, s, Cursor.initial_upToEnd hrest ?_, ?_,
      fun vs u hvs => not_clash hopen hvs, rfl⟩⟩
    · refine List.forall_mem_append.mpr ⟨isEof_of_openBehind hopen, ?_⟩
      exact List.forall_mem_singleton.mpr (Token.isEof_of_isPunct hs)
    · -- The innermost open bracket is the one that the closing one clashes with.
      generalize c.here :: ws = word at hopen
      cases opened_of_openBehind hopen with
      | @cons _ _ o front inside hfront ho hinside =>
        exact ⟨front, inside, o, innermost, b', rfl, ho, hinside, hs, hne⟩
  | @unclosed bs _ ws more s d hws hs =>
    have hopen := (hb ws).trans hws
    have hrest : c.rest = (c.here :: ws) ++ s :: more := by simp [Cursor.rest, hafter]
    refine ⟨_, d, rfl, rfl, .inr ⟨fun vs u hvs => not_clash hopen ?_, rfl⟩⟩
    rwa [Cursor.upToEnd_eq hrest (isEof_of_openBehind hopen) hs] at hvs

/-- **Bracketed runs are taken exactly.** From an opening bracket on, a run is taken if and only if
brackets match in some slots that stand there, and the cursor then stands behind the shortest ones.
Otherwise there is an error of the grammar, at the first closing bracket that is of another kind
than the innermost open one or, if there is none up to the end of the source, at the opening
bracket. -/
theorem skipBalanced_exact (hend : c.Ended) (hopens : c.token.opens = true) :
    ((∃ d, skipBalanced c = .ok () d) ↔ ∃ ws, c.HasRun ws) ∧
    (∀ d, skipBalanced c = .ok () d → ∃ ws, c.HasRun ws ∧
      (∀ vs, c.HasRun vs → ws.length ≤ vs.length) ∧ d = c.ahead ws.length) ∧
    ((¬∃ ws, c.HasRun ws) → ∃ e d, skipBalanced c = .error e d ∧ e.fault.isLexical = false ∧
      ((∃ ws s, ws ++ [s] <+: c.upToEnd ∧ Clash ws s ∧ (∀ vs u, vs ++ [u] <+: ws → ¬Clash vs u) ∧
          e.pos = s.token.pos) ∨
        (∀ ws s, ws ++ [s] <+: c.upToEnd → ¬Clash ws s) ∧ e.pos = c.pos)) := by
  refine ⟨⟨?_, ?_⟩, ?_, skipBalanced_error hend hopens⟩
  · rintro ⟨d, h⟩
    exact hasRun_of_skipBalanced hend hopens h
  · rintro ⟨ws, hws⟩
    obtain ⟨vs, -, -, h⟩ := skipBalanced_of_hasRun hend hopens hws
    exact ⟨_, h⟩
  · intro d h
    exact exists_shortest hend hopens h

end

/-- The tokens of `([)]`. -/
def crossing : List Token :=
  [⟨.punct, "(", ⟨1, 1⟩, false⟩, ⟨.punct, "[", ⟨1, 2⟩, false⟩, ⟨.punct, ")", ⟨1, 3⟩, false⟩,
    ⟨.punct, "]", ⟨1, 4⟩, false⟩, ⟨.eof, "", ⟨1, 5⟩, false⟩]

theorem skipBalanced_exact_crossing :
    (Cursor.ofTokens crossing).Ended ∧ (Cursor.ofTokens crossing).token.opens = true ∧
    (¬∃ ws, (Cursor.ofTokens crossing).HasRun ws) ∧
    (∃ e d, skipBalanced (Cursor.ofTokens crossing) = .error e d ∧ e.fault.isLexical = false) ∧
    skipBalanced.read (Cursor.ofTokens crossing) = .error ⟨⟨1, 3⟩, .wrongBracket ')' ']'⟩ := by
  have hend : (Cursor.ofTokens crossing).Ended := Cursor.ended_of_moves .stay
  have hopens : (Cursor.ofTokens crossing).token.opens = true := by decide
  have hread : skipBalanced.read (Cursor.ofTokens crossing) =
      .error ⟨⟨1, 3⟩, .wrongBracket ')' ']'⟩ := by
    decide +kernel
  obtain ⟨htaken, -, herror⟩ := skipBalanced_exact hend hopens
  have hnone : ¬∃ ws, (Cursor.ofTokens crossing).HasRun ws := by
    rw [← htaken]
    rintro ⟨d, h⟩
    rw [Parser.read, h] at hread
    cases hread
  obtain ⟨e, d, h, hfault, -⟩ := herror hnone
  exact ⟨hend, hopens, hnone, ⟨e, d, h, hfault⟩, hread⟩

end ApiDoc.Syntax
