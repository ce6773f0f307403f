import ApiDoc.Proofs.Bracket.Run

/-!
# Taking slots up to a stop

Slots are taken one by one, and bracketed runs as a whole, up to the first place outside brackets
where the source ends, a bracket closes, or a given test says so: `skipUntil_exact`. Each round
passes over the shortest word in which brackets match (`untilRound_cases`), so no place outside
brackets is left out.
-/

namespace ApiDoc.Syntax

open ApiDoc.Syntax.Parser

/-! ## Places ahead -/

theorem depth_append (ws vs : List Slot) : depth (ws ++ vs) = depth ws + depth vs := by
  simp only [depth, List.countP_append]
  omega

namespace Cursor

variable {c : Cursor} {m n : Nat}

theorem ahead_add (m n : Nat) (c : Cursor) : (c.ahead m).ahead n = c.ahead (m + n) := by
  induction m generalizing c with
  | zero => exact congrArg (c.ahead ·) (Nat.zero_add n).symm
  | succ m ih =>
    obtain ⟨before, here, after, index, remaining, hb, ha⟩ := c
    cases after with
    | nil => cases n <;> rfl
    | cons s after => rw [ahead, ih, Nat.succ_add, ahead]

theorem drop_rest_ne_nil (h : n ≤ c.remaining) : c.rest.drop n ≠ [] := by
  refine List.ne_nil_of_length_pos ?_
  rw [List.length_drop, rest, List.length_cons, c.length_after]
  omega

theorem ahead_eq_facing (h : n ≤ c.remaining) :
    c.ahead n = facing ((c.rest.take n).reverse ++ c.before) (c.rest.drop n) := by
  have hlt := List.length_lt_of_drop_ne_nil (drop_rest_ne_nil h)
  have hahead := ahead_eq (List.take_append_drop n c.rest).symm (drop_rest_ne_nil h)
  rwa [List.length_take_of_le (Nat.le_of_lt hlt)] at hahead

theorem rest_ahead (h : n ≤ c.remaining) : (c.ahead n).rest = c.rest.drop n := by
  rw [ahead_eq_facing h]
  exact rest_facing (drop_rest_ne_nil h)

theorem remaining_ahead (h : n ≤ c.remaining) : (c.ahead n).remaining = c.remaining - n := by
  rw [ahead_eq_facing h, remaining_facing, List.length_drop, rest, List.length_cons, c.length_after]
  omega

theorem HasRun.length_le {ws : List Slot} (hend : c.Ended) (h : c.HasRun ws) :
    ws.length ≤ c.remaining := by
  obtain ⟨rest, hrest, hne⟩ := h.exists_rest hend
  have hcount := congrArg List.length hrest
  have hmore := List.length_pos_iff.mpr hne
  rw [Cursor.rest, List.length_cons, c.length_after, List.length_append] at hcount
  omega

theorem Ended.ahead (h : c.Ended) (n : Nat) : (c.ahead n).Ended := by
  rwa [Ended, slots_ahead]

end Cursor

/-! ## Rounds -/

/-- Taking slots stops at the cursor: the source ends there, or the test says so, or a bracket
closes. -/
def isStop (stop : Cursor → Bool) (c : Cursor) : Bool :=
  c.token.isEof || stop c || c.token.closes

section

variable {stop : Cursor → Bool} {c : Cursor}

theorem untilRound_of_isStop (h : isStop stop c = true) :
    untilRound stop () c = .ok (.done ()) c := by
  rw [untilRound, get_bind]
  cases hfirst : c.token.isEof || stop c with
  | true => rfl
  | false =>
    have hcloses : c.token.closes = true := by rwa [isStop, hfirst, Bool.false_or] at h
    obtain ⟨b, hb⟩ := Token.exists_closing hcloses
    rw [Token.opens_of_closing hb, hcloses]
    rfl

/-- What a round can do where it does not stop: it passes over the shortest run, or it fails at a
bracket with no run. A slot that is no bracket is a run. -/
theorem untilRound_cases (hend : c.Ended) (h : isStop stop c = false) :
    (∃ ws, c.HasRun ws ∧ (∀ vs, c.HasRun vs → ws.length ≤ vs.length) ∧
      untilRound stop () c = .ok (.next ()) (c.ahead ws.length)) ∨
    (c.token.opens = true ∧ (¬∃ ws, c.HasRun ws) ∧
      ∃ e d, skipBalanced c = .error e d ∧ untilRound stop () c = .error e d) := by
  obtain ⟨hfirst, hcloses⟩ := Bool.or_eq_false_iff.mp h
  have heof : c.here.token.isEof = false := (Bool.or_eq_false_iff.mp hfirst).1
  cases hopens : c.token.opens with
  | true =>
    have hround : untilRound stop () c = (skipBalanced >>= fun _ => pure (.next ())) c := by
      rw [untilRound, get_bind, hfirst, hopens]
      rfl
    -- a run is found here exactly if there is one, and then the shortest
    by_cases hrun : ∃ ws, c.HasRun ws
    · obtain ⟨vs, hvs⟩ := hrun
      obtain ⟨_, -, -, hskip⟩ := skipBalanced_of_hasRun hend hopens hvs
      obtain ⟨ws, hws, hleast, hplace⟩ := exists_shortest hend hopens hskip
      rw [hplace] at hskip
      exact .inl ⟨ws, hws, hleast, hround.trans (bind_of_ok hskip)⟩
    · obtain ⟨e, d, hskip, -⟩ := skipBalanced_error hend hopens hrun
      exact .inr ⟨rfl, hrun, e, d, hskip, hround.trans (bind_of_error hskip)⟩
  | false =>
    obtain ⟨hafter, -⟩ := ended_behind heof hend.getLast?
    have hrest : c.rest = [c.here] ++ c.after := rfl
    have hrun : c.HasRun [c.here] := Cursor.hasRun_of_matched hrest (List.cons_ne_nil _ _)
      (.single hopens hcloses heof trivial .nil)
    refine .inl ⟨[c.here], hrun, fun vs hvs => List.length_pos_iff.mpr hvs.ne_nil, ?_⟩
    have hnext : c.next = c.ahead [c.here].length := by
      rw [Cursor.ahead_eq hrest hafter]
      conv_lhs => rw [← c.facing_eq]
      exact Cursor.next_facing heof hafter
    rw [untilRound, get_bind, hfirst, hopens, hcloses, ← hnext]
    rfl

end

/-! ## Stops -/

/-- A stop `n` slots ahead, outside brackets: from the cursor up to it, as many brackets close as
open. -/
structure Halts (stop : Cursor → Bool) (c : Cursor) (n : Nat) : Prop where
  le_remaining : n ≤ c.remaining
  depth_eq : depth (c.rest.take n) = 0
  isStop : isStop stop (c.ahead n) = true

/-- A bracket that opens `n` slots ahead, outside brackets, and is not closed by a run. -/
structure Unclosed (c : Cursor) (n : Nat) : Prop where
  le_remaining : n ≤ c.remaining
  depth_eq : depth (c.rest.take n) = 0
  opens : (c.ahead n).token.opens = true
  no_run : ¬∃ ws, (c.ahead n).HasRun ws

section

variable {stop : Cursor → Bool} {c : Cursor} {m n : Nat}

theorem take_rest_add (h : m ≤ c.remaining) (n : Nat) :
    c.rest.take (m + n) = c.rest.take m ++ (c.ahead m).rest.take n := by
  rw [Cursor.rest_ahead h, List.take_add]

/-- From a place outside brackets to one further on there is a run, if brackets match up to the
second place. -/
theorem exists_run_between (hn : n ≤ c.remaining) (h : Matched (c.rest.take n)) (hlt : m < n)
    (hdepth : depth (c.rest.take m) = 0) : ∃ ws, (c.ahead m).HasRun ws := by
  have hm : m ≤ c.remaining := by omega
  have hsplit := take_rest_add hm (n - m)
  rw [Nat.add_sub_cancel' (Nat.le_of_lt hlt)] at hsplit
  rw [hsplit] at h
  have hbetween : Matched ((c.ahead m).rest.take (n - m)) := (h.of_depth hdepth).of_append h
  refine ⟨_, Cursor.hasRun_of_matched (List.take_append_drop (n - m) _).symm ?_ hbetween⟩
  refine List.ne_nil_of_length_pos ?_
  rw [Cursor.rest, List.length_take, List.length_cons]
  omega

/-- Between the start and the end of the shortest run no place is outside brackets, so the first
stop behind it is the first stop. -/
theorem not_halts_of_hasRun {ws rest : List Slot} (hrest : c.rest = ws ++ rest)
    (hm : ws.length ≤ c.remaining) (hstop : isStop stop c = false) (hws : c.HasRun ws)
    (hleast : ∀ vs, c.HasRun vs → ws.length ≤ vs.length)
    (hbefore : ∀ k < n, ¬Halts stop (c.ahead ws.length) k) :
    ∀ k < ws.length + n, ¬Halts stop c k := by
  intro k hk hhalts
  have htake : c.rest.take ws.length = ws := by rw [hrest, List.take_left]
  rcases Nat.eq_zero_or_pos k with rfl | hpositive
  · have hhere : isStop stop c = true := hhalts.isStop
    rw [hstop] at hhere
    cases hhere
  rcases Nat.lt_or_ge k ws.length with hlt | hge
  · -- inside the run: what stands in front would be a shorter run
    have hinside : c.rest.take k ++ ws.drop k = ws := by
      rw [hrest, List.take_append_of_le_length (Nat.le_of_lt hlt), List.take_append_drop]
    have hmatched : Matched (c.rest.take k) := by
      have hwhole := hws.matched
      rw [← hinside] at hwhole
      exact hwhole.of_depth hhalts.depth_eq
    have hlength : (c.rest.take k).length = k := by
      rw [hrest, List.take_append_of_le_length (Nat.le_of_lt hlt),
        List.length_take_of_le (Nat.le_of_lt hlt)]
    have hshorter := hleast _ (Cursor.hasRun_of_matched (List.take_append_drop k c.rest).symm
      (List.ne_nil_of_length_pos (by omega)) hmatched)
    omega
  · -- behind the run: the place is outside brackets counted from there as well
    obtain ⟨j, rfl⟩ := Nat.exists_eq_add_of_le hge
    have hremaining := Cursor.remaining_ahead hm
    have hle := hhalts.le_remaining
    have hdepth := hhalts.depth_eq
    rw [take_rest_add hm, depth_append, htake, hws.matched.depth_eq, Int.zero_add] at hdepth
    refine hbefore j (by omega) ⟨by omega, hdepth, ?_⟩
    rw [Cursor.ahead_add]
    exact hhalts.isStop

/-- Taking slots comes to a place outside brackets with no stop in front of it. It stops there, or
it fails there at a bracket that no run closes. -/
theorem skipUntil_cases (hend : c.Ended) :
    ∃ n, n ≤ c.remaining ∧ Matched (c.rest.take n) ∧ (∀ k < n, ¬Halts stop c k) ∧
      ((isStop stop (c.ahead n) = true ∧ skipUntil stop c = .ok () (c.ahead n)) ∨
        (isStop stop (c.ahead n) = false ∧ (c.ahead n).token.opens = true ∧
          (¬∃ ws, (c.ahead n).HasRun ws) ∧
          ∃ e d, skipBalanced (c.ahead n) = .error e d ∧ skipUntil stop c = .error e d)) := by
  induction hlength : c.remaining using Nat.strongRecOn generalizing c with
  | _ length ih =>
    unfold skipUntil
    cases hstop : isStop stop c with
    | true =>
      refine ⟨0, Nat.zero_le _, .nil, fun k hk => absurd hk (Nat.not_lt_zero k), .inl ?_⟩
      exact ⟨hstop, iterate_of_done (untilRound_of_isStop hstop)⟩
    | false =>
      rcases untilRound_cases hend hstop with ⟨ws, hws, hleast, hround⟩ | ⟨hopens, hnone, e, d, h⟩
      · obtain ⟨rest, hrest, -⟩ := hws.exists_rest hend
        have hpositive := List.length_pos_iff.mpr hws.ne_nil
        have hm := hws.length_le hend
        have hremaining := Cursor.remaining_ahead hm
        -- behind the run the same is true, and no place inside the run is one to stop at
        obtain ⟨n, hn, hmatched, hbefore, hresult⟩ := ih (c.ahead ws.length).remaining (by omega)
          (hend.ahead _) rfl
        rw [Cursor.ahead_add] at hresult
        refine ⟨ws.length + n, by omega, ?_, ?_, ?_⟩
        · rw [take_rest_add hm, hrest, List.take_left]
          exact hws.matched.append hmatched
        · exact not_halts_of_hasRun hrest hm hstop hws hleast hbefore
        · rwa [iterate_of_next hround (by omega)]
      · refine ⟨0, Nat.zero_le _, .nil, fun k hk => absurd hk (Nat.not_lt_zero k), .inr ?_⟩
        exact ⟨hstop, hopens, hnone, e, d, h.1, iterate_of_error h.2⟩

/-- What holds of the slots of a matched word at depth zero holds of those outside its brackets. -/
theorem Balanced.of_depth {P Q : Slot → Prop} {ws : List Slot} (h : Balanced Slot.token Q ws)
    (hP : ∀ vs s us, ws = vs ++ s :: us → depth vs = 0 → P s) : Balanced Slot.token P ws := by
  induction h with
  | nil => exact .nil
  | @single _ s ss hopens hcloses heof _ _ ih =>
    refine .single hopens hcloses heof (hP [] s ss rfl rfl) (ih fun vs t us hss hdepth => ?_)
    refine hP (s :: vs) t us (by rw [hss, List.cons_append]) ?_
    simpa [depth, hopens, hcloses] using hdepth
  | @group _ b o c inside ss ho hc hinside _ _ ih =>
    refine .group ho hc hinside (ih fun vs t us hss hdepth => ?_)
    refine hP (o :: (inside ++ [c]) ++ vs) t us (by simp [hss]) ?_
    have hgroup : Matched (o :: (inside ++ [c])) := .group ho hc hinside .nil
    rw [depth_append, hgroup.depth_eq, hdepth, Int.add_zero]

/-- What is taken up to a token where `p` holds is balanced, and `p` holds of no token outside
brackets in it. -/
theorem exists_taken {p : Token → Bool} {d : Cursor} (hend : c.Ended)
    (h : skipUntil (fun c => p c.token) c = .ok () d) :
    ∃ n, n ≤ c.remaining ∧ d = c.ahead n ∧
      Balanced Slot.token (fun s => p s.token = false) (c.rest.take n) := by
  obtain ⟨n, hn, hmatched, hbefore, hresult⟩ := @skipUntil_cases (fun c => p c.token) c hend
  rw [h] at hresult
  rcases hresult with ⟨-, hd⟩ | ⟨-, -, -, e, d, -, herror⟩
  · obtain ⟨-, rfl⟩ := EStateM.Result.ok.inj hd
    refine ⟨n, hn, rfl, Balanced.of_depth hmatched fun vs s us hsplit hdepth => ?_⟩
    have hlt : vs.length < n := by
      have hlength := congrArg List.length hsplit
      rw [List.length_take, List.length_append, List.length_cons] at hlength
      omega
    have hm : vs.length ≤ c.remaining := Nat.le_of_lt (Nat.lt_of_lt_of_le hlt hn)
    have hvs : c.rest.take vs.length = vs := by
      rw [← Nat.min_eq_left (Nat.le_of_lt hlt), ← List.take_take, hsplit, List.take_left]
    have hhere : (c.ahead vs.length).here = s := by
      have hsplit' : c.rest = vs ++ s :: (us ++ c.rest.drop n) := by
        rw [← List.cons_append, ← List.append_assoc, ← hsplit, List.take_append_drop]
      have hrest := Cursor.rest_ahead hm
      rw [hsplit', List.drop_left] at hrest
      exact (List.cons.inj hrest).1
    -- otherwise taking would have stopped at this place
    refine Bool.eq_false_iff.mpr fun hp => hbefore vs.length hlt ⟨hm, by rw [hvs, hdepth], ?_⟩
    rw [isStop, Cursor.token, hhere, hp, Bool.or_true]
    rfl
  · cases herror

/-- **Taking slots stops at the first place outside brackets where it may.** If it succeeds,
brackets match in what is taken, and the cursor stands at the first place at depth zero where the
source ends, the test holds or a bracket closes. It fails if and only if a bracket opens at depth
zero in front of all these places and no run closes it, and then with the error of taking a run at
the first such bracket. -/
theorem skipUntil_exact (stop : Cursor → Bool) (hend : c.Ended) :
    (∀ d, skipUntil stop c = .ok () d → ∃ n, d = c.ahead n ∧ Matched (c.rest.take n) ∧
      Halts stop c n ∧ ∀ k < n, ¬Halts stop c k) ∧
    ((∃ e d, skipUntil stop c = .error e d) ↔
      ∃ m, Unclosed c m ∧ ∀ n ≤ m, ¬Halts stop c n) ∧
    (∀ e d, skipUntil stop c = .error e d → ∃ m, Unclosed c m ∧ (∀ n ≤ m, ¬Halts stop c n) ∧
      (∀ k < m, ¬Unclosed c k) ∧ skipBalanced (c.ahead m) = .error e d) := by
  obtain ⟨n, hn, hmatched, hbefore, hresult⟩ := @skipUntil_cases stop c hend
  -- in what is taken, every bracket outside brackets is closed
  have hclosed : ∀ k < n, ¬Unclosed c k := fun k hk hunclosed =>
    hunclosed.no_run (exists_run_between hn hmatched hk hunclosed.depth_eq)
  rcases hresult with ⟨hstop, hok⟩ | ⟨hstop, hopens, hnone, e, d, hskip, herror⟩
  · have hhalts : Halts stop c n := ⟨hn, hmatched.depth_eq, hstop⟩
    rw [hok]
    refine ⟨?_, ⟨?_, ?_⟩, ?_⟩
    · rintro d h
      cases h
      exact ⟨n, rfl, hmatched, hhalts, hbefore⟩
    · rintro ⟨e, d, h⟩
      cases h
    · rintro ⟨m, hunclosed, hnot⟩
      have hlt : m < n := Nat.lt_of_not_le fun hle => hnot n hle hhalts
      exact absurd hunclosed (hclosed m hlt)
    · intro e d h
      cases h
  · have hunclosed : Unclosed c n := ⟨hn, hmatched.depth_eq, hopens, hnone⟩
    have hnot : ∀ k ≤ n, ¬Halts stop c k := by
      intro k hk hhalts
      rcases Nat.lt_or_eq_of_le hk with hlt | rfl
      · exact hbefore k hlt hhalts
      · rw [hhalts.isStop] at hstop
        cases hstop
    rw [herror]
    refine ⟨?_, ⟨?_, ?_⟩, ?_⟩
    · intro d h
      cases h
    · intro _
      exact ⟨n, hunclosed, hnot⟩
    · intro _
      exact ⟨e, d, rfl⟩
    · rintro e d h
      cases h
      exact ⟨n, hunclosed, hnot, hclosed, hskip⟩

end

/-- The tokens of `a(b,[c]),d`. -/
def callThenComma : List Token :=
  [⟨.ident, "a", ⟨1, 1⟩, false⟩, ⟨.punct, "(", ⟨1, 2⟩, false⟩, ⟨.ident, "b", ⟨1, 3⟩, false⟩,
    ⟨.punct, ",", ⟨1, 4⟩, false⟩, ⟨.punct, "[", ⟨1, 5⟩, false⟩, ⟨.ident, "c", ⟨1, 6⟩, false⟩,
    ⟨.punct, "]", ⟨1, 7⟩, false⟩, ⟨.punct, ")", ⟨1, 8⟩, false⟩, ⟨.punct, ",", ⟨1, 9⟩, false⟩,
    ⟨.ident, "d", ⟨1, 10⟩, false⟩, ⟨.eof, "", ⟨1, 11⟩, false⟩]

theorem skipUntil_exact_callThenComma :
    (Cursor.ofTokens callThenComma).Ended ∧
    ∃ n d, skipUntil (fun c => c.token.isPunct ',') (Cursor.ofTokens callThenComma) = .ok () d ∧
      d = (Cursor.ofTokens callThenComma).ahead n ∧ d.pos = ⟨1, 9⟩ ∧
      Halts (fun c => c.token.isPunct ',') (Cursor.ofTokens callThenComma) n ∧
      ∀ k < n, ¬Halts (fun c => c.token.isPunct ',') (Cursor.ofTokens callThenComma) k := by
  have hend : (Cursor.ofTokens callThenComma).Ended := Cursor.ended_of_moves .stay
  have hpos : (skipUntil (fun c => c.token.isPunct ',') >>= fun _ => pos).read
      (Cursor.ofTokens callThenComma) = .ok ⟨1, 9⟩ := by
    decide +kernel
  obtain ⟨d, hread⟩ := read_ok.mp hpos
  obtain ⟨⟨⟩, e, hskip, hplace⟩ := bind_ok.mp hread
  obtain ⟨n, hn, -, hhalts, hbefore⟩ := (skipUntil_exact _ hend).1 e hskip
  exact ⟨hend, n, e, hskip, hn, (EStateM.Result.ok.inj hplace).1, hhalts, hbefore⟩

end ApiDoc.Syntax
