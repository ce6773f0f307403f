import ApiDoc.Proofs.Syntax.Bounds

/-!
# Doc comments belong to the next token

The slots of a token list are its tokens without the doc comments, and the end of the source behind
them. A comment goes to the next token that is neither a comment nor a line end, unless another
comment comes before that token: `ofTokens_attaches_comments`. Each token makes its slot and leaves
to the next one the last comment that has no token yet (`Slot.attachFrom_step`), so comments are
attached to the parts of a list one after the other (`Slot.attachFrom_append`).
-/

namespace ApiDoc.Syntax

variable {tokens ts : List Token} {j : Nat} {t : Token} {text : String}

/-- Is the token a doc comment? -/
def Token.isComment (t : Token) : Bool := t.kind = .docComment

/-- The tokens of a list that are no doc comments. -/
def withoutComments (tokens : List Token) : List Token := tokens.filter fun t => !t.isComment

/-- The texts of the doc comments of a list. -/
def commentTexts (tokens : List Token) : List String :=
  (tokens.filter Token.isComment).map Token.text

/-- The end of the source that is put behind tokens: none if they end in one. -/
def endBehind (tokens : List Token) : List Token :=
  if tokens.getLast?.any Token.isEof then []
  else [⟨.eof, "", (tokens.getLast?.map Token.pos).getD {}, false⟩]

/-- The comment at place `i` of a token list belongs to the token at place `j`, which is neither a
comment nor a line end: it is the last comment behind the previous such token. -/
structure Attached (tokens : List Token) (i j : Nat) : Prop where
  lt : i < j
  isComment : ∃ t ∈ tokens[i]?, t.kind = .docComment
  isToken : ∃ t ∈ tokens[j]?, t.kind ≠ .docComment ∧ t.kind ≠ .newline
  behind : ∀ k, i < k → k < j → ∀ t ∈ tokens[k]?, t.kind = .docComment ∨ t.kind = .newline
  last : ∀ k, i < k → k < j → ∀ t ∈ tokens[k]?, t.kind ≠ .docComment

/-- A comment belongs to at most one token. -/
theorem Attached.unique {i j' : Nat} (h : Attached tokens i j) (h' : Attached tokens i j') :
    j = j' := by
  obtain ⟨t, ht, hdoc, hline⟩ := h.isToken
  obtain ⟨t', ht', hdoc', hline'⟩ := h'.isToken
  rcases Nat.lt_trichotomy j j' with hlt | heq | hlt
  · exact absurd (h'.behind j h.lt hlt t ht) (by simp [hdoc, hline])
  · exact heq
  · exact absurd (h.behind j' h'.lt hlt t' ht') (by simp [hdoc', hline'])

/-! ## Comments without a token -/

/-- The last comment that has no token yet behind a token, if `pending` had none in front of it. -/
def pendingAfter (pending : Option String) (t : Token) : Option String :=
  if t.kind = .docComment then some t.text else if t.kind = .newline then pending else none

/-- The last comment that has no token yet behind a list of tokens. -/
def pendingBehind (pending : Option String) (ts : List Token) : Option String :=
  ts.foldl pendingAfter pending

theorem pendingBehind_cons (pending : Option String) (t : Token) (ts : List Token) :
    pendingBehind pending (t :: ts) = pendingBehind (pendingAfter pending t) ts := rfl

/-- A list that ends in a comment with the given text and lines behind it. -/
def EndsInComment (ts : List Token) (text : String) : Prop :=
  ∃ front comment lines, ts = front ++ comment :: lines ∧ comment.kind = .docComment ∧
    comment.text = text ∧ ∀ t ∈ lines, t.kind = .newline

theorem endsInComment_cons :
    EndsInComment (t :: ts) text ↔
      (t.kind = .docComment ∧ t.text = text ∧ ∀ u ∈ ts, u.kind = .newline) ∨
        EndsInComment ts text := by
  constructor
  · rintro ⟨front, comment, lines, heq, hkind, htext, hlines⟩
    rcases List.cons_eq_append_iff.1 heq with ⟨rfl, hts⟩ | ⟨front', rfl, hts⟩
    · obtain ⟨rfl, rfl⟩ := List.cons.inj hts
      exact .inl ⟨hkind, htext, hlines⟩
    · exact .inr ⟨front', comment, lines, hts, hkind, htext, hlines⟩
  · rintro (⟨hkind, htext, hlines⟩ | ⟨front, comment, lines, rfl, h⟩)
    · exact ⟨[], t, ts, rfl, hkind, htext, hlines⟩
    · exact ⟨t :: front, comment, lines, rfl, h⟩

/-- A comment is without a token behind a list if only line ends come after it. -/
theorem pendingBehind_eq_some_iff {pending : Option String} :
    pendingBehind pending ts = some text ↔
      (pending = some text ∧ ∀ t ∈ ts, t.kind = .newline) ∨ EndsInComment ts text := by
  induction ts generalizing pending with
  | nil => simp [pendingBehind, EndsInComment]
  | cons t ts ih =>
    rw [pendingBehind_cons, ih, endsInComment_cons]
    by_cases hdoc : t.kind = .docComment
    · simp [pendingAfter, hdoc]
    · by_cases hline : t.kind = .newline <;> simp [pendingAfter, hdoc, hline]

/-- Between a comment and its token there are only line ends. -/
theorem Attached.between {i k : Nat} (h : Attached tokens i j) (hik : i < k) (hkj : k < j)
    (ht : tokens[k]? = some t) : t.kind = .newline :=
  (h.behind k hik hkj t ht).resolve_left (h.last k hik hkj t ht)

/-- What is without a token in front of a place belongs to the token there. -/
theorem endsInComment_take_iff (ht : tokens[j]? = some t) (hdoc : t.kind ≠ .docComment)
    (hline : t.kind ≠ .newline) :
    EndsInComment (tokens.take j) text ↔
      ∃ i comment, tokens[i]? = some comment ∧ comment.text = text ∧ Attached tokens i j := by
  constructor
  · rintro ⟨front, comment, lines, heq, hkind, htext, hlines⟩
    -- the comment stands at the place where the part in front of it ends
    have hget : ∀ k, k < j → tokens[k]? = (front ++ comment :: lines)[k]? := fun k hk => by
      rw [← heq, List.getElem?_take_of_lt hk]
    have hj : front.length < j := by
      have hlength := congrArg List.length heq
      grind
    have hcomment : tokens[front.length]? = some comment := by simp [hget _ hj]
    have hbetween : ∀ k, front.length < k → k < j → ∀ u ∈ tokens[k]?, u.kind = .newline := by
      intro k hik hkj u hu
      obtain ⟨n, rfl⟩ := Nat.exists_eq_add_of_lt hik
      rw [hget _ hkj, List.getElem?_append_right (by omega),
        show front.length + n + 1 - front.length = n + 1 by omega, List.getElem?_cons_succ] at hu
      exact hlines u (List.mem_of_getElem? hu)
    exact ⟨front.length, comment, hcomment, htext, hj, ⟨comment, hcomment, hkind⟩,
      ⟨t, ht, hdoc, hline⟩, fun k hik hkj u hu => .inr (hbetween k hik hkj u hu),
      fun k hik hkj u hu => by simp [hbetween k hik hkj u hu]⟩
  · rintro ⟨i, comment, hcomment, htext, h⟩
    obtain ⟨u, hu, hkind⟩ := h.isComment
    obtain rfl : comment = u := Option.some.inj (hcomment.symm.trans hu)
    -- what is between the comment and the token are line ends, so the tokens before it end in the
    -- comment
    have hcomment' : (tokens.take j)[i]? = some comment := by
      rw [List.getElem?_take_of_lt h.lt, hcomment]
    refine ⟨(tokens.take j).take i, comment, (tokens.take j).drop (i + 1), ?_, hkind, htext, ?_⟩
    · obtain ⟨hi, hat⟩ := List.getElem?_eq_some_iff.1 hcomment'
      rw [← hat, ← List.drop_eq_getElem_cons hi, List.take_append_drop]
    · intro u hu
      obtain ⟨n, hn⟩ := List.getElem?_of_mem hu
      rw [List.getElem?_drop] at hn
      obtain ⟨hlt, -⟩ := List.getElem?_eq_some_iff.1 hn
      have hkj : i + 1 + n < j := by
        rw [List.length_take] at hlt
        omega
      rw [List.getElem?_take_of_lt hkj] at hn
      exact h.between (by omega) hkj hn

/-! ## The slots of a list -/

namespace Slot

/-- What a token makes, if `pending` has no token yet: a comment makes no slot, and a line end takes
no comment. -/
def made (pending : Option String) (t : Token) : List Slot :=
  if t.kind = .docComment then [] else [⟨t, if t.kind = .newline then none else pending⟩]

/-- One token after the other makes its slot and leaves a comment to the next one. -/
theorem attachFrom_step (pending : Option String) (t : Token) (ts : List Token) :
    attachFrom pending (t :: ts) = made pending t ++ attachFrom (pendingAfter pending t) ts := by
  rw [attachFrom]
  split
  case h_1 hdoc => simp [made, pendingAfter, hdoc]
  case h_2 hline => simp [made, pendingAfter, hline]
  case h_3 hdoc hline =>
    rw [made, if_neg hdoc, if_neg hline, pendingAfter, if_neg hdoc, if_neg hline]
    rfl

/-- Comments are attached to the parts of a list one after the other. -/
theorem attachFrom_append (pending : Option String) (ts us : List Token) :
    attachFrom pending (ts ++ us) =
      attachFrom pending ts ++ attachFrom (pendingBehind pending ts) us := by
  induction ts generalizing pending with
  | nil => rfl
  | cons t ts ih =>
    rw [List.cons_append, attachFrom_step, ih, attachFrom_step, pendingBehind_cons,
      List.append_assoc]

/-- The tokens of the slots are the tokens without the comments. -/
theorem map_token_attachFrom (pending : Option String) (ts : List Token) :
    (attachFrom pending ts).map token = withoutComments ts := by
  induction ts generalizing pending with
  | nil => rfl
  | cons t ts ih =>
    rw [attachFrom_step, List.map_append, ih]
    by_cases hdoc : t.kind = .docComment <;> simp [made, withoutComments, Token.isComment, hdoc]

/-- A line end has no comment. -/
theorem doc_of_mem_attachFrom {pending : Option String} {s : Slot} (hs : s ∈ attachFrom pending ts)
    (hline : s.token.kind = .newline) : s.doc = none := by
  induction ts generalizing pending with
  | nil => cases hs
  | cons t ts ih =>
    rw [attachFrom_step, List.mem_append] at hs
    rcases hs with hs | hs
    · by_cases hdoc : t.kind = .docComment
      · rw [made, if_pos hdoc] at hs
        cases hs
      · rw [made, if_neg hdoc, List.mem_singleton] at hs
        subst hs
        exact if_pos hline
    · exact ih hs

/-- The comments of the slots are comments of the list, in its order and each at most once. -/
theorem filterMap_doc_attachFrom (pending : Option String) (ts : List Token) :
    ((attachFrom pending ts).filterMap doc).Sublist (pending.toList ++ commentTexts ts) := by
  induction ts generalizing pending with
  | nil => exact List.nil_sublist _
  | cons t ts ih =>
    rw [attachFrom_step, List.filterMap_append]
    have hrest := ih (pendingAfter pending t)
    by_cases hdoc : t.kind = .docComment
    · have htexts : commentTexts (t :: ts) = t.text :: commentTexts ts := by
        simp [commentTexts, Token.isComment, hdoc]
      rw [pendingAfter, if_pos hdoc] at hrest
      rw [made, if_pos hdoc, htexts, pendingAfter, if_pos hdoc]
      exact hrest.trans (List.sublist_append_right _ _)
    · have htexts : commentTexts (t :: ts) = commentTexts ts := by
        simp [commentTexts, Token.isComment, hdoc]
      rw [htexts]
      by_cases hline : t.kind = .newline
      · simpa [made, pendingAfter, hline] using hrest
      · cases pending with
        | none => simpa [made, pendingAfter, hdoc, hline] using hrest
        | some text => simpa [made, pendingAfter, hdoc, hline] using hrest

theorem terminated_eq (slots : List Slot) :
    terminated slots = slots ++ (endBehind (slots.map token)).map (⟨·, none⟩) := by
  rw [terminated, endBehind, List.getLast?_map]
  cases hlast : slots.getLast? with
  | none => simp [List.getLast?_eq_none_iff.1 hlast, atEnd]
  | some s => cases hend : s.token.isEof <;> simp [hend, atEnd]

end Slot

/-- The place of a token among the slots, by its place in the list. -/
def slotPlace (tokens : List Token) (j : Nat) : Nat := (withoutComments (tokens.take j)).length

/-- The slot of a token that is no comment: its comment is the one that has no token in front of
it, and a line end takes none. -/
theorem getElem?_attach (ht : tokens[j]? = some t) (hdoc : t.kind ≠ .docComment) :
    (Slot.attach tokens)[slotPlace tokens j]? =
      some ⟨t, if t.kind = .newline then none else pendingBehind none (tokens.take j)⟩ := by
  obtain ⟨hj, hat⟩ := List.getElem?_eq_some_iff.1 ht
  have hsplit : tokens = tokens.take j ++ t :: tokens.drop (j + 1) := by
    rw [← hat, ← List.drop_eq_getElem_cons hj, List.take_append_drop]
  have hlength : slotPlace tokens j = (Slot.attachFrom none (tokens.take j)).length := by
    rw [slotPlace, ← Slot.map_token_attachFrom none, List.length_map]
  have happend := Slot.attachFrom_append none (tokens.take j) (t :: tokens.drop (j + 1))
  rw [← hsplit] at happend
  rw [Slot.attach, happend, hlength, List.getElem?_append_right (Nat.le_refl _), Nat.sub_self,
    Slot.attachFrom_step, Slot.made, if_neg hdoc]
  rfl

/-- The slots of a token list are its tokens without the comments, in their order, with the end of
the source behind them if it is not there. A line end has no comment. Every other token of the list
has the text of the comment attached to it, and none if there is no such comment; so a comment
goes to at most one token, and the comments of the slots are some of those of the list, in their
order. -/
theorem ofTokens_attaches_comments (tokens : List Token) :
    (Cursor.ofTokens tokens).slots.map Slot.token =
        withoutComments tokens ++ endBehind (withoutComments tokens) ∧
      (∀ s ∈ (Cursor.ofTokens tokens).slots, s.token.kind = .newline → s.doc = none) ∧
      (∀ j t, tokens[j]? = some t → t.kind ≠ .docComment →
        ∃ doc, (Cursor.ofTokens tokens).slots[slotPlace tokens j]? = some ⟨t, doc⟩ ∧
          (t.kind = .newline → doc = none) ∧
          (t.kind ≠ .newline → ∀ text, doc = some text ↔
            ∃ i comment, tokens[i]? = some comment ∧ comment.text = text ∧
              Attached tokens i j)) ∧
      (∀ i j j', Attached tokens i j → Attached tokens i j' → j = j') ∧
      ((Cursor.ofTokens tokens).slots.filterMap Slot.doc).Sublist (commentTexts tokens) := by
  -- behind the tokens there may be the end of the source, with no comment
  have hslots : (Cursor.ofTokens tokens).slots =
      Slot.attach tokens ++ (endBehind (withoutComments tokens)).map (⟨·, none⟩) := by
    rw [Cursor.slots_ofTokens, ← Slot.map_token_attachFrom none]
    exact Slot.terminated_eq _
  rw [hslots]
  refine ⟨?_, ?_, ?_, fun _ _ _ => Attached.unique, ?_⟩
  · rw [List.map_append, Slot.attach, Slot.map_token_attachFrom, List.map_map]
    simp [Function.comp_def]
  · intro s hs hline
    rcases List.mem_append.1 hs with hs | hs
    · exact Slot.doc_of_mem_attachFrom hs hline
    · obtain ⟨t, -, rfl⟩ := List.mem_map.1 hs
      rfl
  · intro j t ht hdoc
    have hslot := getElem?_attach ht hdoc
    obtain ⟨hlt, -⟩ := List.getElem?_eq_some_iff.1 hslot
    refine ⟨_, (List.getElem?_append_left hlt).trans hslot, fun hline => if_pos hline, ?_⟩
    intro hline text
    rw [if_neg hline, pendingBehind_eq_some_iff, endsInComment_take_iff ht hdoc hline]
    simp
  · have hnone : ((endBehind (withoutComments tokens)).map fun t => (⟨t, none⟩ : Slot)).filterMap
        Slot.doc = [] := by simp
    rw [List.filterMap_append, hnone, List.append_nil]
    exact Slot.filterMap_doc_attachFrom none tokens

end ApiDoc.Syntax
