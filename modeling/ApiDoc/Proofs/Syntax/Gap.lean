import ApiDoc.Proofs.Syntax.Lexeme
import ApiDoc.Syntax.Lexicon

/-!
# Gaps between tokens

What is dropped between two tokens is a gap: blanks, line feeds and comments in a row, and at the
start of a file a line that names an interpreter. `Gap` says so without a look at how a text is cut;
`Cut` is what cutting makes of a text, and each lexeme that is no token widens a gap
(`Gap.lexeme`).
-/

namespace ApiDoc.Syntax

variable {text : List Char} {ls : List Lexeme}

/-! ## Gaps -/

/-- `comment` is a block comment: it ends with the first `*/` behind its start. -/
def IsBlockComment (comment : List Char) : Prop :=
  ∃ body, comment = '/' :: '*' :: body ++ ['*', '/'] ∧ ¬['*', '/'] <:+: body ++ ['*']

/-- A block comment that documents what follows: it starts with two stars, and they are not the
whole of it. -/
def IsDocumenting (comment : List Char) : Prop :=
  ['/', '*', '*'] <+: comment ∧ comment ≠ ['/', '*', '*', '/']

/-- The line ends at `cs`: with a line feed, or with the text. -/
def LineEndsAt (cs : List Char) : Prop := cs = [] ∨ cs.head? = some '\n'

/-- `Gap behind gap n`: before `behind`, the text `gap` is blanks, line feeds, line comments up to
the end of their line and block comments that document nothing. It ends `n` lines: one for each line
feed outside comments, and one for each block comment with a line feed in it. -/
inductive Gap (behind : List Char) : (gap : List Char) → (lineEnds : Nat) → Prop
  | nil : Gap behind [] 0
  | blank {c : Char} {gap : List Char} {n : Nat} (hc : c ∈ [' ', '\t', '\r', '\x0c'])
      (h : Gap behind gap n) : Gap behind (c :: gap) n
  | lineFeed {gap : List Char} {n : Nat} (h : Gap behind gap n) : Gap behind ('\n' :: gap) (n + 1)
  | lineComment {body gap : List Char} {n : Nat} (hbody : '\n' ∉ body)
      (hend : LineEndsAt (gap ++ behind)) (h : Gap behind gap n) :
      Gap behind ('/' :: '/' :: body ++ gap) n
  | blockComment {comment gap : List Char} {n : Nat} (hcomment : IsBlockComment comment)
      (hdoc : ¬IsDocumenting comment) (h : Gap behind gap n) :
      Gap behind (comment ++ gap) (n + if '\n' ∈ comment then 1 else 0)

/-- A gap at the start of a file. Where `shebang` is allowed, its first line may start with `#!`. -/
def OpeningGap (shebang : Bool) (behind gap : List Char) (lineEnds : Nat) : Prop :=
  Gap behind gap lineEnds ∨
    shebang = true ∧ ∃ line rest, gap = line ++ rest ∧ ['#', '!'] <+: line ∧ '\n' ∉ line ∧
      LineEndsAt (rest ++ behind) ∧ Gap behind rest lineEnds

theorem Gap.opening {behind gap : List Char} {n : Nat} (h : Gap behind gap n) (shebang : Bool) :
    OpeningGap shebang behind gap n :=
  .inl h

/-! ## Lexemes that are dropped -/

namespace Lexeme

/-- What a lexeme that is no token looks like, with `rest` behind it. -/
def IsFiller (rest : List Char) (l : Lexeme) : Prop :=
  match l.kind with
  | .blank => ∀ c ∈ l.text, c ∈ [' ', '\t', '\r', '\x0c']
  | .lineFeed => l.text = ['\n']
  | .lineComment => ∃ body, l.text = '/' :: '/' :: body ∧ '\n' ∉ body ∧ LineEndsAt rest
  | .blockComment => IsBlockComment l.text ∧ ¬IsDocumenting l.text
  | .shebang => False
  | _ => True

/-- Lexemes cut a text: each is a piece of it, not empty, and the fillers among them look as
fillers do. -/
inductive Cut : (text : List Char) → (lexemes : List Lexeme) → Prop
  | nil : Cut [] []
  | cons {l : Lexeme} {rest : List Char} {ls : List Lexeme} (hne : l.text ≠ [])
      (hfiller : l.IsFiller rest) (h : Cut rest ls) : Cut (l.text ++ rest) (l :: ls)

theorem isBlockComment_of_throughCommentEnd {cs : List Char}
    (h : throughCommentEnd cs = some text) : IsBlockComment ('/' :: '*' :: text) := by
  suffices hbody : ∃ body, text = body ++ ['*', '/'] ∧ ¬['*', '/'] <:+: body ++ ['*'] by
    obtain ⟨body, rfl, hfirst⟩ := hbody
    exact ⟨body, rfl, hfirst⟩
  fun_induction throughCommentEnd cs generalizing text with
  | case1 => cases h
  | case2 rest =>
    cases h
    refine ⟨[], rfl, fun hinfix => ?_⟩
    exact absurd hinfix.length_le (by decide)
  | case3 c cs hend ih =>
    obtain ⟨rest, hrest, rfl⟩ := Option.map_eq_some_iff.mp h
    obtain ⟨body, rfl, hfirst⟩ := ih hrest
    refine ⟨c :: body, rfl, fun hinfix => ?_⟩
    rcases List.infix_cons_iff.mp hinfix with hhead | htail
    · -- a `*/` right here would have ended the comment
      obtain ⟨behind, hbehind⟩ := throughCommentEnd_isPrefix hrest
      obtain ⟨rfl, hslash⟩ := List.cons_prefix_cons.mp hhead
      cases body with
      | nil => exact absurd (List.cons_prefix_cons.mp hslash).1 (by decide)
      | cons d body =>
        obtain ⟨rfl, -⟩ := List.cons_prefix_cons.mp hslash
        exact hend _ rfl hbehind.symm
    · exact hfirst htail

theorem isDocComment_iff {comment : List Char} :
    isDocComment comment = true ↔ IsDocumenting comment := by
  simp [isDocComment, IsDocumenting]

theorem lineEndsAt_dropWhile (cs : List Char) : LineEndsAt (cs.dropWhile (· ≠ '\n')) := by
  cases hrest : cs.dropWhile (· ≠ '\n') with
  | nil => exact .inl rfl
  | cons c rest =>
    have hstop := List.head?_dropWhile_not (· ≠ '\n') cs
    rw [hrest] at hstop
    exact .inr (by simpa using hstop)

theorem not_mem_takeWhile (cs : List Char) : '\n' ∉ cs.takeWhile (· ≠ '\n') := by
  intro hmem
  exact absurd (List.all_eq_true.mp List.all_takeWhile _ hmem) (by decide)

/-- The first lexeme of a text is a piece of it, and a filler if it is no token. -/
theorem isFiller_of_first {c : Char} {cs rest : List Char} {kind : LexemeKind}
    (h : first c cs = .ok (kind, text)) (hrest : c :: cs = text ++ rest) :
    IsFiller rest ⟨kind, text⟩ := by
  cases starts_of_first h with
  | blank hc =>
    intro d hd
    have hisGap : isGap d = true := by
      rcases List.mem_cons.mp hd with rfl | hd
      · exact hc
      · exact List.all_eq_true.mp List.all_takeWhile d hd
    simpa [isGap, or_assoc] using hisGap
  | lineFeed hc => exact congrArg ([·]) hc
  | lineComment hc hslash =>
    subst hc
    obtain ⟨behind, rfl⟩ := List.head?_eq_some_iff.mp hslash
    refine ⟨behind.takeWhile (· ≠ '\n'), by simp, not_mem_takeWhile behind, ?_⟩
    have hdrop : rest = behind.dropWhile (· ≠ '\n') := by
      have hbehind : behind = behind.takeWhile (· ≠ '\n') ++ rest := by simpa using hrest
      refine List.append_cancel_left (hbehind.symm.trans ?_)
      exact List.takeWhile_append_dropWhile.symm
    exact hdrop ▸ lineEndsAt_dropWhile behind
  | @comment body hc hstar hbody =>
    split
    · trivial
    · next hdoc =>
      exact ⟨isBlockComment_of_throughCommentEnd hbody, fun hd => hdoc (isDocComment_iff.mpr hd)⟩
  | literal hc htext => split <;> trivial
  | word hc => trivial
  | number hc => trivial
  | ellipsis hc hdots => trivial
  | punct hc hslash hdot => trivial

/-- Cutting a text cuts it into such lexemes. -/
theorem cut_of_split {lexemes : List Lexeme} (h : split text = .ok lexemes) : Cut text lexemes := by
  refine split_induction .nil ?_ h
  intro c tail behind kind rest hfirst ih
  exact .cons (List.cons_ne_nil c tail) (isFiller_of_first hfirst rfl) ih

theorem Cut.flatten (h : Cut text ls) : (ls.map Lexeme.text).flatten = text := by
  induction h with
  | nil => rfl
  | cons hne hfiller h ih => rw [List.map_cons, List.flatten_cons, ih]

theorem Cut.text_ne_nil (h : Cut text ls) : ∀ l ∈ ls, l.text ≠ [] := by
  induction h with
  | nil => exact nofun
  | cons hne hfiller h ih => exact List.forall_mem_cons.mpr ⟨hne, ih⟩

/-- A whole text is cut, once a line that names an interpreter is taken off. -/
theorem cut_of_splitAll {shebang : Bool} (h : splitAll shebang text = .ok ls) :
    Cut text ls ∨ shebang = true ∧ ∃ line rest ls', text = line ++ rest ∧
      ls = ⟨.shebang, line⟩ :: ls' ∧ ['#', '!'] <+: line ∧ '\n' ∉ line ∧ LineEndsAt rest ∧
      Cut rest ls' := by
  unfold splitAll at h
  split at h
  · next hshebang =>
    rw [Bool.and_eq_true, List.isPrefixOf_iff_prefix] at hshebang
    obtain ⟨hallowed, behind, rfl⟩ := hshebang
    dsimp only at h
    split at h
    · cases h
    · next rest hrest =>
      cases h
      refine .inr ⟨hallowed, _, _, rest, List.takeWhile_append_dropWhile.symm, rfl, ?_,
        not_mem_takeWhile _, lineEndsAt_dropWhile _, cut_of_split hrest⟩
      exact ⟨behind.takeWhile (· ≠ '\n'), rfl⟩
  · exact .inl (cut_of_split h)

end Lexeme

/-! ## Widening a gap -/

theorem Gap.blanks {behind gap : List Char} {n : Nat}
    (htext : ∀ c ∈ text, c ∈ [' ', '\t', '\r', '\x0c']) (h : Gap behind gap n) :
    Gap behind (text ++ gap) n := by
  induction text with
  | nil => exact h
  | cons c text ih =>
    refine .blank (htext c List.mem_cons_self) (ih fun d hd => ?_)
    exact htext d (List.mem_cons_of_mem c hd)

/-- A lexeme that is no token widens the gap before which it stands. -/
theorem Gap.lexeme {behind gap : List Char} {n : Nat} {lexicon : Lexicon} {l : Lexeme}
    (hfiller : l.IsFiller (gap ++ behind)) (hnone : lexicon.tokenKind? l = none)
    (h : Gap behind gap n) :
    Gap behind (l.text ++ gap) (n + if Lexicon.endsLine l then 1 else 0) := by
  obtain ⟨kind, text⟩ := l
  cases kind with
  | blank => exact h.blanks hfiller
  | lineFeed =>
    obtain rfl : text = ['\n'] := hfiller
    exact h.lineFeed
  | lineComment =>
    obtain ⟨body, rfl, hbody, hend⟩ := hfiller
    exact h.lineComment hbody hend
  | blockComment =>
    have hends : Lexicon.endsLine ⟨.blockComment, text⟩ = decide ('\n' ∈ text) := by
      simp [Lexicon.endsLine]
    simpa only [hends, decide_eq_true_eq] using h.blockComment hfiller.1 hfiller.2
  | shebang => exact hfiller.elim
  | docComment | stringLit | charLit | word | number | ellipsis | punct => cases hnone

end ApiDoc.Syntax
