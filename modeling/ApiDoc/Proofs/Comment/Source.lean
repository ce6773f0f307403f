import ApiDoc.Proofs.Syntax.Facing
import ApiDoc.Proofs.Syntax.Layout
import ApiDoc.Proofs.Syntax.Lookahead
import ApiDoc.Proofs.Text.Parity

/-!
# Doc comments as plain comments

A blank in the place of its second star makes a doc comment a plain comment of the same extent. A
source where this is done to every doc comment (`plainComments`) is cut at the same places, and
cannot be cut for the same reason at the same place. Where line ends do not count, its slots are
those of the source without their comments, and with a gap where a comment was:
`tokenize_plainComments`.
-/

namespace ApiDoc.Syntax

open Text (Position Unescaped)

variable {l : Lexeme} {rest : List Char} {lexicon : Lexicon}

/-! ## The text -/

namespace Lexeme

/-- A doc comment as a plain comment. -/
def plain (l : Lexeme) : Lexeme :=
  if l.kind = .docComment then ⟨.blockComment, l.text.set 2 ' '⟩ else l

/-- The text with every doc comment as a plain comment. What cannot be cut stays as it is. -/
def plainComments : List Char → List Char
  | [] => []
  | c :: cs =>
    match first c cs with
    | .error _ => c :: cs
    | .ok (kind, text) => (plain ⟨kind, text⟩).text ++ plainComments (cs.drop (text.length - 1))
termination_by cs => cs.length

/-- The second text has blanks for some of the stars of the first one. -/
inductive Masks : List Char → List Char → Prop
  | nil : Masks [] []
  | cons {cs ds : List Char} (c : Char) (h : Masks cs ds) : Masks (c :: cs) (c :: ds)
  | star {cs ds : List Char} (h : Masks cs ds) : Masks ('*' :: cs) (' ' :: ds)

namespace Masks

variable {cs ds cs' ds' : List Char}

theorem refl (cs : List Char) : Masks cs cs := by
  induction cs with
  | nil => exact .nil
  | cons c cs ih => exact .cons c ih

theorem append (h : Masks cs ds) (h' : Masks cs' ds') : Masks (cs ++ cs') (ds ++ ds') := by
  induction h with
  | nil => exact h'
  | cons c h ih => exact .cons c ih
  | star h ih => exact .star ih

theorem ne_nil (h : Masks cs ds) (hcs : cs ≠ []) : ds ≠ [] := by
  cases h with
  | nil => exact hcs
  | cons c h => exact List.cons_ne_nil _ _
  | star h => exact List.cons_ne_nil _ _

theorem agrees (h : Masks cs ds) : Agrees cs ds := by
  induction h with
  | nil => exact .nil
  | cons c h ih => exact .cons c ih
  | star h ih => exact .blank

/-- Stars and blanks take the same room. -/
theorem past_eq (h : Masks cs ds) (pos : Position) : pos.past ds = pos.past cs := by
  induction h generalizing pos with
  | nil => rfl
  | cons c h ih => exact ih _
  | star h ih => exact ih _

theorem not_escape (h : Masks cs ds) (hescape : ¬['\\', 'u'] <:+: cs) :
    ¬['\\', 'u'] <:+: ds := by
  induction h with
  | nil => exact hescape
  | @cons cs ds c h ih =>
    intro hpair
    rcases List.infix_cons_iff.mp hpair with hhead | htail
    · obtain ⟨rfl, behind, hbehind⟩ := List.cons_prefix_cons.mp hhead
      have hu : ds.head? = some 'u' := congrArg List.head? hbehind.symm
      obtain ⟨more, rfl⟩ := List.head?_eq_some_iff.mp (h.agrees.head? hu (by decide))
      exact hescape (List.prefix_append ['\\', 'u'] more).isInfix
    · exact ih (fun hcs => hescape (hcs.trans (List.suffix_cons c cs).isInfix)) htail
  | @star cs ds h ih =>
    intro hpair
    rcases List.infix_cons_iff.mp hpair with hhead | htail
    · exact absurd (List.cons_prefix_cons.mp hhead).1 (by decide)
    · exact ih (fun hcs => hescape (hcs.trans (List.suffix_cons '*' cs).isInfix)) htail

end Masks

/-- A doc comment has a second star, and does not end with it. -/
theorem Begins.docComment (h : l.Begins rest) (hkind : l.kind = .docComment) :
    ∃ body, l.text = '/' :: '*' :: '*' :: body ∧ throughCommentEnd (body ++ rest) = some body := by
  obtain ⟨kind, text⟩ := l
  obtain ⟨c, tail, htext, hstarts⟩ := h
  dsimp only at hkind htext hstarts
  generalize hcs : tail ++ rest = cs at hstarts
  -- Of all rules only the one for comments gives a doc comment.
  cases hstarts with
  | @comment body hc hcs' hbody =>
    have hdoc : isDocComment ('/' :: '*' :: body) = true := by
      by_contra hplain
      simp [hplain] at hkind
    simp only [isDocComment, Bool.and_eq_true, List.isPrefixOf_iff_prefix, bne_iff_ne,
      ne_eq] at hdoc
    obtain ⟨⟨more, hmore⟩, hne⟩ := hdoc
    obtain rfl : '*' :: more = body := by simpa using hmore
    obtain ⟨rfl, rfl⟩ := List.cons.inj htext
    subst hcs
    refine ⟨more, rfl, ?_⟩
    rw [List.cons_append, List.tail_cons, List.cons_append, throughCommentEnd] at hbody
    · obtain ⟨more', hmore', heq⟩ := Option.map_eq_some_iff.mp hbody
      cases heq
      exact hmore'
    · -- a slash right behind the second star would end the comment there
      rintro behind - hslash
      rw [hslash, throughCommentEnd] at hbody
      exact hne (by simpa using hbody.symm)
  | blank hc => cases hkind
  | lineFeed hc => cases hkind
  | lineComment hc hcs => cases hkind
  | literal hc htext => split at hkind <;> cases hkind
  | word hc => cases hkind
  | number hc => cases hkind
  | ellipsis hc hcs => cases hkind
  | punct hc hslash hdot => cases hkind

theorem plain_of_ne (h : l.kind ≠ .docComment) : l.plain = l := if_neg h

theorem plain_docComment {body : List Char} (hkind : l.kind = .docComment)
    (htext : l.text = '/' :: '*' :: '*' :: body) :
    l.plain = ⟨.blockComment, '/' :: '*' :: ' ' :: body⟩ := by
  rw [plain, if_pos hkind, htext]
  rfl

theorem Begins.masks_plain (h : l.Begins rest) : Masks l.text l.plain.text := by
  by_cases hkind : l.kind = .docComment
  · obtain ⟨body, htext, -⟩ := h.docComment hkind
    rw [plain_docComment hkind htext, htext]
    exact .cons _ (.cons _ (.star (.refl body)))
  · rw [plain_of_ne hkind]
    exact .refl _

theorem Begins.head?_plain (h : l.Begins rest) : l.plain.text.head? = l.text.head? := by
  by_cases hkind : l.kind = .docComment
  · obtain ⟨body, htext, -⟩ := h.docComment hkind
    rw [plain_docComment hkind htext, htext]
    rfl
  · rw [plain_of_ne hkind]

/-- A gap looks at one character behind it, and a comment at none. -/
theorem Begins.of_head? {rest' : List Char} (h : l.Begins rest) (hkind : isToken l.kind = false)
    (hhead : rest'.head? = rest.head?) : l.Begins rest' := by
  obtain ⟨kind, text⟩ := l
  obtain ⟨c, tail, rfl, hstarts⟩ := h
  refine ⟨c, tail, rfl, ?_⟩
  dsimp only at hkind hstarts ⊢
  -- a run of characters ends with the first one behind it, which is the same
  have hrun : ∀ p : Char → Bool, (tail ++ rest).takeWhile p = tail →
      (tail ++ rest').takeWhile p = tail := by
    intro p htail
    rw [takeWhile_append_eq_iff] at htail ⊢
    refine ⟨htail.1, ?_⟩
    cases rest' with
    | nil => rfl
    | cons d rest' =>
      obtain ⟨more, rfl⟩ := List.head?_eq_some_iff.mp hhead.symm
      simpa [List.takeWhile_cons] using htail.2
  generalize hcs : tail ++ rest = cs at hstarts
  generalize htext : c :: tail = text at hstarts
  cases hstarts with
  | blank hc =>
    obtain ⟨-, htail⟩ := List.cons.inj htext
    have hblank : Starts c (tail ++ rest') .blank _ := .blank hc
    rw [hrun isGap (hcs ▸ htail.symm)] at hblank
    exact htext ▸ hblank
  | lineFeed hc => exact .lineFeed hc
  | lineComment hc hslash =>
    obtain ⟨-, htail⟩ := List.cons.inj htext
    obtain ⟨more, rfl⟩ := List.head?_eq_some_iff.mp hslash
    have hslash' : (tail ++ rest').head? = some '/' := by simp [htail]
    have hcomment : Starts c (tail ++ rest') .lineComment _ := .lineComment hc hslash'
    rw [hrun (· ≠ '\n') (hcs ▸ htail.symm)] at hcomment
    exact htext ▸ hcomment
  | @comment body hc hstar hbody =>
    obtain ⟨rfl, rfl⟩ := List.cons.inj htext
    exact .comment rfl rfl (throughCommentEnd_append hbody rest')
  | literal hc htext => split at hkind <;> cases hkind
  | word hc => cases hkind
  | number hc => cases hkind
  | ellipsis hc hcs => cases hkind
  | punct hc hslash hdot => cases hkind

/-- A plain comment takes the place of a doc comment, and all else stays. -/
theorem Begins.plain {rest' : List Char} (h : l.Begins rest) (hrest : Masks rest rest')
    (hhead : rest'.head? = rest.head?) : l.plain.Begins rest' := by
  by_cases hkind : l.kind = .docComment
  · obtain ⟨body, htext, hbody⟩ := h.docComment hkind
    rw [plain_docComment hkind htext]
    refine ⟨'/', '*' :: ' ' :: body, rfl, ?_⟩
    -- The blank in place of the second star cannot end the comment with a slash behind it.
    have hend : throughCommentEnd (' ' :: (body ++ rest')) = some (' ' :: body) := by
      rw [throughCommentEnd, throughCommentEnd_append hbody]
      · rfl
      · intro behind hstar
        exact absurd hstar (by decide)
    have hstarts : Starts '/' ('*' :: ' ' :: (body ++ rest')) _ _ := .comment rfl rfl hend
    exact hstarts
  · rw [plain_of_ne hkind]
    -- A token looks up to the next blank, white space and comments only at the next character.
    cases htoken : isToken l.kind with
    | true => exact h.of_agrees htoken hrest.agrees
    | false => exact h.of_head? htoken hhead

theorem plainComments_append (h : l.Begins rest) :
    plainComments (l.text ++ rest) = l.plain.text ++ plainComments rest := by
  obtain ⟨kind, text⟩ := l
  obtain ⟨c, tail, rfl, hstarts⟩ := h
  have hcut : (tail ++ rest).drop ((c :: tail).length - 1) = rest := by simp
  rw [List.cons_append, plainComments, hstarts.first_eq]
  simp only [hcut]

theorem plainComments_of_error {c : Char} {cs : List Char} {fault : Fault}
    (h : first c cs = .error fault) : plainComments (c :: cs) = c :: cs := by
  rw [plainComments, h]

/-- A text is empty, cannot be cut, or begins with a lexeme. -/
theorem cut_induction {motive : List Char → Prop} (nil : motive [])
    (error : ∀ (c : Char) (cs : List Char) (fault : Fault), first c cs = .error fault →
      motive (c :: cs))
    (lexeme : ∀ (l : Lexeme) (rest : List Char), l.Begins rest → motive rest →
      motive (l.text ++ rest)) (text : List Char) : motive text := by
  have hcut : ∀ c cs kind text, first c cs = .ok (kind, text) →
      motive (cs.drop (text.length - 1)) → motive (c :: cs) := by
    intro c cs kind text hfirst ih
    obtain ⟨tail, rfl, rest, rfl⟩ := first_ok hfirst
    refine lexeme ⟨kind, c :: tail⟩ rest ⟨c, tail, rfl, starts_of_first hfirst⟩ ?_
    simpa using ih
  fun_induction split text with
  | case1 => exact nil
  | case2 c cs fault hfirst => exact error c cs fault hfirst
  | case3 c cs kind text hfirst e hrest ih => exact hcut c cs kind text hfirst ih
  | case4 c cs kind text hfirst rest hrest ih => exact hcut c cs kind text hfirst ih

theorem masks_plainComments (text : List Char) : Masks text (plainComments text) := by
  induction text using cut_induction with
  | nil =>
    rw [plainComments]
    exact .nil
  | error c cs fault h =>
    rw [plainComments_of_error h]
    exact .refl _
  | lexeme l rest hl ih =>
    rw [plainComments_append hl]
    exact hl.masks_plain.append ih

theorem head?_plainComments (text : List Char) :
    (plainComments text).head? = text.head? := by
  induction text using cut_induction with
  | nil => rw [plainComments]
  | error c cs fault h => rw [plainComments_of_error h]
  | lexeme l rest hl ih =>
    rw [plainComments_append hl, List.head?_append_of_ne_nil _ hl.ne_nil,
      List.head?_append_of_ne_nil _ (hl.masks_plain.ne_nil hl.ne_nil), hl.head?_plain]

/-- A text with plain comments is cut at the same places. -/
theorem split_plainComments (text : List Char) :
    (∀ ls, split text = .ok ls → split (plainComments text) = .ok (ls.map plain)) ∧
    ∀ e, split text = .error e → ∃ before, Masks e.before before ∧
      split (plainComments text) = .error ⟨before, e.fault⟩ := by
  induction text using cut_induction with
  | nil =>
    rw [plainComments, split]
    refine ⟨fun ls hls => ?_, fun e he => by cases he⟩
    cases hls
    rfl
  | error c cs fault h =>
    rw [plainComments_of_error h]
    have hsplit : split (c :: cs) = .error ⟨[], fault⟩ := by rw [split, h]
    refine ⟨fun ls hls => ?_, fun e he => ⟨e.before, .refl _, he⟩⟩
    rw [hsplit] at hls
    cases hls
  | lexeme l rest hl ih =>
    obtain ⟨hok, herror⟩ := ih
    -- a lexeme made plain begins the same way, since what is behind it starts alike
    have hplain := hl.plain (masks_plainComments rest) (head?_plainComments rest)
    rw [plainComments_append hl, split_append hl, split_append hplain]
    cases hrest : split rest with
    | ok ls =>
      rw [hok ls hrest]
      refine ⟨fun ls' hls => ?_, fun e he => by cases he⟩
      cases hls
      rfl
    | error e =>
      obtain ⟨before, hbefore, hcut⟩ := herror e hrest
      rw [hcut]
      refine ⟨fun ls hls => (by cases hls), fun e' he => ?_⟩
      cases he
      exact ⟨l.plain.text ++ before, hl.masks_plain.append hbefore, rfl⟩

/-- Each lexeme of a text is as long as a plain comment. -/
theorem Splits.masks_plain {text : List Char} {ls : List Lexeme} (h : Splits text ls) :
    ∀ l ∈ ls, Masks l.text l.plain.text := by
  induction h with
  | nil => exact nofun
  | cons hl h ih => exact List.forall_mem_cons.mpr ⟨hl.masks_plain, ih⟩

/-- A text that cannot be cut is cut up to where it cannot. -/
theorem before_prefix_of_split (text : List Char) :
    ∀ e, split text = .error e → e.before <+: text := by
  -- By induction on the lexemes in front of the place.
  induction text using cut_induction with
  | nil =>
    intro e he
    rw [split] at he
    cases he
  | error c cs fault h =>
    intro e he
    rw [split, h] at he
    cases he
    exact List.nil_prefix
  | lexeme l rest hl ih =>
    intro e he
    rw [split_append hl] at he
    cases hrest : split rest with
    | ok ls =>
      rw [hrest] at he
      cases he
    | error e' =>
      rw [hrest] at he
      cases he
      exact (List.prefix_append_right_inj l.text).mpr (ih e' hrest)

end Lexeme

/-- The source with every doc comment as a plain comment. -/
def plainComments (source : String) : String :=
  String.ofList (Lexeme.plainComments source.toList)

theorem toList_plainComments (source : String) :
    (plainComments source).toList = Lexeme.plainComments source.toList :=
  String.toList_ofList

/-! ## The slots -/

namespace Slot

/-- A slot whose doc comment is a plain comment: a gap before the token. -/
def plain (s : Slot) : Slot :=
  ⟨{ s.token with spaced := s.token.spaced || s.doc.isSome }, none⟩

theorem attachFrom_cons {t : Token} (hdoc : t.kind ≠ .docComment) (hline : t.kind ≠ .newline)
    (pending : Option String) (ts : List Token) :
    attachFrom pending (t :: ts) = ⟨t, pending⟩ :: attachFrom none ts := by
  rw [attachFrom]
  split
  · next hkind => exact absurd hkind hdoc
  · next hkind => exact absurd hkind hline
  · rfl

end Slot

theorem Lexicon.tokenKind?_eq_docComment_iff :
    lexicon.tokenKind? l = some .docComment ↔ l.kind = .docComment := by
  unfold tokenKind?
  cases l.kind with
  | word => dsimp only; split <;> simp
  | _ => simp

/-- Where line ends do not count, a doc comment leaves a gap if it is made a plain comment. -/
theorem Lexicon.attachFrom_plain (hlines : lexicon.newlines = false) {ls : List Lexeme}
    (hls : ∀ l ∈ ls, Lexeme.Masks l.text l.plain.text) (pos : Position) (spaced : Bool)
    (pending : Option String) :
    Slot.attachFrom none
        (lexicon.tokensAt pos (spaced || pending.isSome) (ls.map Lexeme.plain)) =
      (Slot.attachFrom pending (lexicon.tokensAt pos spaced ls)).map Slot.plain := by
  induction ls generalizing pos spaced pending with
  | nil => rfl
  | cons l ls ih =>
    obtain ⟨hl, hls⟩ := List.forall_mem_cons.mp hls
    -- without line ends, a lexeme that is no token only leaves a gap
    have hnone : ∀ pos spaced l, lexicon.lineEnd pos spaced l = [] := by
      simp [lineEnd, hlines]
    rw [List.map_cons, tokensAt, tokensAt, hl.past_eq, hnone, hnone, List.nil_append,
      List.nil_append]
    have hrest := ih hls (pos.past l.text)
    cases hkind : lexicon.tokenKind? l with
    | none =>
      have hplain : l.plain = l := Lexeme.plain_of_ne fun hdoc => by
        simp [tokenKind?_eq_docComment_iff.mpr hdoc] at hkind
      rw [hplain, hkind]
      simpa using hrest true pending
    | some kind =>
      by_cases hdoc : kind = .docComment
      · subst hdoc
        have hplain : lexicon.tokenKind? l.plain = none := by
          rw [Lexeme.plain, if_pos (tokenKind?_eq_docComment_iff.mp hkind)]
          rfl
        rw [hplain]
        simpa [Slot.attachFrom] using hrest false (some (String.ofList l.text))
      · have hplain : l.plain = l := Lexeme.plain_of_ne fun hdoc' => by
          simp_all [tokenKind?_eq_docComment_iff.mpr hdoc']
        have hline := (tokenKind?_ne hkind).1
        rw [hplain, hkind]
        dsimp only
        rw [Slot.attachFrom_cons hdoc hline, Slot.attachFrom_cons hdoc hline, List.map_cons]
        exact congrArg (_ :: ·) (hrest false none)

theorem Lexicon.tokenize_self (hshebang : lexicon.shebang = false) {source : String}
    (hescape : ¬['\\', 'u'] <:+: source.toList) :
    lexicon.tokenize source =
      match Lexeme.split source.toList with
      | .error e => .error ⟨Position.start.past e.before, e.fault⟩
      | .ok ls => .ok (lexicon.tokensAt .start false ls) := by
  have hsplit : Lexeme.splitAll lexicon.shebang (Unescaped.ofSource source.toList).text =
      Lexeme.split source.toList := by
    rw [Unescaped.text_ofSource_self hescape, Lexeme.splitAll, hshebang]
    rfl
  have hcount := Text.keepsCount_placeIn hescape
  rw [tokenize, hsplit]
  cases hcut : Lexeme.split source.toList with
  | error e =>
    have hplace := hcount e.before (Lexeme.before_prefix_of_split _ e hcut)
    rw [Nat.zero_add] at hplace
    exact congrArg (fun pos => Except.error (ParseError.mk pos e.fault)) hplace
  | ok ls =>
    refine congrArg Except.ok (tokensFrom_eq_tokensAt ?_ false)
    rwa [Lexeme.flatten_split hcut]

/-- Where line ends do not count, a source with plain comments has the slots of the source, and a
gap in the place of each doc comment. -/
theorem Lexicon.tokenize_plainComments {lexicon : Lexicon} (hlines : lexicon.newlines = false)
    (hshebang : lexicon.shebang = false) {source : String}
    (hescape : ¬['\\', 'u'] <:+: source.toList) :
    (∀ e, lexicon.tokenize source = .error e →
      lexicon.tokenize (plainComments source) = .error e) ∧
    ∀ tokens, lexicon.tokenize source = .ok tokens →
      ∃ tokens', lexicon.tokenize (plainComments source) = .ok tokens' ∧
        Slot.attach tokens' = (Slot.attach tokens).map Slot.plain := by
  have hmasks := Lexeme.masks_plainComments source.toList
  have hescape' := hmasks.not_escape hescape
  obtain ⟨hok, herror⟩ := Lexeme.split_plainComments source.toList
  rw [tokenize_self hshebang hescape, tokenize_self hshebang (by rwa [toList_plainComments]),
    toList_plainComments]
  cases hsplit : Lexeme.split source.toList with
  | ok ls =>
    rw [hok ls hsplit]
    refine ⟨fun e he => (by cases he), fun tokens htokens => ⟨_, rfl, ?_⟩⟩
    cases htokens
    exact attachFrom_plain hlines (Lexeme.split_eq_ok_iff.mp hsplit).masks_plain .start false none
  -- The text in front of the fault is masked too, and has the same length in lines and columns.
  | error e =>
    obtain ⟨before, hbefore, hcut⟩ := herror e hsplit
    rw [hcut]
    refine ⟨fun e' he => ?_, fun tokens htokens => by cases htokens⟩
    cases he
    dsimp only
    rw [hbefore.past_eq]

end ApiDoc.Syntax
