import ApiDoc.Proofs.Markup.Nesting

/-!
# Comments and raw text without an end

Behind tags and text that are fine so far, a comment or a section of raw text is opened and its end
mark never comes. Such an opening can still be read as a declaration, which ends at the next `>`. So
reading fails at the opening if and only if no `>` follows: `unterminated_fails_iff`.
-/

namespace ApiDoc.Markup

open Text (Position LineIndex byteLength)
open Body (OpenElement State)

/-! ## Tags and text -/

/-- A tag or some text, as it is written. Attributes have double quotes, and spaces may stand
wherever tags allow them. -/
inductive Fragment where
  | startTag (name : Name) (attributes : List SpacedAttribute) (space : List Char)
      (isSpace : ∀ c ∈ space, Event.isSpace c = true) (selfClosing : Bool)
  | endTag (name : Name) (space : List Char) (isSpace : ∀ c ∈ space, Event.isSpace c = true)
  | text (chars : List Char) (noTag : '<' ∉ chars)

namespace Fragment

def chars : Fragment → List Char
  | .startTag name attributes space _ selfClosing =>
    '<' :: (name.chars ++ (attributes.flatMap SpacedAttribute.render ++
      (space ++ closing selfClosing)))
  | .endTag name space _ => '<' :: '/' :: (name.chars ++ (space ++ ['>']))
  | .text chars _ => chars

def event : Fragment → Event
  | .startTag name _ _ _ selfClosing => .startTag name.chars selfClosing
  | .endTag name _ _ => .endTag name.chars
  | .text chars _ => .text chars

def piece (fragment : Fragment) : Piece := ⟨fragment.chars, fragment.event⟩

/-- Fragments, written one behind the other. -/
def written (fragments : List Fragment) : List Char := Piece.text (fragments.map piece)

/-- The tags among fragments that a description starts with. -/
def tags (fragments : List Fragment) : List Tag := tagsFrom [] (fragments.map piece)

end Fragment

/-- Text in front of what splits is a piece of its own, or it goes into the first piece. -/
theorem exists_splits_text {chars cs rest : List Char} {pieces : List Piece}
    (hchars : '<' ∉ chars) (hsplits : Splits cs pieces ('<' :: rest)) :
    ∃ pieces', Splits (chars ++ cs) pieces' ('<' :: rest) ∧
      ∀ front, tagsFrom front pieces' = tagsFrom (front ++ chars) pieces := by
  cases chars with
  | nil => exact ⟨pieces, hsplits, by simp⟩
  | cons c chars =>
    -- what starts with a tag leaves the text a piece of its own
    have hown (hhead : ∀ d ∈ cs.head?, d = '<') :
        ∃ pieces', Splits (c :: chars ++ cs) pieces' ('<' :: rest) ∧
          ∀ front, tagsFrom front pieces' = tagsFrom (front ++ c :: chars) pieces :=
      ⟨_, .piece ⟨c :: chars, .text (c :: chars)⟩ (.text hchars hhead) hsplits, fun front => rfl⟩
    cases hsplits with
    | none => exact hown (by simp)
    | @piece piece cs pieces _ hreads hmore =>
      by_cases hpiece : piece.chars.head? = some '<'
      · refine hown fun d hd => ?_
        obtain ⟨e, es, hchars, -⟩ := hreads.first_eq
        rw [hchars] at hpiece hd
        cases hpiece
        exact (Option.some.inj hd).symm
      · obtain ⟨hevent, hclean, hhead⟩ := hreads.eq_text hpiece
        refine ⟨⟨c :: (chars ++ piece.chars), .text (c :: (chars ++ piece.chars))⟩ :: pieces,
          ?_, ?_⟩
        · have hjoined : '<' ∉ c :: (chars ++ piece.chars) := by
            rw [← List.cons_append, List.mem_append, not_or]
            exact ⟨hchars, hclean⟩
          rw [← List.append_assoc]
          exact .piece ⟨_, _⟩ (.text hjoined hhead) hmore
        · intro front
          simp [tagsFrom, hevent, Event.nestingTag?]

/-- Fragments in front of a tag split into pieces with the same tags. -/
theorem exists_splits_fragments (fragments : List Fragment) (rest : List Char) :
    ∃ pieces, Splits (Piece.text (fragments.map Fragment.piece) ++ '<' :: rest) pieces
        ('<' :: rest) ∧
      ∀ front, tagsFrom front pieces = tagsFrom front (fragments.map Fragment.piece) := by
  induction fragments with
  | nil => exact ⟨[], .none _, fun front => rfl⟩
  | cons fragment fragments ih =>
    obtain ⟨pieces, hsplits, htags⟩ := ih
    have htext : Piece.text ((fragment :: fragments).map Fragment.piece) ++ '<' :: rest =
        fragment.chars ++ (Piece.text (fragments.map Fragment.piece) ++ '<' :: rest) := by
      simp [Piece.text, Fragment.piece]
    -- A tag is a piece whatever follows it, and a text may run into the next one.
    have hown (hreads : ∀ rest, Event.Reads fragment.chars fragment.event rest) :
        ∃ pieces, Splits (fragment.chars ++ (Piece.text (fragments.map Fragment.piece) ++
            '<' :: rest)) pieces ('<' :: rest) ∧
          ∀ front, tagsFrom front pieces =
            tagsFrom front ((fragment :: fragments).map Fragment.piece) := by
      refine ⟨fragment.piece :: pieces, .piece fragment.piece (hreads _) hsplits, fun front => ?_⟩
      rw [List.map_cons, tagsFrom, tagsFrom, htags]
    rw [htext]
    cases fragment with
    | startTag name attributes space hspace selfClosing =>
      exact hown fun rest => .startTag name (areAttributes_render attributes _) hspace
    | endTag name space hspace => exact hown fun rest => .endTag name hspace
    | text chars hchars =>
      obtain ⟨pieces', hsplits', htags'⟩ := exists_splits_text hchars hsplits
      exact ⟨pieces', hsplits', fun front => by rw [htags', htags]; rfl⟩

/-! ## Openings -/

namespace Enclosure

variable (kind : Enclosure) {rest : List Char}

theorem not_mem_label : '>' ∉ kind.label := by cases kind <;> decide

/-- Without a `>` there is no declaration either. -/
theorem stuck_of_not_mem (hrest : '>' ∉ rest) : Event.Stuck (kind.start ++ rest) := by
  refine ⟨by simp [start], fun piece event behind heq hreads => ?_⟩
  have hhead : piece.head? = some '<' := by
    obtain ⟨c, cs, rfl, -⟩ := hreads.first_eq
    exact congrArg some (List.cons.inj heq).1.symm
  have hmem : '>' ∈ kind.start ++ rest := heq ▸ List.mem_append_left _ (hreads.greater_mem hhead)
  simp [start, kind.not_mem_label, hrest] at hmem

/-- Without its end mark, an enclosure is a declaration. -/
theorem reads_declaration {inside behind : List Char} (hinside : '>' ∉ inside)
    (h : ¬ kind.finish <:+: inside ++ '>' :: behind) :
    Event.Reads (kind.start ++ inside ++ ['>']) .ignored behind := by
  have hwritten : kind.start ++ inside ++ ['>'] =
      "<!".toList ++ ((kind.label ++ inside) ++ ">".toList) := by simp [start]
  rw [hwritten]
  refine .declaration (by simp [kind.not_mem_label, hinside]) fun other behind' heq => ?_
  obtain rfl : other = kind := by
    -- the two openings differ in the sign behind `<!`
    cases kind with
    | comment =>
      cases other with
      | comment => rfl
      | rawText => exact absurd (List.cons.inj heq).1 (by decide)
    | rawText =>
      cases other with
      | comment => exact absurd (List.cons.inj heq).1 (by decide)
      | rawText => rfl
  rw [List.append_assoc] at heq
  rwa [← List.append_cancel_left heq]

end Enclosure

/-! ## Errors further on -/

/-- Is the error one of malformed markup or of a stray end tag, at `pos`? -/
def MarkupError.IsSyntaxAt (pos : Position) : MarkupError → Prop
  | .unterminatedComment p | .malformedTag p _ | .strayEndTag p _ => p = pos
  | .mismatchedTag _ _ _ | .unclosed _ _ | .missingBody => False

theorem isSyntaxAt_malformedError (pos : Position) (rest : List Char) :
    (malformedError pos rest).IsSyntaxAt pos := by
  unfold malformedError
  split <;> rfl

theorem MarkupError.IsSyntaxAt.unique {error : MarkupError} {p q : Position}
    (hp : error.IsSyntaxAt p) (hq : error.IsSyntaxAt q) : p = q := by
  cases error with
  | unterminatedComment | malformedTag | strayEndTag => exact hp.symm.trans hq
  | mismatchedTag | unclosed | missingBody => exact hp.elim

namespace Body

theorem isSyntaxAt_of_step {s : State} {p pos : Position} {event : Event} {error : MarkupError}
    (hstep : s.step p event = .error error) (hplace : error.IsSyntaxAt pos) : p = pos := by
  cases event with
  | ignored | text raw | cdata raw => cases hstep
  | malformed rest =>
    cases hstep
    exact (isSyntaxAt_malformedError p rest).unique hplace
  | startTag name selfClosing =>
    simp only [State.step] at hstep
    split at hstep <;> cases hstep
  -- A tag that closes nothing is an error at itself; one that does not match is none of syntax.
  | endTag name =>
    simp only [State.step] at hstep
    split at hstep
    · cases hstep
    · unfold State.closeElement at hstep
      split at hstep
      · cases hstep
        exact hplace
      · split at hstep
        · cases hstep
          exact hplace.elim
        · simp only at hstep
          split at hstep <;> cases hstep

/-- What goes wrong while reading on from behind `front` is not in `front`. -/
theorem exists_behind_of_run {front cs : List Char} {s : State} {error : MarkupError}
    {pos : Position}
    (hrun : run (.ofSource (front ++ cs)) s (byteLength front) cs = .error error)
    (hplace : error.IsSyntaxAt pos) : ∃ more, pos = .behind (front ++ more) := by
  obtain ⟨pieces, rest, hsplits, hend⟩ := exists_splits cs
  -- By induction on the pieces: the reader stops at one, or goes on behind it.
  induction hsplits generalizing front s with
  | none rest =>
    rcases hend with rfl | hstuck
    · rw [run_nil] at hrun
      cases hrun
    · cases rest with
      | nil => exact absurd rfl hstuck.1
      | cons c cs =>
        have hfirst := Event.first_of_stuck hstuck
        rw [← List.append_nil cs] at hrun hfirst
        have hstep : s.step (.behind front) (.malformed (c :: (cs ++ []))) =
            .error (malformedError (.behind front) (c :: (cs ++ []))) := rfl
        rw [run_first hfirst, hstep] at hrun
        cases hrun
        exact ⟨[], by rw [List.append_nil, isSyntaxAt_of_step hstep hplace]⟩
  | @piece piece cs pieces rest hreads _ ih =>
    obtain ⟨c, chars, hchars, hfirst, -⟩ := hreads.first_eq
    rw [hchars, List.cons_append, run_first hfirst] at hrun
    cases hstep : s.step (.behind front) piece.event with
    | error other =>
      rw [hstep] at hrun
      cases hrun
      exact ⟨[], by rw [List.append_nil, isSyntaxAt_of_step hstep hplace]⟩
    | ok t =>
      rw [hstep, ← List.cons_append, ← List.append_assoc] at hrun
      obtain ⟨more, hmore⟩ := ih hrun hend
      exact ⟨c :: chars ++ more, by rw [hmore, List.append_assoc]⟩

/-- Once pieces are read that go on behind `front`, no error is found where `front` ends. -/
theorem not_isSyntaxAt_of_splits {source rest front : List Char} {pieces : List Piece}
    {elements : List OpenElement} {error : MarkupError} (hsplits : Splits source pieces rest)
    (hleaves : Leaves (tagsFrom [] pieces) elements)
    (hfront : ∃ back, back ≠ [] ∧ Piece.text pieces = front ++ back)
    (herror : extract (String.ofList source) = .error error) :
    ¬ error.IsSyntaxAt (.behind front) := by
  intro hplace
  obtain ⟨t, -, -, hrun⟩ := exists_run_of_leaves hsplits hleaves
  rw [hrun] at herror
  cases hread : run (.ofSource source) t (byteLength (Piece.text pieces)) rest with
  | error other =>
    rw [hread] at herror
    cases herror
    rw [hsplits.eq_append] at hread
    obtain ⟨more, hmore⟩ := exists_behind_of_run hread hplace
    obtain ⟨back, hback, htext⟩ := hfront
    have hbefore : (Position.behind front).Before (.behind (front ++ (back ++ more))) :=
      Position.before_behind_append front (by simp [hback])
    rw [← List.append_assoc, ← htext, ← hmore] at hbefore
    exact Position.not_before_self _ hbefore
  | ok u =>
    -- What is wrong at the end is not the syntax.
    rw [hread] at herror
    change u.finish = .error error at herror
    unfold State.finish at herror
    split at herror
    · cases herror
      exact hplace
    · split at herror
      · cases herror
      · cases herror
        exact hplace

/-- Fragments in front of an opening split into pieces with the same text and the same tags. -/
theorem exists_splits_opening (fragments : List Fragment) (kind : Enclosure) (rest : List Char) :
    ∃ pieces, Splits (Fragment.written fragments ++ (kind.start ++ rest)) pieces
        (kind.start ++ rest) ∧
      Piece.text pieces = Fragment.written fragments ∧
      tagsFrom [] pieces = Fragment.tags fragments := by
  obtain ⟨pieces, hsplits, htags⟩ :=
    exists_splits_fragments fragments ('!' :: (kind.label ++ rest))
  exact ⟨pieces, hsplits, (List.append_cancel_right hsplits.eq_append).symm, htags []⟩

/-- Where an enclosure is opened whose end mark never comes, reading fails if and only if no `>`
follows. Otherwise everything up to the first `>` is skipped as a declaration. -/
theorem unterminated_fails_iff (fragments : List Fragment) (elements : List OpenElement)
    (kind : Enclosure) (rest : List Char) (hleaves : Leaves (Fragment.tags fragments) elements)
    (hrest : ¬ kind.finish <:+: rest) :
    ((∃ error, extract (String.ofList (Fragment.written fragments ++ (kind.start ++ rest))) =
        .error error ∧ error.IsSyntaxAt (.behind (Fragment.written fragments))) ↔ '>' ∉ rest) ∧
      ('>' ∉ rest →
        extract (String.ofList (Fragment.written fragments ++ (kind.start ++ rest))) =
          .error (malformedError (.behind (Fragment.written fragments)) (kind.start ++ rest))) ∧
      ∀ inside behind, rest = inside ++ '>' :: behind → '>' ∉ inside →
        Event.Reads (kind.start ++ inside ++ ['>']) .ignored behind := by
  obtain ⟨pieces, hsplits, htext, htags⟩ := exists_splits_opening fragments kind rest
  rw [← htags] at hleaves
  have hfails (hnone : '>' ∉ rest) :
      extract (String.ofList (Fragment.written fragments ++ (kind.start ++ rest))) =
        .error (malformedError (.behind (Fragment.written fragments)) (kind.start ++ rest)) := by
    rw [← htext] at hsplits ⊢
    exact extract_of_firstFailure (.malformed hsplits hleaves (kind.stuck_of_not_mem hnone))
  refine ⟨⟨?_, fun hnone => ⟨_, hfails hnone, isSyntaxAt_malformedError _ _⟩⟩, hfails, ?_⟩
  · rintro ⟨error, herror, hplace⟩ hmem
    obtain ⟨inside, behind, rfl, hinside⟩ := List.eq_append_cons_of_mem hmem
    -- The declaration is one more piece, and it stands where the error would be.
    have hsource : kind.start ++ (inside ++ '>' :: behind) =
        kind.start ++ inside ++ ['>'] ++ behind := by simp
    rw [hsource] at hsplits
    have hmore : Splits _ (pieces ++ [⟨kind.start ++ inside ++ ['>'], .ignored⟩]) behind :=
      hsplits.concat (kind.reads_declaration hinside hrest)
    have hstill : Leaves (tagsFrom [] (pieces ++ [⟨kind.start ++ inside ++ ['>'], .ignored⟩]))
        elements := by
      simpa [tagsFrom_append, tagsFrom, Event.nestingTag?] using hleaves
    rw [hsource] at herror
    apply not_isSyntaxAt_of_splits hmore hstill ?_ herror hplace
    refine ⟨kind.start ++ inside ++ ['>'], by simp, ?_⟩
    rw [← htext]
    simp [Piece.text]
  · rintro inside behind rfl hinside
    exact kind.reads_declaration hinside hrest

/-- A body that is still open, with an attribute, text and an end tag that closes nothing. -/
def openBody : List Fragment :=
  [.startTag bodyName
      [{ name := ⟨'o', ['n'], by decide, List.all_eq_true.mp (by decide)⟩
         value := ['>'], unquoted := by decide
         gap := ['\n', ' '], gap_ne_nil := by simp
         isBlank_gap := List.all_eq_true.mp (by decide)
         before := [' '], isSpace_before := List.all_eq_true.mp (by decide)
         behind := ['\t'], isSpace_behind := List.all_eq_true.mp (by decide) }]
      ['\t'] (List.all_eq_true.mp (by decide)) false,
    .text ['a', '>'] (by decide), .endTag lineBreakName [' '] (List.all_eq_true.mp (by decide))]

theorem unterminated_fails_iff_openBody :
    Leaves (Fragment.tags openBody) [⟨"body", ⟨1, 1⟩⟩] ∧
      (¬ "-->".toList <:+: "-> b".toList ∧
        ¬ ∃ error, extract (String.ofList (Fragment.written openBody ++ "<!---> b".toList)) =
          .error error ∧ error.IsSyntaxAt (.behind (Fragment.written openBody))) ∧
      ¬ "]]>".toList <:+: " ]]".toList ∧
        extract (String.ofList (Fragment.written openBody ++ "<![CDATA[ ]]".toList)) =
          .error (malformedError (.behind (Fragment.written openBody)) "<![CDATA[ ]]".toList) := by
  have hleaves : Leaves (Fragment.tags openBody) [⟨"body", ⟨1, 1⟩⟩] :=
    .opened ⟨"body", ⟨1, 1⟩⟩ (.nested .nil) .nil
  have hcomment : ¬ "-->".toList <:+: "-> b".toList := by decide
  have hraw : ¬ "]]>".toList <:+: " ]]".toList := by decide
  exact ⟨hleaves,
    ⟨hcomment, mt (unterminated_fails_iff openBody _ .comment _ hleaves hcomment).1.mp (by decide)⟩,
    hraw, (unterminated_fails_iff openBody _ .rawText _ hleaves hraw).2.1 (by decide)⟩

/-- A comment without its end is no error if a `>` follows, and neither is raw text. -/
theorem opening_passes_as_declaration :
    ¬ "-->".toList <:+: " b >".toList ∧ extract "<body>a</body><!-- b >" = .ok "a" ∧
      ¬ "]]>".toList <:+: " b >".toList ∧ extract "<body>a</body><![CDATA[ b >" = .ok "a" :=
  ⟨by decide, by decide +kernel, by decide, by decide +kernel⟩

end Body

end ApiDoc.Markup
