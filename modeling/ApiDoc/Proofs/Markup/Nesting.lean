import ApiDoc.Proofs.Markup.Content
import ApiDoc.Proofs.Text.LineIndex

/-!
# Well-nested descriptions

The tags of a description are a word of brackets, with names for the kinds of brackets. `Nested`
words are those in which every bracket is closed, innermost first; of any other start of such a
word, `Leaves` says which elements are still open. Reading keeps exactly these elements on its stack
(`run_of_splits`). So a description is read if and only if its tags nest and one of them opens a
body, and otherwise the error is the first thing that is wrong: `extract_accepts_nested_only`.
-/

namespace ApiDoc.Markup

open Text (Position LineIndex byteLength)
open Body (OpenElement State)

variable {s : State} {event : Event} {cs rest source : List Char} {pieces : List Piece}
  {pos : Position} {more : List Tag}

/-! ## Words of tags -/

/-- A tag that opens or closes an element. -/
inductive Tag where
  | opens (element : OpenElement)
  | closes (name : String)

/-- Every element is closed, innermost first. -/
inductive Nested : List Tag → Prop
  | nil : Nested []
  | element (e : OpenElement) {inner rest : List Tag} : Nested inner → Nested rest →
      Nested (.opens e :: (inner ++ .closes e.name :: rest))

/-- Every end tag closes the innermost open element, and `elements`, innermost first, are those that
are never closed. -/
inductive Leaves : (tags : List Tag) → (elements : List OpenElement) → Prop
  | nested {tags : List Tag} : Nested tags → Leaves tags []
  | opened (e : OpenElement) {tags inner : List Tag} {outer : List OpenElement} :
      Leaves tags outer → Nested inner → Leaves (tags ++ .opens e :: inner) (e :: outer)

theorem Nested.append {tags : List Tag} (h : Nested tags) (hmore : Nested more) :
    Nested (tags ++ more) := by
  induction h with
  | nil => exact hmore
  | element e hinner _ _ ih =>
    rw [List.cons_append, List.append_assoc]
    exact .element e hinner ih

namespace Leaves

variable {tags : List Tag} {elements outer : List OpenElement} {e : OpenElement}

theorem append_nested (h : Leaves tags elements) (hmore : Nested more) :
    Leaves (tags ++ more) elements := by
  cases h with
  | nested htags => exact .nested (htags.append hmore)
  | opened e houter hinner =>
    rw [List.append_assoc, List.cons_append]
    exact .opened e houter (hinner.append hmore)

theorem concat_opens (h : Leaves tags elements) (e : OpenElement) :
    Leaves (tags ++ [.opens e]) (e :: elements) :=
  .opened e h .nil

theorem concat_closes (h : Leaves tags (e :: outer)) :
    Leaves (tags ++ [.closes e.name]) outer := by
  cases h with
  | opened e houter hinner =>
    rw [List.append_assoc, List.cons_append]
    exact houter.append_nested (.element e hinner .nil)

theorem nested_of_nil (h : Leaves tags []) : Nested tags := by
  cases h with
  | nested htags => exact htags

end Leaves

/-! ### The stack -/

/-- The open elements behind a tag, if it closes nothing but the innermost one. -/
def Tag.settle (elements : List OpenElement) : Tag → Option (List OpenElement)
  | .opens e => some (e :: elements)
  | .closes name =>
    match elements with
    | [] => none
    | e :: outer => if e.name = name then some outer else none

theorem Nested.foldlM_settle {tags : List Tag} (h : Nested tags) (elements : List OpenElement) :
    tags.foldlM Tag.settle elements = some elements := by
  induction h generalizing elements with
  | nil => rfl
  | element e _ _ ihinner ihrest =>
    rw [List.foldlM_cons]
    show (_ ++ Tag.closes e.name :: _).foldlM Tag.settle (e :: elements) = some elements
    rw [List.foldlM_append, ihinner, Option.bind_eq_bind, Option.bind_some, List.foldlM_cons,
      Tag.settle, if_pos rfl]
    exact ihrest elements

theorem Leaves.foldlM_settle {tags : List Tag} {elements : List OpenElement}
    (h : Leaves tags elements) : tags.foldlM Tag.settle [] = some elements := by
  induction h with
  | nested htags => exact htags.foldlM_settle []
  | opened e _ hinner ih =>
    rw [List.foldlM_append, ih, Option.bind_eq_bind, Option.bind_some, List.foldlM_cons]
    exact hinner.foldlM_settle _

/-! ## The tags of a description -/

/-- The tag that an event at `pos` is, unless it is none or one of an element without content. -/
def Event.nestingTag? (pos : Position) : Event → Option Tag
  | .startTag name selfClosing =>
    if selfClosing || voidElements.contains (Body.elementName name) then none
    else some (.opens ⟨Body.elementName name, pos⟩)
  | .endTag name =>
    if voidElements.contains (Body.elementName name) then none
    else some (.closes (Body.elementName name))
  | .ignored | .text _ | .cdata _ | .malformed _ => none

/-- The tags of pieces that stand behind `front`. -/
def tagsFrom (front : List Char) : List Piece → List Tag
  | [] => []
  | piece :: pieces =>
    (piece.event.nestingTag? (.behind front)).toList ++ tagsFrom (front ++ piece.chars) pieces

theorem tagsFrom_append (front : List Char) (pieces more : List Piece) :
    tagsFrom front (pieces ++ more) =
      tagsFrom front pieces ++ tagsFrom (front ++ Piece.text pieces) more := by
  induction pieces generalizing front with
  | nil => simp [tagsFrom, Piece.text]
  | cons piece pieces ih => simp [tagsFrom, Piece.text, ih]

/-- Does a word of tags open a body? -/
def OpensBody (tags : List Tag) : Prop := ∃ e, Tag.opens e ∈ tags ∧ e.name = "body"

/-- A description that splits into events, with well-nested tags and a body. -/
def WellFormed (source : List Char) : Prop :=
  ∃ pieces, Splits source pieces [] ∧ Nested (tagsFrom [] pieces) ∧ OpensBody (tagsFrom [] pieces)

/-- The error is the first thing that is wrong with a description. What stands before it is fine,
though elements may be open there. -/
inductive FirstFailure (source : List Char) : MarkupError → Prop
  /-- Here no event can be read. -/
  | malformed {pieces : List Piece} {elements : List OpenElement} {rest : List Char} :
      Splits source pieces rest → Leaves (tagsFrom [] pieces) elements → Event.Stuck rest →
        FirstFailure source (malformedError (.behind (Piece.text pieces)) rest)
  /-- Here an element is closed, but none is open. -/
  | stray {pieces : List Piece} {chars rest : List Char} {event : Event} {name : String} :
      Splits source pieces (chars ++ rest) → Nested (tagsFrom [] pieces) →
        Event.Reads chars event rest →
          event.nestingTag? (.behind (Piece.text pieces)) = some (.closes name) →
            FirstFailure source (.strayEndTag (.behind (Piece.text pieces)) name)
  /-- Here an element is closed, but another one is the innermost. -/
  | mismatched {pieces : List Piece} {chars rest : List Char} {event : Event} {name : String}
      {e : OpenElement} {outer : List OpenElement} :
      Splits source pieces (chars ++ rest) → Leaves (tagsFrom [] pieces) (e :: outer) →
        Event.Reads chars event rest →
          event.nestingTag? (.behind (Piece.text pieces)) = some (.closes name) → e.name ≠ name →
            FirstFailure source (.mismatchedTag (.behind (Piece.text pieces)) e.name name)
  /-- At the end, an element is still open. -/
  | unclosed {pieces : List Piece} {e : OpenElement} {outer : List OpenElement} :
      Splits source pieces [] → Leaves (tagsFrom [] pieces) (e :: outer) →
        FirstFailure source (.unclosed e.name e.pos)
  | missingBody {pieces : List Piece} :
      Splits source pieces [] → Nested (tagsFrom [] pieces) → ¬ OpensBody (tagsFrom [] pieces) →
        FirstFailure source .missingBody

/-- Reading on from where all is well so far, all stays well or the first failure shows up. -/
theorem leaves_or_firstFailure {before : List Piece} {elements : List OpenElement}
    (hsplits : Splits cs pieces rest) (hbefore : Splits source before cs)
    (hleaves : Leaves (tagsFrom [] before) elements) :
    (∃ elements, Leaves (tagsFrom [] (before ++ pieces)) elements) ∨
      ∃ error, FirstFailure source error := by
  induction hsplits generalizing before elements with
  | none rest =>
    rw [List.append_nil]
    exact .inl ⟨elements, hleaves⟩
  | piece piece hreads _ ih =>
    have hpiece : Splits source (before ++ [piece]) _ := hbefore.concat hreads
    have hgo {elements} (hleaves : Leaves (tagsFrom [] (before ++ [piece])) elements) :=
      ih hpiece hleaves
    rw [List.append_assoc, List.singleton_append] at hgo
    -- a piece without a tag changes nothing; an end tag has to name the innermost element
    cases htag : piece.event.nestingTag? (.behind (Piece.text before)) with
    | none =>
      apply hgo
      simpa [tagsFrom_append, tagsFrom, htag] using hleaves
    | some tag =>
      have htags : tagsFrom [] (before ++ [piece]) = tagsFrom [] before ++ [tag] := by
        simp [tagsFrom_append, tagsFrom, htag]
      rw [htags] at hgo
      cases tag with
      | opens e => exact hgo (hleaves.concat_opens e)
      | closes name =>
        cases elements with
        | nil => exact .inr ⟨_, .stray hbefore hleaves.nested_of_nil hreads htag⟩
        | cons e outer =>
          by_cases hname : e.name = name
          · exact hgo (hname ▸ hleaves.concat_closes)
          · exact .inr ⟨_, .mismatched hbefore hleaves hreads htag hname⟩

/-- A description is well-formed, or there is a first thing that is wrong with it. -/
theorem wellFormed_or_firstFailure (source : List Char) :
    WellFormed source ∨ ∃ error, FirstFailure source error := by
  obtain ⟨pieces, rest, hsplits, hend⟩ := exists_splits source
  rcases leaves_or_firstFailure hsplits (.none source) (.nested .nil) with ⟨elements, hleaves⟩ | h
  · rw [List.nil_append] at hleaves
    rcases hend with rfl | hstuck
    · cases elements with
      | nil =>
        have hnested : Nested (tagsFrom [] pieces) := hleaves.nested_of_nil
        by_cases hbody : OpensBody (tagsFrom [] pieces)
        · exact .inl ⟨pieces, hsplits, hnested, hbody⟩
        · exact .inr ⟨_, .missingBody hsplits hnested hbody⟩
      | cons e outer => exact .inr ⟨_, .unclosed hsplits hleaves⟩
    · exact .inr ⟨_, .malformed hsplits hleaves hstuck⟩
  · exact .inr h

namespace Body

/-! ## Steps -/

@[simp] theorem elements_append (s : State) (cs : List Char) :
    (s.append cs).elements = s.elements := by
  unfold State.append
  split <;> rfl

@[simp] theorem seenBody_append (s : State) (cs : List Char) :
    (s.append cs).seenBody = s.seenBody := by
  unfold State.append
  split <;> rfl

@[simp] theorem elements_separate (s : State) (name : String) :
    (s.separate name).elements = s.elements := by
  unfold State.separate
  split <;> simp

@[simp] theorem seenBody_separate (s : State) (name : String) :
    (s.separate name).seenBody = s.seenBody := by
  unfold State.separate
  split <;> simp

theorem elements_openElement (s : State) (name : String) (pos : Position) :
    (s.openElement name pos).elements = ⟨name, pos⟩ :: s.elements := by
  unfold State.openElement
  split <;> rfl

theorem seenBody_openElement (s : State) (name : String) (pos : Position) :
    (s.openElement name pos).seenBody = true ↔ s.seenBody = true ∨ name = "body" := by
  unfold State.openElement
  split <;> simp_all

/-- Closing the innermost element takes it off the stack. -/
theorem closeElement_of_cons {e : OpenElement} {outer : List OpenElement}
    (hs : s.elements = e :: outer) (pos : Position) :
    ∃ t, s.closeElement e.name pos = .ok t ∧ t.elements = outer ∧ t.seenBody = s.seenBody := by
  unfold State.closeElement
  rw [hs]
  simp only [ne_eq, not_true_eq_false, if_false]
  split
  · exact ⟨_, rfl, rfl, rfl⟩
  · exact ⟨_, rfl, by simp, by simp⟩

/-- An event that is no tag for the nesting leaves the stack alone. -/
theorem step_of_none (hread : event.isRead = true) (htag : event.nestingTag? pos = none) :
    ∃ t, s.step pos event = .ok t ∧ t.elements = s.elements ∧ t.seenBody = s.seenBody := by
  cases event with
  | ignored => exact ⟨s, rfl, rfl, rfl⟩
  | text raw | cdata raw => exact ⟨_, rfl, elements_append _ _, seenBody_append _ _⟩
  | malformed rest => cases hread
  | startTag name selfClosing =>
    simp only [Event.nestingTag?] at htag
    split at htag
    · next hinert =>
      refine ⟨s.separate (elementName name), ?_, elements_separate _ _, seenBody_separate _ _⟩
      simp only [State.step, hinert, if_true]
    · cases htag
  | endTag name =>
    simp only [Event.nestingTag?] at htag
    split at htag
    · next hinert => exact ⟨s, by simp only [State.step, hinert, if_true], rfl, rfl⟩
    · cases htag

theorem step_of_opens {e : OpenElement} (htag : event.nestingTag? pos = some (.opens e)) :
    ∃ t, s.step pos event = .ok t ∧ t.elements = e :: s.elements ∧
      (t.seenBody = true ↔ s.seenBody = true ∨ e.name = "body") := by
  cases event with
  | ignored | text raw | cdata raw | malformed rest => cases htag
  | startTag name selfClosing =>
    simp only [Event.nestingTag?] at htag
    split at htag
    · cases htag
    · next hopen =>
      cases htag
      refine ⟨(s.separate (elementName name)).openElement (elementName name) pos, ?_, ?_, ?_⟩
      · simp only [State.step]
        rw [if_neg hopen]
      · rw [elements_openElement, elements_separate]
      · rw [seenBody_openElement, seenBody_separate]
  | endTag name =>
    simp only [Event.nestingTag?] at htag
    split at htag <;> cases htag

theorem step_of_closes {name : String} (htag : event.nestingTag? pos = some (.closes name)) :
    s.step pos event = s.closeElement name pos := by
  cases event with
  | ignored | text raw | cdata raw | malformed rest => cases htag
  | startTag name selfClosing =>
    simp only [Event.nestingTag?] at htag
    split at htag <;> cases htag
  | endTag name =>
    simp only [Event.nestingTag?] at htag
    split at htag
    · cases htag
    · next hclose =>
      cases htag
      simp only [State.step]
      rw [if_neg hclose]

/-! ## Runs -/

theorem opensBody_append {tags : List Tag} :
    OpensBody (tags ++ more) ↔ OpensBody tags ∨ OpensBody more := by
  simp only [OpensBody, List.mem_append, or_and_right, exists_or]

/-- What a step does to the stack is up to the tag, and so is whether a body is seen. -/
theorem step_of_settle {elements : List OpenElement} (hread : event.isRead = true)
    (h : (event.nestingTag? pos).toList.foldlM Tag.settle s.elements = some elements) :
    ∃ t, s.step pos event = .ok t ∧ t.elements = elements ∧
      (t.seenBody = true ↔ s.seenBody = true ∨ OpensBody (event.nestingTag? pos).toList) := by
  -- the tag settles with the stack as the step does, case by case
  cases htag : event.nestingTag? pos with
  | none =>
    obtain ⟨t, hstep, ht, hseen⟩ := step_of_none (s := s) hread htag
    rw [htag] at h
    cases h
    exact ⟨t, hstep, ht, by simp [hseen, OpensBody]⟩
  | some tag =>
    rw [htag] at h
    cases tag with
    | opens e =>
      obtain ⟨t, hstep, ht, hseen⟩ := step_of_opens (s := s) htag
      cases h
      exact ⟨t, hstep, ht, by simp [hseen, OpensBody]⟩
    | closes name =>
      rw [step_of_closes htag]
      cases hs : s.elements with
      | nil =>
        rw [hs] at h
        cases h
      | cons e outer =>
        have hname : e.name = name ∧ outer = elements := by
          simpa [hs, Tag.settle] using h
        obtain ⟨t, hclose, ht, hseen⟩ := closeElement_of_cons hs pos
        rw [hname.1] at hclose
        exact ⟨t, hclose, ht.trans hname.2, by simp [hseen, OpensBody]⟩

/-- A run takes in the first event, which stands where counting says, and goes on behind it. -/
theorem run_first {front : List Char} {c : Char} {chars : List Char}
    (hfirst : Event.first c (chars ++ cs) = (event, cs)) (s : State) :
    run (.ofSource (front ++ c :: (chars ++ cs))) s (byteLength front) (c :: (chars ++ cs)) =
      (s.step (.behind front) event).bind fun t =>
        run (.ofSource (front ++ c :: (chars ++ cs))) t (byteLength (front ++ c :: chars)) cs := by
  rw [run, Event.readFrom_cons _ hfirst, List.foldlM_cons, Text.position_ofSource,
    Text.byteLength_append]
  rfl

/-- Over pieces whose tags are fine, the stack holds exactly the elements that they leave open. -/
theorem run_of_splits {front : List Char} {elements : List OpenElement}
    (hsplits : Splits cs pieces rest)
    (hsettle : (tagsFrom front pieces).foldlM Tag.settle s.elements = some elements) :
    ∃ t : State, t.elements = elements ∧
      (t.seenBody = true ↔ s.seenBody = true ∨ OpensBody (tagsFrom front pieces)) ∧
      run (.ofSource (front ++ cs)) s (byteLength front) cs =
        run (.ofSource (front ++ cs)) t (byteLength (front ++ Piece.text pieces)) rest := by
  induction hsplits generalizing front s with
  | none rest =>
    cases hsettle
    exact ⟨s, rfl, by simp [tagsFrom, OpensBody], by simp [Piece.text]⟩
  | @piece piece cs pieces rest hreads _ ih =>
    obtain ⟨c, chars, hchars, hfirst, hread⟩ := hreads.first_eq
    rw [tagsFrom, List.foldlM_append, Option.bind_eq_bind, Option.bind_eq_some_iff] at hsettle
    -- the tags of the first piece settle first, and the others go on from what they leave
    obtain ⟨between, htag, hrest⟩ := hsettle
    obtain ⟨t, hstep, ht, hseen⟩ := step_of_settle hread htag
    rw [← ht] at hrest
    obtain ⟨u, hu, hseen', hrun⟩ := ih hrest
    refine ⟨u, hu, ?_, ?_⟩
    · rw [hseen', hseen, tagsFrom, opensBody_append, or_assoc]
    · have hpiece : run (.ofSource (front ++ (piece.chars ++ cs))) s (byteLength front)
          (piece.chars ++ cs) = run (.ofSource (front ++ (piece.chars ++ cs))) t
            (byteLength (front ++ piece.chars)) cs := by
        rw [hchars, List.cons_append, run_first hfirst, hstep]
        rfl
      have htext : front ++ Piece.text (piece :: pieces) =
          front ++ piece.chars ++ Piece.text pieces := by
        rw [Piece.text, List.flatMap_cons, ← List.append_assoc, Piece.text]
      rw [hpiece, htext, ← List.append_assoc, hrun]

/-! ## Outcomes -/

/-- Where all pieces before are fine, reading has come to the piece that follows them. -/
theorem exists_run_of_leaves {elements : List OpenElement} (hsplits : Splits source pieces rest)
    (hleaves : Leaves (tagsFrom [] pieces) elements) :
    ∃ t : State, t.elements = elements ∧ (t.seenBody = true ↔ OpensBody (tagsFrom [] pieces)) ∧
      extract (String.ofList source) =
        (run (.ofSource source) t (byteLength (Piece.text pieces)) rest).bind State.finish := by
  obtain ⟨t, ht, hseen, hrun⟩ := run_of_splits (s := {}) hsplits hleaves.foldlM_settle
  simp only [Bool.false_eq_true, false_or] at hseen
  refine ⟨t, ht, hseen, ?_⟩
  rw [extract_eq_run]
  exact congrArg (Except.bind · State.finish) hrun

theorem extract_of_wellFormed (h : WellFormed source) :
    ∃ text, extract (String.ofList source) = .ok text := by
  obtain ⟨pieces, hsplits, hnested, hbody⟩ := h
  obtain ⟨t, ht, hseen, hrun⟩ := exists_run_of_leaves hsplits (.nested hnested)
  refine ⟨String.ofList (Text.collapse t.text), ?_⟩
  rw [hrun, run_nil]
  show t.finish = .ok _
  rw [State.finish, ht, hseen.mpr hbody]
  rfl

/-- An event that cannot be taken in, where all is fine before it. -/
theorem extract_of_step_error {c : Char} {elements : List OpenElement} {error : MarkupError}
    (hsplits : Splits source pieces (c :: (cs ++ rest)))
    (hleaves : Leaves (tagsFrom [] pieces) elements)
    (hfirst : Event.first c (cs ++ rest) = (event, rest))
    (hstep : ∀ t : State, t.elements = elements → t.step (.behind (Piece.text pieces)) event =
      .error error) : extract (String.ofList source) = .error error := by
  obtain ⟨t, ht, -, hrun⟩ := exists_run_of_leaves hsplits hleaves
  rw [hrun, hsplits.eq_append, run_first hfirst, hstep t ht]
  rfl

theorem extract_of_firstFailure {error : MarkupError} (h : FirstFailure source error) :
    extract (String.ofList source) = .error error := by
  cases h with
  | @malformed pieces elements rest hsplits hleaves hstuck =>
    -- in each case reading comes to the fault over pieces that are fine, and fails there
    cases rest with
    | nil => exact absurd rfl hstuck.1
    | cons c cs =>
      have hfirst := Event.first_of_stuck hstuck
      rw [← List.append_nil cs] at hsplits hfirst
      apply extract_of_step_error hsplits hleaves hfirst
      intro t ht
      rw [List.append_nil]
      rfl
  | stray hsplits hnested hreads htag =>
    obtain ⟨c, cs, rfl, hfirst, -⟩ := hreads.first_eq
    apply extract_of_step_error hsplits (.nested hnested) hfirst
    intro t ht
    rw [step_of_closes htag, State.closeElement, ht]
  | mismatched hsplits hleaves hreads htag hname =>
    obtain ⟨c, cs, rfl, hfirst, -⟩ := hreads.first_eq
    apply extract_of_step_error hsplits hleaves hfirst
    intro t ht
    simp only [step_of_closes htag, State.closeElement, ht]
    rw [if_pos hname]
  | unclosed hsplits hleaves =>
    obtain ⟨t, ht, -, hrun⟩ := exists_run_of_leaves hsplits hleaves
    rw [hrun, run_nil]
    show t.finish = .error _
    rw [State.finish, ht]
  | missingBody hsplits hnested hbody =>
    obtain ⟨t, ht, hseen, hrun⟩ := exists_run_of_leaves hsplits (.nested hnested)
    rw [hrun, run_nil]
    show t.finish = .error _
    rw [State.finish, ht, Bool.eq_false_iff.mpr (mt hseen.mp hbody)]
    rfl

/-- A description is read if and only if it splits into events whose tags are well nested and open a
body. If it is not read, the error is the first thing that is wrong. -/
theorem extract_accepts_nested_only (source : String) :
    ((∃ text, extract source = .ok text) ↔ WellFormed source.toList) ∧
      ∀ error, extract source = .error error ↔ FirstFailure source.toList error := by
  have hsource : String.ofList source.toList = source := String.ofList_toList
  have hread {error : MarkupError} (h : FirstFailure source.toList error) :
      extract source = .error error := hsource ▸ extract_of_firstFailure h
  have hok (h : WellFormed source.toList) : ∃ text, extract source = .ok text :=
    hsource ▸ extract_of_wellFormed h
  -- Each source has one of the two outcomes, and reading it gives only one result.
  rcases wellFormed_or_firstFailure source.toList with hformed | ⟨error, hfailure⟩
  · obtain ⟨text, htext⟩ := hok hformed
    refine ⟨⟨fun _ => hformed, hok⟩, fun error => ⟨fun herror => ?_, hread⟩⟩
    rw [htext] at herror
    cases herror
  · have herror := hread hfailure
    refine ⟨⟨?_, hok⟩, fun other => ⟨fun hother => ?_, hread⟩⟩
    · rintro ⟨text, htext⟩
      rw [htext] at herror
      cases herror
    · rw [herror] at hother
      cases hother
      exact hfailure

/-- A body that is read, and one that is closed while an element in it is open. -/
theorem extract_accepts_nested_only_body :
    WellFormed "<Body>a<br></Body>".toList ∧ (∃ text, extract "<Body>a<br></Body>" = .ok text) ∧
      FirstFailure "<Body><p></Body>".toList (.mismatchedTag ⟨1, 10⟩ "p" "body") ∧
      extract "<Body><p></Body>" = .error (.mismatchedTag ⟨1, 10⟩ "p" "body") := by
  have hend : Splits (endTag bodyName ++ []) [⟨endTag bodyName, .endTag bodyName.chars⟩] [] :=
    .piece ⟨_, _⟩ (reads_endTag bodyName []) (.none [])
  have htext : Event.Reads ['a'] (.text ['a'])
      (startTag lineBreakName [] false ++ (endTag bodyName ++ [])) :=
    .text (by decide) fun _ hd => (Option.some.inj hd).symm
  -- The line break is left open, as it may be; a paragraph may not.
  have hformed : WellFormed "<Body>a<br></Body>".toList := by
    have hsplits : Splits "<Body>a<br></Body>".toList _ [] :=
      .piece ⟨startTag bodyName [] false, .startTag bodyName.chars false⟩
        (reads_startTag bodyName [] false _) (.piece ⟨['a'], .text ['a']⟩ htext (.piece
          ⟨startTag lineBreakName [] false, .startTag lineBreakName.chars false⟩
          (reads_startTag lineBreakName [] false _) hend))
    refine ⟨_, hsplits, ?_, ?_⟩
    · exact .element ⟨"body", ⟨1, 1⟩⟩ .nil .nil
    · exact ⟨⟨"body", ⟨1, 1⟩⟩, List.mem_cons_self, rfl⟩
  have hfailure : FirstFailure "<Body><p></Body>".toList
      (.mismatchedTag ⟨1, 10⟩ "p" "body") := by
    have hsplits : Splits "<Body><p></Body>".toList _ (endTag bodyName ++ []) :=
      .piece ⟨startTag bodyName [] false, .startTag bodyName.chars false⟩
        (reads_startTag bodyName [] false _) (.piece
          ⟨startTag paragraphName [] false, .startTag paragraphName.chars false⟩
          (reads_startTag paragraphName [] false _) (.none _))
    exact .mismatched (e := ⟨"p", ⟨1, 7⟩⟩) hsplits
      (.opened ⟨"p", ⟨1, 7⟩⟩ (.opened ⟨"body", ⟨1, 1⟩⟩ (.nested .nil) .nil) .nil)
      (reads_endTag bodyName []) rfl (by decide)
  exact ⟨hformed, (extract_accepts_nested_only _).1.mpr hformed, hfailure,
    ((extract_accepts_nested_only _).2 _).mpr hfailure⟩

end Body

end ApiDoc.Markup
