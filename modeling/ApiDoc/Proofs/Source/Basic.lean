import ApiDoc.Proofs.Source.Run

/-!
# Taking names, types and modifiers

A type ends where it cannot go on: at a token that is neither `<` nor `.` nor `[`. A list of types
ends where no comma follows, and modifiers end at a token that starts neither a modifier nor an
annotation.
-/

namespace ApiDoc.Syntax.Source

open ApiDoc.Syntax.Parser (Step angleRound depthBehind iterate)
open Grammar (java)

variable {e : Spot} {before rest : List Word}

/-! ## Lists -/

/-- A repetition takes items one after the other, up to where a round stops. -/
theorem Takes.many {α β : Type} {item : α → List Word} {value : α → β}
    {body : List β → Parser (Step (List β) (List β))} (hne : ∀ a, item a ≠ [])
    (hnext : ∀ found before a (as : List α), Takes e (body found) before (item a)
      (as.flatMap item ++ rest) (.next (found ++ [value a])))
    (hlast : ∀ found before, Takes e (body found) before [] rest (.done found)) (as : List α) :
    Takes e (iterate [] body) before (as.flatMap item) rest (as.map value) := by
  show Takes e (iterate [] body) before (as.flatMap item) rest ([] ++ as.map value)
  generalize ([] : List β) = found
  induction as generalizing found before with
  | nil =>
    rw [List.flatMap_nil, List.map_nil, List.append_nil]
    exact .done (hlast found before)
  | cons a as ih =>
    rw [List.flatMap_cons, List.map_cons, List.append_cons]
    exact .next (hne a) (hnext found before a as) (ih _)

/-- A repetition takes items between separators. Each round takes an item and either the separator
behind it or, for the last one, what ends the list. -/
theorem Takes.separated {α β : Type} {item : α → List Word} {value : α → β} {c : Char}
    {tail : List Word} {body : List β → Parser (Step (List β) (List β))}
    (hnext : ∀ found before rest a (separator : Spot), Takes e (body found) before
      (item a ++ [separator.punct c]) rest (.next (found ++ [value a])))
    (hlast : ∀ found before a,
      Takes e (body found) before (item a ++ tail) rest (.done (found ++ [value a])))
    (s : Separated α) :
    Takes e (iterate [] body) before (s.words item c ++ tail) rest (s.items.map value) := by
  obtain ⟨a, more⟩ := s
  show Takes e (iterate [] body) before (item a ++ Separated.wordsOf item c more ++ tail) rest
    ([] ++ value a :: (more.map Prod.snd).map value)
  -- The items found so far are no longer none behind the first round.
  generalize ([] : List β) = found
  induction more generalizing a found before with
  | nil =>
    rw [Separated.wordsOf_nil, List.append_nil]
    exact .done (hlast found before a)
  | cons m more ih =>
    obtain ⟨separator, a'⟩ := m
    have hwords : item a ++ Separated.wordsOf item c ((separator, a') :: more) ++ tail =
        (item a ++ [separator.punct c]) ++ (item a' ++ Separated.wordsOf item c more ++ tail) := by
      simp
    have hfound : found ++ value a :: (((separator, a') :: more).map Prod.snd).map value =
        found ++ [value a] ++ value a' :: (more.map Prod.snd).map value := by
      simp
    rw [hwords, hfound]
    exact .next (by simp) (hnext found before _ a separator) (ih a' _)

/-! ## Names -/

theorem takes_name (n : Name) : Takes e java.name before [n.word] rest n.text := by
  unfold Grammar.name
  exact .expect (w := n.word) rfl .pure

/-- A dotted name is taken up to a token that is no dot with an identifier behind it. -/
theorem takes_qualifiedName (q : QualifiedName)
    (hrest : ((first e rest).isPunct '.' && (first e rest.tail).kind = .ident) = false) :
    Takes e (Parser.qualifiedName java.soft) before q.words rest q.text := by
  obtain ⟨n, more⟩ := q
  unfold Parser.qualifiedName
  refine .expect (w := n.word) rfl ?_
  show Takes e (iterate n.text _) _ (Separated.wordsOf _ _ more) _
    (".".intercalate (n.text :: (more.map Prod.snd).map Name.text))
  generalize n.text = text
  generalize n.word :: before = before
  induction more generalizing text before with
  | nil =>
    show Takes e _ _ [] _ _
    refine .done (.atDottedIdent ?_)
    rw [List.nil_append, hrest]
    exact .pure
  | cons m more ih =>
    obtain ⟨dot, n⟩ := m
    show Takes e _ _ ([dot.punct '.', n.word] ++ _) _ _
    refine .next (List.cons_ne_nil _ _) (.atDottedIdent ?_) (ih (text ++ "." ++ n.text) _)
    exact .bump (.bump .pure)

/-! ## Types -/

/-- Pairs of square brackets are taken up to where there is none. -/
theorem takes_dimensions (dims : List Dimension)
    (hrest : ((first e rest).isPunct '[' && (first e rest.tail).isPunct ']') = false) :
    Takes e Parser.dimensions before (dims.flatMap Dimension.words) rest
      (String.join (dims.map fun _ => "[]")) := by
  unfold Parser.dimensions String.join
  generalize "" = text
  induction dims generalizing text before with
  | nil =>
    refine .done (.atDimension ?_)
    rw [List.flatMap_nil, List.nil_append, hrest]
    exact .pure
  | cons d dims ih =>
    show Takes e _ _ ([d.opening.punct '[', d.closing.punct ']'] ++ _) _ _
    refine .next (List.cons_ne_nil _ _) (.atDimension ?_) (ih _)
    exact .bump (.bump .pure)

theorem Word.IsArgumentPart.isTypeArgumentPart {w : Word} (h : w.IsArgumentPart) :
    Parser.isTypeArgumentPart w.token = true := by
  rcases h with h | h | ⟨h, htext⟩
  · simp [Parser.isTypeArgumentPart, Word.token, h]
  · simp [Parser.isTypeArgumentPart, Word.token, h]
  · simp only [List.mem_cons, List.not_mem_nil, or_false] at htext
    simp only [Parser.isTypeArgumentPart, Word.token, h]
    rcases htext with h | h | h | h | h | h | h <;> rw [h] <;> decide

theorem Word.IsArgumentPart.isPunct_eq_false {w : Word} (h : w.IsArgumentPart) {c : Char}
    (hc : c.toString ∉ [",", ".", "?", "&", "[", "]", "@"]) : w.token.isPunct c = false := by
  rcases h with h | h | ⟨h, htext⟩
  · exact Token.isPunct_of_kind (by simp [Word.token, h])
  · exact Token.isPunct_of_kind (by simp [Word.token, h])
  · have htoken : w.token.text ≠ c.toString := fun heq => hc (heq ▸ htext)
    rw [Token.isPunct, decide_eq_false htoken, Bool.and_false]

theorem Word.IsArgumentPart.depthBehind {w : Word} (h : w.IsArgumentPart) (depth : Nat) :
    depthBehind depth w.token = depth := by
  rw [Parser.depthBehind, h.isPunct_eq_false (by simp), h.isPunct_eq_false (by simp)]
  rfl

section

variable {start : Token} {depth : Nat} {w : Word}

theorem takes_angleRound_next (hpart : Parser.isTypeArgumentPart w.token = true)
    (hdepth : depthBehind depth w.token ≠ 0) :
    Takes e (angleRound start depth) before [w] rest (.next (depthBehind depth w.token)) := by
  unfold angleRound
  refine .peek ?_
  rw [List.singleton_append, first_cons, w.isEof_token, hpart]
  refine .bump ?_
  rw [if_neg hdepth]
  exact .pure

theorem takes_angleRound_done (hpart : Parser.isTypeArgumentPart w.token = true)
    (hdepth : depthBehind depth w.token = 0) :
    Takes e (angleRound start depth) before [w] rest (.done ()) := by
  unfold angleRound
  refine .peek ?_
  rw [List.singleton_append, first_cons, w.isEof_token, hpart]
  refine .bump ?_
  rw [if_pos hdepth]
  exact .pure

/-- Angle brackets that are open stay open over words in which angle brackets match. -/
theorem takes_angled {inside vs : List Word} (h : Angled inside)
    (hvs : Takes e (iterate (depth + 1) (angleRound start)) (inside.reverse ++ before) vs rest ()) :
    Takes e (iterate (depth + 1) (angleRound start)) before (inside ++ vs) rest () := by
  induction h generalizing depth before vs with
  | nil => exact hvs
  | @word w ws hw hws ih =>
    have hdepth := hw.depthBehind (depth + 1)
    refine .next_cons (takes_angleRound_next hw.isTypeArgumentPart (by simp [hdepth])) ?_
    rw [hdepth]
    exact ih (by simpa using hvs)
  | group hinside hws ihinside ihws =>
    rw [List.cons_append, List.append_assoc, List.cons_append]
    refine .next_cons (takes_angleRound_next rfl (Nat.succ_ne_zero _)) ?_
    refine ihinside ?_
    refine .next_cons (takes_angleRound_next rfl (Nat.succ_ne_zero _)) ?_
    exact ihws (by simpa using hvs)

end

theorem takes_skipAngles (a : Arguments) : Takes e Parser.skipAngles before a.words rest () := by
  unfold Parser.skipAngles
  refine .expectPunct (takes_angled a.angled ?_)
  exact .done (takes_angleRound_done rfl rfl)

theorem takes_skipClassType (segments : Separated Segment)
    (hangle : (first e rest).isPunct '<' = false) (hdot : (first e rest).isPunct '.' = false) :
    Takes e (Parser.skipClassType java.soft) before (segments.words Segment.words '.') rest () := by
  obtain ⟨⟨n, arguments⟩, more⟩ := segments
  unfold Parser.skipClassType
  refine .expect (w := n.word) rfl ?_
  show Takes e (iterate () _) _
    (arguments.elim [] Arguments.words ++ Separated.wordsOf _ _ more) _ _
  -- each round takes the arguments of one segment and the name of the next
  generalize n.word :: before = before
  induction more generalizing arguments before with
  | nil =>
    rw [Separated.wordsOf_nil]
    refine .done (.atPunct (.guarded ?_ (fun a _ => takes_skipAngles a) (.atDottedIdent ?_)))
    · rw [List.append_assoc]
      exact first_elim (p := fun t => t.isPunct '<') (fun a => rfl) hangle
    · rw [List.nil_append, hdot]
      exact .pure
  | cons m more ih =>
    obtain ⟨dot, n, behind⟩ := m
    have hwords : arguments.elim [] Arguments.words ++
        Separated.wordsOf Segment.words '.' ((dot, ⟨n, behind⟩) :: more) =
        (arguments.elim [] Arguments.words ++ [dot.punct '.', n.word]) ++
          (behind.elim [] Arguments.words ++ Separated.wordsOf Segment.words '.' more) := by
      simp [Segment.words]
    rw [hwords]
    refine .next (by simp) (.atPunct (.guarded ?_ (fun a _ => takes_skipAngles a)
      (.atDottedIdent (.bump (.bump .pure))))) (ih behind _)
    rw [List.append_assoc]
    exact first_elim (p := fun t => t.isPunct '<') (fun a => rfl) (by simp)

/-- Does a type end in front of the token? -/
def endsType (t : Token) : Bool := !(t.isPunct '<' || t.isPunct '.' || t.isPunct '[')

theorem firstSpot_words (t : TypeUse) : firstSpot e (t.words ++ rest) = t.spot := by
  obtain ⟨name | ⟨segment, more⟩, dims⟩ := t <;> rfl

theorem takes_typeText (t : TypeUse) (hrest : endsType (first e rest) = true) :
    Takes e java.typeText before t.words rest (joined t.words) := by
  simp only [endsType, Bool.not_eq_true', Bool.or_eq_false_iff] at hrest
  obtain ⟨⟨hangle, hdot⟩, hbracket⟩ := hrest
  obtain ⟨name, dims⟩ := t
  unfold Grammar.typeText Parser.typeText
  refine .get (.peek ?_)
  rw [index_cursor]
  -- either kind of name is followed by the dimensions, and the text is cut from the start of the
  -- name
  have hdims : Takes e (Parser.dimensions >>= fun _ => Parser.textSince before.length)
      (name.words.reverse ++ before) (dims.flatMap Dimension.words) rest
      (joined (name.words ++ dims.flatMap Dimension.words)) := by
    refine .last (takes_dimensions dims (by rw [hbracket, Bool.false_and])) ?_
    rw [← List.append_assoc, ← List.reverse_append]
    exact .text
  cases name with
  | primitive spot word hword =>
    have hprimitive : ((spot.keyword word).token.kind = .keyword &&
        primitives.contains (spot.keyword word).token.text) = true := by
      simpa [Spot.keyword, Word.token] using hword
    have hfirst : first e (TypeUse.words ⟨.primitive spot word hword, dims⟩ ++ rest) =
        (spot.keyword word).token := rfl
    rw [hfirst, if_pos hprimitive]
    refine .bump ?_
    exact hdims
  | named segments =>
    have hfirst : (first e (TypeUse.words ⟨.named segments, dims⟩ ++ rest)).kind = .ident := rfl
    rw [hfirst]
    refine .bind (takes_skipClassType segments ?_ ?_) hdims
    · cases dims with
      | nil => exact hangle
      | cons d dims => simp [Dimension.words]
    · cases dims with
      | nil => exact hdot
      | cons d dims => simp [Dimension.words]

theorem takes_typeNode (t : TypeUse) (hrest : endsType (first e rest) = true) :
    Takes e java.typeNode before t.words rest t.tree := by
  unfold Grammar.typeNode
  refine .pos (.last (takes_typeText t hrest) ?_)
  rw [firstSpot_words]
  exact .pure

/-- A clause of types is taken up to a token that ends a type and is no comma. -/
theorem takes_typeList (kind : JavaKind) (word : String) (c : Clause)
    (hrest : endsType (first e rest) = true) (hcomma : (first e rest).isPunct ',' = false) :
    Takes e (java.typeList kind word) before (c.words word) rest (c.tree kind) := by
  unfold Grammar.typeList
  refine .expectKeyword (.last ?_ .pure)
  rw [← List.append_nil (c.types.words _ _)]
  refine .separated (fun found before rest t separator => ?_) (fun found before t => ?_) c.types
  · refine .passLines (.bind (takes_typeNode t (by simp [endsType])) (.get ?_))
    simp only [List.singleton_append, peek_java, peek_zero_cursor, first_cons, isPunct_punct]
    exact .passLines (.bump .pure)
  · rw [List.append_nil]
    refine .passLines (.last (takes_typeNode t hrest) (.get ?_))
    simp only [List.nil_append, peek_java, peek_zero_cursor, hcomma]
    exact .pure

theorem takes_bounds (types : Separated TypeUse)
    (hrest : endsType (first e rest) = true) (hand : (first e rest).isPunct '&' = false) :
    Takes e java.bounds before (types.words TypeUse.words '&') rest () := by
  obtain ⟨t, more⟩ := types
  unfold Grammar.bounds
  show Takes e _ _ (t.words ++ Separated.wordsOf TypeUse.words '&' more) _ _
  induction more generalizing t before with
  | nil =>
    rw [Separated.wordsOf_nil, List.append_nil]
    exact .done (.last (takes_typeText t hrest) (.eatIf_none hand .pure))
  | cons m more ih =>
    obtain ⟨separator, t'⟩ := m
    have hwords : t.words ++ Separated.wordsOf TypeUse.words '&' ((separator, t') :: more) =
        (t.words ++ [separator.punct '&']) ++
          (t'.words ++ Separated.wordsOf TypeUse.words '&' more) := by
      simp
    rw [hwords]
    refine .next (by simp) (.bind (takes_typeText t (by simp [endsType])) ?_) (ih t')
    exact .eatIf (by simp) .pure

/-! ## Type parameters -/

/-- A type parameter is taken with its bounds, and its text is at hand behind it. -/
theorem takes_typeParameter {β : Type} {b : β} {vs : List Word} {k : String → Parser β}
    (p : TypeParameter) (hword : (first e (vs ++ rest)).isKeyword "extends" = false)
    (htype : endsType (first e (vs ++ rest)) = true)
    (hand : (first e (vs ++ rest)).isPunct '&' = false)
    (hk : Takes e (k (joined p.words)) (p.words.reverse ++ before) vs rest b) :
    Takes e (do
      let _ ← java.name
      if ← Parser.eatKeyword "extends" then java.bounds
      k (← Parser.textSince before.length)) before (p.words ++ vs) rest b := by
  obtain ⟨n, bounds⟩ := p
  cases bounds with
  | none =>
    refine .bind (takes_name n) (.eatIf_none hword ?_)
    exact .textSince hk
  | some bounds =>
    obtain ⟨keyword, types⟩ := bounds
    have hwords : TypeParameter.words ⟨n, some ⟨keyword, types⟩⟩ ++ vs = [n.word] ++
        keyword.keyword "extends" :: (types.words TypeUse.words '&' ++ vs) := by
      simp [TypeParameter.words, Bounds.words]
    rw [hwords]
    refine .bind (takes_name n) (.eatIf (by simp) (.bind (takes_bounds types htype hand) ?_))
    -- The text is taken from the name on, so the words passed are put together again.
    have hbefore : (types.words TypeUse.words '&').reverse ++
        keyword.keyword "extends" :: ([n.word].reverse ++ before) =
        (TypeParameter.words ⟨n, some ⟨keyword, types⟩⟩).reverse ++ before := by
      simp [TypeParameter.words, Bounds.words]
    rw [hbefore]
    exact .textSince hk

theorem takes_typeParameters (p : TypeParameters) :
    Takes e java.typeParameters before p.words rest p.tree := by
  unfold Grammar.typeParameters
  refine .expectPunct (.last (.separated (fun found before rest p separator => ?_)
    (fun found before p => ?_) p.parameters) .pure)
  · refine .passLines (.get ?_)
    rw [index_cursor, pos_cursor]
    exact takes_typeParameter p (by simp) (by simp [endsType]) (by simp)
      (.passLines (.eatIf (by simp) .pure))
  · refine .passLines (.get ?_)
    rw [index_cursor, pos_cursor]
    exact takes_typeParameter p (by simp) (by simp [endsType]) (by simp)
      (.passLines (.eatIf_none (by simp) (.expectPunct .pure)))

/-! ## Modifiers -/

/-- Does an annotation without arguments end in front of the token? -/
def endsMark (t : Token) : Bool := !(t.isPunct '(' || t.isPunct '.')

theorem takes_annotationMark (a : Annotation) (hrest : endsMark (first e rest) = true) :
    Takes e java.annotationMark before a.words rest a.tree := by
  simp only [endsMark, Bool.not_eq_true', Bool.or_eq_false_iff] at hrest
  obtain ⟨sign, name, arguments⟩ := a
  unfold Grammar.annotationMark
  cases arguments with
  | none =>
    refine .expectPunct (.bind (takes_qualifiedName name ?_) (.atPunct ?_))
    · simp [hrest.2]
    · simp only [Option.elim_none, List.nil_append, hrest.1]
      exact .pure
  | some g =>
    refine .expectPunct (.bind (takes_qualifiedName name ?_) (.atPunct ?_))
    · simp [Group.words, Bracket.opening]
    · exact .last (takes_parenthesized g) .pure

/-- A token, with the one behind it, that ends a list of modifiers. -/
structure EndsModifiers (t behind : Token) : Prop where
  ends : endsMark t = true
  sign : t.isPunct '@' = true → behind.isKeyword "interface" = true
  word : t.kind = .keyword → t.text ∉ Language.java.modifierWords

theorem endsModifiers_keyword (s : Spot) {word : String} {behind : Token}
    (hword : word ∉ Language.java.modifierWords) : EndsModifiers (s.keyword word).token behind :=
  ⟨rfl, nofun, fun _ => hword⟩

theorem endsMark_modifiers {ms : List Modifier}
    (hrest : endsMark (first e rest) = true) :
    endsMark (first e (modifierWordsOf ms ++ rest)) = true := by
  match ms with
  | [] => exact hrest
  | .word spot word hword :: ms => rfl
  | .mark a :: ms => rfl

theorem atModifier_cursor : java.atModifier (cursor e before rest) =
    ((first e rest).kind = .keyword &&
      Language.java.modifierWords.contains (first e rest).text) := by
  rw [Grammar.atModifier, token_cursor]
  exact Bool.and_true _

theorem takes_modifiers (ms : List Modifier)
    (hrest : EndsModifiers (first e rest) (first e rest.tail)) :
    Takes e java.modifiers before (modifierWordsOf ms) rest
      (modifierTree (firstSpot e (modifierWordsOf ms ++ rest)) ms) := by
  unfold Grammar.modifiers
  refine .pos (.last (.many (fun m => ?_) (fun found before m ms => .get ?_)
    (fun found before => .get ?_) ms) .pure)
  · cases m <;> exact List.cons_ne_nil _ _
  · cases m with
    | word spot word hword =>
      have hmodifier : ∀ ws,
          java.atModifier (cursor e before (spot.keyword word :: ws)) = true := by
        intro ws
        rw [atModifier_cursor]
        simpa [Spot.keyword, Word.token] using hword
      simp only [Modifier.words, List.singleton_append, token_cursor, first_cons, isPunct_keyword,
        Bool.false_and, hmodifier]
      exact .bump (.passLines .pure)
    | mark a =>
      -- the sign of an annotation is no `@interface`: a name stands behind it
      have hname : (first e (Modifier.words (.mark a) ++
          (ms.flatMap Modifier.words ++ rest)).tail).isKeyword "interface" = false := rfl
      simp only [token_cursor, peek_cursor, hname, Bool.not_false, Bool.and_true]
      refine .last (takes_annotationMark a ?_) (.passLines .pure)
      exact endsMark_modifiers hrest.ends
  · have hsign : ((first e rest).isPunct '@' &&
        !(first e rest.tail).isKeyword "interface") = false := by
      cases h : (first e rest).isPunct '@' with
      | false => rfl
      | true => simp [hrest.sign h]
    have hword : ((first e rest).kind = .keyword &&
        Language.java.modifierWords.contains (first e rest).text) = false := by
      simpa using hrest.word
    simp only [List.nil_append, token_cursor, peek_cursor, hsign, atModifier_cursor, hword]
    exact .pure

/-- Annotations alone are taken up to a name. -/
theorem takes_annotations (as : List Annotation) (n : Name) {ws : List Word} :
    Takes e java.annotations before (as.flatMap Annotation.words) (n.word :: ws)
      (as.map Annotation.tree) := by
  unfold Grammar.annotations
  refine .many (fun a => List.cons_ne_nil _ _) (fun found before a as => .atPunct ?_)
    (fun found before => .atPunct .pure) as
  refine .last (takes_annotationMark a ?_) (.passLines .pure)
  cases as <;> rfl

end ApiDoc.Syntax.Source
