import ApiDoc.Doc.Comment
import ApiDoc.Proofs.Text.Blank
import ApiDoc.Proofs.Text.Segments

/-!
# The layout of doc comments

A description and block tags are laid out as a doc comment: a star and a space before each line, the
tag with its argument before the first line of its text. Reading takes the layout off again: the
margins line by line (`lines_frame`), then the lines of each tag (`exists_tagBlocks`), then its
parts (`tagOfBlock_rows`).

Everything that is laid out is a row: a line without a line feed and without a blank at its end. The
line of the closing mark leaves one empty line behind the last row. It goes to the last tag, or to
the description if there is no tag, and trimming takes it off there; hence the lemmas about reading
allow empty lines behind a text.
-/

namespace ApiDoc.DocComment

open Text (isBlank trim cutStart segments IsGap IsWord Tight)

variable {extra lines : List (List Char)} {text : List Char}

/-! ## What is laid out -/

/-- A line that its layout shows: no line feed in it, and no blank at its end. -/
structure IsRow (line : List Char) : Prop where
  oneLine : '\n' ∉ line
  last : ∀ c ∈ line.getLast?, isBlank c = false

/-- The lines of a description. -/
structure Description where
  lines : List (List Char)
  isRow : ∀ line ∈ lines, IsRow line
  noTag : ∀ line ∈ lines, line.head? ≠ some '@'
  tight : Tight (['\n'].intercalate lines)

/-- A block tag, with the lines of its text. -/
structure BlockTag where
  name : List Char
  argument : Option (List Char)
  lines : List (List Char)
  isWord_name : IsWord name
  isWord_argument : ∀ word ∈ argument, IsWord word
  takesArgument : argument.isSome = true ↔ String.ofList name ∈ ["param", "throws", "exception"]
  oneLine : ∀ line ∈ lines, '\n' ∉ line
  tight : ∀ line ∈ lines, Tight line
  head_ne_nil : ∀ line ∈ lines.head?, line ≠ []
  last_ne_nil : ∀ line ∈ lines.getLast?, line ≠ []
  noTag : ∀ line ∈ lines.tail, line.head? ≠ some '@'

/-- A text with a space before it, unless it is empty. -/
def spaced : List Char → List Char
  | [] => []
  | c :: cs => ' ' :: c :: cs

/-- A row with its margin. -/
def withMargin (row : List Char) : List Char := ' ' :: '*' :: ' ' :: row

/-- The comment that shows given rows. -/
def frame (rows : List (List Char)) : List Char :=
  ['/', '*', '*', '\n'] ++ (rows.map withMargin).flatMap (· ++ ['\n']) ++ [' ', '*', '/']

namespace BlockTag

/-- The rows of a tag: its name, its argument and the first line of its text on one row, and a row
for each further line. -/
def rows (t : BlockTag) : List (List Char) :=
  ('@' :: t.name ++ spaced (t.argument.getD []) ++ spaced (t.lines.headD [])) :: t.lines.tail

/-- The tag as it is read. -/
def doc (t : BlockTag) : DocTag where
  name := String.ofList t.name
  argument := t.argument.map String.ofList
  text := String.ofList (['\n'].intercalate t.lines)

end BlockTag

/-- The doc comment that says what a description and block tags say. -/
def layout (description : Description) (tags : List BlockTag) : String :=
  String.ofList (frame (description.lines ++ tags.flatMap BlockTag.rows))

/-! ## Margins -/

theorem withoutMargin_withMargin {row : List Char} (h : IsRow row) :
    withoutMargin (withMargin row) = row := by
  have hstar : cutStart isBlank (withMargin row) = '*' :: ' ' :: row := rfl
  rw [withoutMargin, hstar]
  show Text.cutEnd isBlank row = row
  rcases List.eq_nil_or_concat row with rfl | ⟨init, c, rfl⟩
  · rfl
  · have hc : isBlank c = false := h.last c (by simp)
    rw [List.concat_eq_append, Text.cutEnd_append_cons hc]
    rfl

theorem tight_frame (rows : List (List Char)) : Tight (frame rows) := by
  constructor
  · intro c hc
    obtain rfl : '/' = c := Option.some.inj hc
    decide
  · intro c hc
    rw [frame, List.getLast?_append] at hc
    obtain rfl : '/' = c := Option.some.inj hc
    decide

theorem inside_frame (rows : List (List Char)) : inside (frame rows) =
    [] ++ '\n' :: ((rows.map withMargin).flatMap (· ++ ['\n']) ++ [' ']) := by
  have htrim : trim (frame rows) = frame rows := by
    simpa using (tight_frame rows).trim_append Text.isGap_nil
  have hopen : Text.afterStart? ['/', '*', '*'] (frame rows) =
      some ('\n' :: ((rows.map withMargin).flatMap (· ++ ['\n']) ++ [' ', '*', '/'])) :=
    Text.afterStart?_eq_some_iff.mpr rfl
  have hclose : Text.beforeEnd? ['*', '/']
      ('\n' :: ((rows.map withMargin).flatMap (· ++ ['\n']) ++ [' ', '*', '/'])) =
      some ('\n' :: ((rows.map withMargin).flatMap (· ++ ['\n']) ++ [' '])) :=
    Text.beforeEnd?_eq_some_iff.mpr (by simp)
  simp only [inside, htrim, hopen, Option.getD_some, hclose, List.nil_append]

/-- The lines that are read are the rows, with an empty line for each mark. -/
theorem lines_frame {rows : List (List Char)} (h : ∀ row ∈ rows, IsRow row) :
    (segments '\n' (inside (frame rows))).map withoutMargin = [] :: (rows ++ [[]]) := by
  have honeLine : ∀ line ∈ rows.map withMargin, '\n' ∉ line := by
    intro line hline
    obtain ⟨row, hrow, rfl⟩ := List.mem_map.mp hline
    simpa [withMargin] using (h row hrow).oneLine
  have hrows : (rows.map withMargin).map withoutMargin = rows := by
    rw [List.map_map]
    exact (List.map_congr_left fun row hrow => withoutMargin_withMargin (h row hrow)).trans
      (List.map_id rows)
  rw [inside_frame, Text.segments_append, Text.segments_flatMap honeLine, List.map_append,
    List.map_append, hrows]
  rfl

/-! ## Joined lines -/

theorem joinLines_append_cons (front line : List Char) (lines : List (List Char)) :
    joinLines ((front ++ line) :: lines) = front ++ joinLines (line :: lines) := by
  cases lines with
  | nil => simp [joinLines, List.intercalate]
  | cons => simp [joinLines]

theorem isGap_joinLines (h : ∀ line ∈ lines, line = []) : IsGap (joinLines lines) := by
  induction lines with
  | nil => exact Text.isGap_nil
  | cons line lines ih =>
    obtain ⟨rfl, hlines⟩ := List.forall_mem_cons.mp h
    by_cases hne : lines = []
    · rw [hne]
      exact Text.isGap_nil
    · rw [joinLines, Text.intercalate_cons hne]
      exact (ih hlines).cons (by decide)

/-- Empty lines behind a text are a gap behind it. -/
theorem exists_joinLines_append (lines : List (List Char)) (h : ∀ line ∈ extra, line = []) :
    ∃ gap, IsGap gap ∧ joinLines (lines ++ extra) = joinLines lines ++ gap := by
  by_cases hlines : lines = []
  · subst hlines
    exact ⟨joinLines extra, isGap_joinLines h, rfl⟩
  · by_cases hextra : extra = []
    · subst hextra
      exact ⟨[], Text.isGap_nil, by simp⟩
    · exact ⟨'\n' :: joinLines extra, (isGap_joinLines h).cons (by decide),
        Text.intercalate_append hlines hextra⟩

theorem trim_joinLines_nil_cons (lines : List (List Char)) :
    trim (joinLines ([] :: lines)) = trim (joinLines lines) := by
  by_cases hne : lines = []
  · rw [hne]
    rfl
  · have hfeed : IsGap ['\n'] := Text.isGap_nil.cons (by decide)
    rw [joinLines, Text.intercalate_cons hne, List.nil_append]
    exact Text.trim_gap_append hfeed _

/-- Lines without blanks around them, the first and the last one not empty, make a text without
blanks around it. -/
theorem tight_joinLines (h : ∀ line ∈ lines, Tight line) (hfirst : ∀ line ∈ lines.head?, line ≠ [])
    (hlast : ∀ line ∈ lines.getLast?, line ≠ []) : Tight (joinLines lines) := by
  constructor
  · cases lines with
    | nil => simp [joinLines, List.intercalate]
    | cons line lines =>
      obtain ⟨c, line, rfl⟩ := List.exists_cons_of_ne_nil (hfirst line rfl)
      show ∀ d ∈ (joinLines (([c] ++ line) :: lines)).head?, isBlank d = false
      rw [joinLines_append_cons]
      exact (h _ List.mem_cons_self).first
  · -- The last character of the text is that of the last line.
    rcases List.eq_nil_or_concat lines with rfl | ⟨init, line, rfl⟩
    · simp [joinLines, List.intercalate]
    · rw [List.concat_eq_append] at h hlast ⊢
      have hline := (h line (by simp)).last
      by_cases hinit : init = []
      · subst hinit
        simpa [joinLines, List.intercalate] using hline
      · rw [joinLines, Text.intercalate_append hinit (List.cons_ne_nil line [])]
        rcases List.eq_nil_or_concat line with rfl | ⟨line, c, rfl⟩
        · exact absurd rfl (hlast [] (by simp))
        · show ∀ d ∈ (joinLines init ++ '\n' :: (line.concat c ++ [])).getLast?, isBlank d = false
          rw [List.append_nil, List.concat_eq_append, ← List.cons_append, ← List.append_assoc,
            List.getLast?_concat]
          simpa using hline

/-- Blanks before the first line leave no trace where the text is trimmed. -/
theorem trim_joinLines_cutStart (line : List Char) (lines : List (List Char)) :
    trim (joinLines (cutStart isBlank line :: lines)) = trim (joinLines (line :: lines)) := by
  have hgap : IsGap (line.takeWhile isBlank) := List.all_eq_true.mp List.all_takeWhile
  calc trim (joinLines (cutStart isBlank line :: lines))
      = trim (line.takeWhile isBlank ++ joinLines (cutStart isBlank line :: lines)) :=
        (Text.trim_gap_append hgap _).symm
    _ = trim (joinLines ((line.takeWhile isBlank ++ cutStart isBlank line) :: lines)) := by
        rw [joinLines_append_cons]
    _ = trim (joinLines (line :: lines)) := by
        rw [cutStart, List.takeWhile_append_dropWhile]

/-! ## Parts of a line -/

theorem splitWord_append {word rest : List Char} (hword : ∀ c ∈ word, isBlank c = false)
    (hrest : ∀ c ∈ rest.head?, isBlank c = true) : splitWord (word ++ rest) = (word, rest) := by
  obtain ⟨htake, hdrop⟩ := Text.takeWhile_dropWhile_not hword hrest
  rw [splitWord, htake, hdrop]

theorem head?_spaced (text : List Char) : ∀ c ∈ (spaced text).head?, isBlank c = true := by
  intro c hc
  cases text with
  | nil => cases hc
  | cons d text =>
    obtain rfl : ' ' = c := Option.some.inj hc
    decide

theorem head?_spaced_append (text text' : List Char) :
    ∀ c ∈ (spaced text ++ spaced text').head?, isBlank c = true := by
  cases text with
  | nil => exact head?_spaced text'
  | cons d text => exact head?_spaced (d :: text)

theorem trim_spaced {gap : List Char} (h : Tight text) (hgap : IsGap gap) :
    trim (spaced text ++ gap) = text := by
  cases text with
  | nil => exact h.trim_append hgap
  | cons c cs =>
    have hspace : IsGap [' '] := Text.isGap_nil.cons (by decide)
    exact h.trim_between hspace hgap

theorem isRow_nil : IsRow [] := ⟨by simp, by simp⟩

theorem isRow_of_isWord {word : List Char} (h : IsWord word) : IsRow word where
  oneLine hmem := absurd (h.2 _ hmem) (by decide)
  last := h.tight.last

theorem IsRow.append_spaced {front : List Char} (hfront : IsRow front) (htext : IsRow text) :
    IsRow (front ++ spaced text) := by
  cases text with
  | nil => rwa [spaced, List.append_nil]
  | cons c text =>
    constructor
    · intro hmem
      rcases List.mem_append.mp hmem with hmem | hmem
      · exact hfront.oneLine hmem
      · rcases List.mem_cons.mp hmem with hspace | hmem
        · cases hspace
        · exact htext.oneLine hmem
    · rw [List.getLast?_append, spaced, List.getLast?_cons_cons]
      simpa [List.getLast?_cons] using htext.last

theorem tight_append_spaced {front : List Char} (hfront : Tight front) (hne : front ≠ [])
    (htext : Tight text) : Tight (front ++ spaced text) := by
  cases text with
  | nil => rwa [spaced, List.append_nil]
  | cons c text => exact hfront.append htext hne (List.cons_ne_nil c text) [' ']

/-- With the first line of a text, the text has a space before it. -/
theorem joinLines_spaced (h : ∀ line ∈ lines.head?, line ≠ []) :
    joinLines (spaced (lines.headD []) :: lines.tail) = spaced (joinLines lines) := by
  cases lines with
  | nil => rfl
  | cons line lines =>
    obtain ⟨c, line, rfl⟩ := List.exists_cons_of_ne_nil (h line rfl)
    show joinLines (([' ', c] ++ line) :: lines) = spaced (joinLines (([c] ++ line) :: lines))
    rw [joinLines_append_cons, joinLines_append_cons]
    rfl

/-! ## Block tags -/

namespace BlockTag

variable (t : BlockTag)

theorem tight_text : Tight (joinLines t.lines) :=
  tight_joinLines t.tight t.head_ne_nil t.last_ne_nil

theorem isWord_at_name : IsWord ('@' :: t.name) := by
  refine ⟨List.cons_ne_nil _ _, ?_⟩
  intro c hc
  rcases List.mem_cons.mp hc with rfl | hc
  · decide
  · exact t.isWord_name.2 c hc

theorem isRow_argument : IsRow (t.argument.getD []) := by
  cases hargument : t.argument with
  | none => exact isRow_nil
  | some word => exact isRow_of_isWord (t.isWord_argument word hargument)

theorem isRow_of_mem {line : List Char} (h : line ∈ t.lines) : IsRow line :=
  ⟨t.oneLine line h, (t.tight line h).last⟩

theorem isRow_head : IsRow (t.lines.headD []) := by
  cases hlines : t.lines with
  | nil => exact isRow_nil
  | cons line lines => exact t.isRow_of_mem (by simp [hlines])

theorem isRow_of_mem_rows {row : List Char} (h : row ∈ t.rows) : IsRow row := by
  rcases List.mem_cons.mp h with rfl | h
  · exact ((isRow_of_isWord t.isWord_at_name).append_spaced t.isRow_argument).append_spaced
      t.isRow_head
  · exact t.isRow_of_mem (List.mem_of_mem_tail h)

/-- What stands behind the name of a tag is taken apart into its argument and its text. -/
theorem makeTag_spaced {gap : List Char} (hgap : IsGap gap) :
    makeTag (String.ofList t.name)
      (trim (spaced (t.argument.getD []) ++ (spaced (joinLines t.lines) ++ gap))) = t.doc := by
  cases hargument : t.argument with
  | none =>
    have hnone : ¬ tagsWithArgument.contains (String.ofList t.name) = true := by
      intro h
      have hsome := t.takesArgument.mpr (List.contains_iff_mem.mp h)
      simp [hargument] at hsome
    show makeTag _ (trim (spaced (joinLines t.lines) ++ gap)) = _
    rw [makeTag, if_neg hnone, trim_spaced t.tight_text hgap, doc, hargument]
    rfl
  | some word =>
    have hsome : tagsWithArgument.contains (String.ofList t.name) = true :=
      List.contains_iff_mem.mpr (t.takesArgument.mp (by simp [hargument]))
    have hword := t.isWord_argument word hargument
    -- trimming leaves the word and the text with the blank between them, where the word is split
    -- off
    have htight := tight_append_spaced hword.tight hword.1 t.tight_text
    have hsplit := splitWord_append hword.2 (head?_spaced (joinLines t.lines))
    have htrim : trim (spaced word ++ (spaced (joinLines t.lines) ++ gap)) =
        word ++ spaced (joinLines t.lines) := by
      obtain ⟨c, word, rfl⟩ := List.exists_cons_of_ne_nil hword.1
      simpa [spaced] using trim_spaced htight hgap
    have htext : trim (spaced (joinLines t.lines)) = joinLines t.lines := by
      simpa using trim_spaced t.tight_text Text.isGap_nil
    have hne : ¬ word.isEmpty = true := by simp [hword.1]
    rw [Option.getD_some, htrim, makeTag, if_pos hsome, hsplit, doc, hargument]
    simp only [if_neg hne, htext]
    rfl

/-- The rows of a tag, and empty lines behind them, are read as this tag. -/
theorem tagOfBlock_rows (h : ∀ line ∈ extra, line = []) : tagOfBlock (t.rows ++ extra) = t.doc := by
  have hsplit := splitWord_append t.isWord_name.2
    (head?_spaced_append (t.argument.getD []) (t.lines.headD []))
  have hsame : (t.lines.tail ++ extra).map (cutStart isBlank) = t.lines.tail ++ extra := by
    refine (List.map_congr_left fun line hline => ?_).trans (List.map_id _)
    rcases List.mem_append.mp hline with hline | hline
    · exact (t.tight line (List.mem_of_mem_tail hline)).cutStart
    · rw [h line hline]
      rfl
  obtain ⟨gap, hgap, hjoin⟩ :=
    exists_joinLines_append (spaced (t.lines.headD []) :: t.lines.tail) h
  have hsaid : joinLines ((spaced (t.argument.getD []) ++ spaced (t.lines.headD [])) ::
      (t.lines.tail ++ extra)) =
      spaced (t.argument.getD []) ++ (spaced (joinLines t.lines) ++ gap) := by
    rw [joinLines_append_cons, ← List.cons_append, hjoin, joinLines_spaced t.head_ne_nil]
  rw [rows, List.cons_append, tagOfBlock, List.append_assoc, List.cons_append, List.tail_cons,
    hsplit, hsame]
  show makeTag (String.ofList t.name) (trim (joinLines (cutStart isBlank _ :: _))) = t.doc
  rw [trim_joinLines_cutStart, hsaid, t.makeTag_spaced hgap]

end BlockTag

/-! ## Reading -/

theorem startsTag_eq_false {line : List Char} (h : line.head? ≠ some '@') :
    startsTag line = false := by
  rw [startsTag, decide_eq_false h]

/-- The lines up to the next tag make a block. -/
theorem tagBlocks_append (line : List Char) {more : List (List Char)}
    (hlines : ∀ l ∈ lines, startsTag l = false) (hmore : ∀ l ∈ more.head?, startsTag l = true) :
    tagBlocks (line :: (lines ++ more)) = (line :: lines) :: tagBlocks more := by
  obtain ⟨htake, hdrop⟩ := Text.takeWhile_dropWhile_not hlines hmore
  rw [tagBlocks, htake, hdrop]

theorem startsTag_of_empty (h : ∀ line ∈ extra, line = []) :
    ∀ line ∈ extra, startsTag line = false := by
  intro line hline
  rw [h line hline]
  rfl

/-- The rows of all tags and an empty line behind them are read as these tags. If there is no tag,
the empty line stands before all blocks. -/
theorem exists_tagBlocks (tags : List BlockTag) : ∃ extra more : List (List Char),
    tags.flatMap BlockTag.rows ++ [[]] = extra ++ more ∧ (∀ line ∈ extra, line = []) ∧
      (∀ line ∈ more.head?, startsTag line = true) ∧
      (tagBlocks more).map tagOfBlock = tags.map BlockTag.doc := by
  induction tags with
  | nil => exact ⟨[[]], [], rfl, by simp, by simp, by simp [tagBlocks]⟩
  | cons t tags ih =>
    obtain ⟨extra, more, heq, hextra, hmore, htags⟩ := ih
    have hlines : ∀ line ∈ t.lines.tail ++ extra, startsTag line = false := by
      intro line hline
      rcases List.mem_append.mp hline with hline | hline
      · exact startsTag_eq_false (t.noTag line hline)
      · exact startsTag_of_empty hextra line hline
    refine ⟨[], t.rows ++ (extra ++ more), ?_, by simp, ?_, ?_⟩
    · rw [List.flatMap_cons, List.append_assoc, heq, List.nil_append]
    · intro line hline
      obtain rfl := Option.some.inj hline
      rfl
    · rw [BlockTag.rows, List.cons_append, ← List.append_assoc, tagBlocks_append _ hlines hmore,
        List.map_cons, ← List.cons_append, ← BlockTag.rows, t.tagOfBlock_rows hextra, htags,
        List.map_cons]

/-- A comment that lays out a description and block tags is read as that description and those tags,
in order, each with its argument and its text. -/
theorem parse_layout (description : Description) (tags : List BlockTag) :
    (parse (layout description tags)).description =
        String.ofList (['\n'].intercalate description.lines) ∧
      (parse (layout description tags)).tags = tags.map BlockTag.doc := by
  have hrows : ∀ row ∈ description.lines ++ tags.flatMap BlockTag.rows, IsRow row := by
    intro row hrow
    rcases List.mem_append.mp hrow with hrow | hrow
    · exact description.isRow row hrow
    · obtain ⟨t, -, hrow⟩ := List.mem_flatMap.mp hrow
      exact t.isRow_of_mem_rows hrow
  -- The empty rows in front of the first tag fall to the description, which is trimmed.
  obtain ⟨extra, more, heq, hextra, hmore, htags⟩ := exists_tagBlocks tags
  have hlines : (segments '\n' (inside (layout description tags).toList)).map withoutMargin =
      ([] :: (description.lines ++ extra)) ++ more := by
    rw [layout, String.toList_ofList, lines_frame hrows, List.append_assoc, heq]
    simp
  have hfront : ∀ line ∈ [] :: (description.lines ++ extra), startsTag line = false := by
    intro line hline
    rcases List.mem_cons.mp hline with rfl | hline
    · rfl
    · rcases List.mem_append.mp hline with hline | hline
      · exact startsTag_eq_false (description.noTag line hline)
      · exact startsTag_of_empty hextra line hline
  obtain ⟨htake, hdrop⟩ := Text.takeWhile_dropWhile_not hfront hmore
  obtain ⟨gap, hgap, hjoin⟩ := exists_joinLines_append description.lines hextra
  simp only [parse, hlines, htake, hdrop, htags, and_true]
  rw [trim_joinLines_nil_cons, hjoin]
  exact congrArg String.ofList (description.tight.trim_append hgap)

/-- A description of two paragraphs, the second one indented. -/
def paragraphs : Description where
  lines := [['A'], [], [' ', 'b']]
  isRow := by
    simp only [List.forall_mem_cons]
    refine ⟨⟨?_, ?_⟩, ⟨?_, ?_⟩, ⟨?_, ?_⟩, ?_⟩ <;> simp <;> decide
  noTag := by simp
  tight := by constructor <;> simp [List.intercalate] <;> decide

/-- The tag `@param x` with a text of two lines. -/
def paramTag : BlockTag where
  name := "param".toList
  argument := some ['x']
  lines := [['c'], ['d']]
  isWord_name := ⟨by decide, by simp; decide⟩
  isWord_argument := by
    rintro word ⟨⟩
    exact ⟨by decide, by simp; decide⟩
  takesArgument := by simp
  oneLine := by simp
  tight := by
    simp only [List.forall_mem_cons]
    refine ⟨⟨?_, ?_⟩, ⟨?_, ?_⟩, ?_⟩ <;> simp <;> decide
  head_ne_nil := by simp
  last_ne_nil := by simp
  noTag := by simp

theorem parse_layout_param :
    layout paragraphs [paramTag] = "/**\n * A\n * \n *  b\n * @param x c\n * d\n */" ∧
    (parse "/**\n * A\n * \n *  b\n * @param x c\n * d\n */").description = "A\n\n b" ∧
    (parse "/**\n * A\n * \n *  b\n * @param x c\n * d\n */").tags =
      [⟨"param", some "x", "c\nd"⟩] := by
  have hlayout : layout paragraphs [paramTag] =
      "/**\n * A\n * \n *  b\n * @param x c\n * d\n */" := rfl
  rw [← hlayout]
  exact ⟨rfl, parse_layout paragraphs [paramTag]⟩

end ApiDoc.DocComment
