import ApiDoc.Doc.Comment
import ApiDoc.Proofs.Text.Collapse
import ApiDoc.Proofs.Text.Segments

/-!
# First sentences

A sentence ends at a period that a blank or the end of the text follows. The first sentence of a
description is cut from the text as it is written, over several lines, and put on one line then.
Because it is cut at the end of a word, this comes to the same as cutting it from the description on
one line: `firstSentence_of_parse`.
-/

namespace ApiDoc.DocComment

open Text (isBlank collapse words Collapses)

/-! ## Sentences -/

/-- `front` starts the text and ends in a period that a blank or the end of the text follows. -/
def EndsSentence (text front : List Char) : Prop :=
  ∃ before behind, front = before ++ ['.'] ∧ text = front ++ behind ∧
    ∀ c ∈ behind.head?, isBlank c = true

/-- The shortest start of a text that ends a sentence; the whole text, if there is none. -/
inductive IsFirstSentence (text : List Char) : List Char → Prop
  | ended {front : List Char} : EndsSentence text front →
      (∀ other, EndsSentence text other → front.length ≤ other.length) → IsFirstSentence text front
  | whole : (∀ front, ¬ EndsSentence text front) → IsFirstSentence text text

/-- A period with a blank behind it. -/
def HasStop (cs : List Char) : Prop :=
  ∃ front c rest, cs = front ++ '.' :: c :: rest ∧ isBlank c = true

theorem endsSentence_of_stop (front : List Char) {c : Char} (hc : isBlank c = true)
    (rest : List Char) : EndsSentence (front ++ '.' :: c :: rest) (front ++ ['.']) :=
  ⟨front, c :: rest, rfl, by simp, by simpa using hc⟩

/-- Where no sentence ends with the first character, it ends further on. -/
theorem endsSentence_cons_iff {c : Char} {cs front : List Char}
    (hstop : ¬ (c = '.' && cs.head?.all isBlank) = true) :
    EndsSentence (c :: cs) front ↔ ∃ front', front = c :: front' ∧ EndsSentence cs front' := by
  constructor
  · rintro ⟨before, behind, rfl, htext, hbehind⟩
    cases before with
    | nil =>
      obtain ⟨rfl, rfl⟩ := List.cons.inj htext
      refine absurd ?_ hstop
      simpa [Option.all_eq_true] using hbehind
    | cons d before =>
      obtain ⟨rfl, rfl⟩ := List.cons.inj htext
      exact ⟨before ++ ['.'], rfl, before, behind, rfl, by simp, hbehind⟩
  · rintro ⟨front', rfl, before, behind, rfl, rfl, hbehind⟩
    exact ⟨c :: before, behind, rfl, rfl, hbehind⟩

theorem isFirstSentence_sentence (text : List Char) : IsFirstSentence text (sentence text) := by
  induction text with
  | nil =>
    apply IsFirstSentence.whole
    rintro front ⟨before, behind, rfl, htext, -⟩
    simp at htext
  | cons c cs ih =>
    rw [sentence]
    split
    · next hstop =>
      rw [Bool.and_eq_true, decide_eq_true_eq] at hstop
      refine .ended ⟨[], cs, by rw [hstop.1, List.nil_append], rfl, ?_⟩ ?_
      · simpa [Option.all_eq_true] using hstop.2
      · rintro other ⟨before, behind, rfl, -⟩
        simp
    · next hstop =>
      -- no sentence ends here, so those of the whole text are those of the rest with a character in
      -- front
      generalize sentence cs = front at ih
      cases ih with
      | ended hfront hshortest =>
        refine .ended ((endsSentence_cons_iff hstop).mpr ⟨front, rfl, hfront⟩) ?_
        intro other hother
        obtain ⟨other', rfl, hother'⟩ := (endsSentence_cons_iff hstop).mp hother
        exact Nat.succ_le_succ (hshortest other' hother')
      | whole hnone =>
        apply IsFirstSentence.whole
        intro front hfront
        obtain ⟨front', -, hfront'⟩ := (endsSentence_cons_iff hstop).mp hfront
        exact hnone front' hfront'

namespace IsFirstSentence

variable {text front : List Char}

/-- The first sentence starts the text, and a blank or the end follows it. -/
theorem exists_behind (h : IsFirstSentence text front) :
    ∃ behind, text = front ++ behind ∧ ∀ c ∈ behind.head?, isBlank c = true := by
  cases h with
  | ended hfront _ =>
    obtain ⟨before, behind, -, htext, hbehind⟩ := hfront
    exact ⟨behind, htext, hbehind⟩
  | whole _ => exact ⟨[], by simp, by simp⟩

/-- Inside the first sentence, no sentence ends. -/
theorem not_hasStop (h : IsFirstSentence text front) : ¬ HasStop front := by
  rintro ⟨start, c, rest, rfl, hc⟩
  cases h with
  | ended hfront hshortest =>
    obtain ⟨before, behind, -, rfl, -⟩ := hfront
    have hearlier := endsSentence_of_stop start hc (rest ++ behind)
    have hlength := hshortest (start ++ ['.']) (by simpa using hearlier)
    simp only [List.length_append, List.length_cons, List.length_nil] at hlength
    omega
  | whole hnone => exact hnone _ (endsSentence_of_stop start hc rest)

end IsFirstSentence

/-- A text in which no sentence ends before its end is its own first sentence. -/
theorem sentence_of_not_hasStop {cs : List Char} (h : ¬ HasStop cs) : sentence cs = cs := by
  generalize hfront : sentence cs = front
  cases hfront ▸ isFirstSentence_sentence cs with
  | whole => rfl
  | ended hends _ =>
    obtain ⟨before, behind, rfl, rfl, hbehind⟩ := hends
    cases behind with
    | nil => rw [List.append_nil]
    | cons c rest =>
      refine absurd ⟨before, c, rest, by simp, hbehind c rfl⟩ h

/-! ## On one line -/

theorem HasStop.append_left {cs : List Char} (h : HasStop cs) (ds : List Char) :
    HasStop (ds ++ cs) := by
  obtain ⟨front, c, rest, rfl, hc⟩ := h
  exact ⟨ds ++ front, c, rest, by simp, hc⟩

/-- Collapsing blanks ends no sentence. -/
theorem hasStop_of_collapses {cs out : List Char} (h : Collapses cs out) (hout : HasStop out) :
    HasStop cs := by
  induction h with
  | gap _ =>
    obtain ⟨front, c, rest, hnil, -⟩ := hout
    simp at hnil
  -- A word has no blank, so no period in it has one behind it.
  | word _ hword _ =>
    obtain ⟨front, c, rest, rfl, hc⟩ := hout
    have hblank := hword.2 c (by simp)
    rw [hc] at hblank
    cases hblank
  | @more before word behind cs out _ hword hbehind hne _ _ ih =>
    obtain ⟨front, c, rest, heq, hc⟩ := hout
    rcases List.append_eq_append_iff.mp heq with ⟨back, rfl, hback⟩ | ⟨back, rfl, hback⟩
    · -- The period stands behind the first word.
      cases back with
      | nil => cases hback
      | cons d back =>
        obtain ⟨-, hout⟩ := List.cons.inj hback
        exact (ih ⟨back, c, rest, hout, hc⟩).append_left _
    · -- The period stands in the first word; it ends the word, or no blank could follow.
      cases back with
      | nil => cases hback
      | cons d back =>
        obtain ⟨rfl, hmore⟩ := List.cons.inj hback
        cases back with
        | nil =>
          cases behind with
          | nil => exact absurd rfl hne
          | cons b behind =>
            exact ⟨before ++ front, b, behind ++ cs, by simp, hbehind b List.mem_cons_self⟩
        | cons e back =>
          have hblank := hword.2 e (by simp)
          rw [← (List.cons.inj hmore).1, hc] at hblank
          cases hblank

/-- A text that is cut at a blank collapses to a start of what the whole text collapses to. -/
theorem prefix_collapse_append (cs : List Char) {ds : List Char}
    (h : ∀ c ∈ ds.head?, isBlank c = true) : collapse cs <+: collapse (cs ++ ds) := by
  rw [collapse, collapse, Text.words_append h]
  by_cases hcs : words cs = []
  · rw [hcs]
    exact List.nil_prefix
  · by_cases hds : words ds = []
    · exact ⟨[], by rw [hds, List.append_nil, List.append_nil]⟩
    · rw [Text.intercalate_append hcs hds]
      exact List.prefix_append _ _

theorem toList_firstSentence (raw : String) :
    (parse raw).firstSentence.toList = collapse (sentence (parse raw).description.toList) := by
  simp only [parse, String.toList_ofList]

/-- The first sentence that is read is the first sentence of the description, on one line. It starts
the description on one line, no sentence ends inside it, and it is its own first sentence. -/
theorem firstSentence_of_parse (raw : String) :
    (∃ front, IsFirstSentence (parse raw).description.toList front ∧
        Collapses front (parse raw).firstSentence.toList) ∧
      (∃ line, (∀ other, Collapses (parse raw).description.toList other ↔ other = line) ∧
        (parse raw).firstSentence.toList <+: line) ∧
      ¬ HasStop (parse raw).firstSentence.toList ∧
      collapse (sentence (parse raw).firstSentence.toList) = (parse raw).firstSentence.toList := by
  have hfirst := isFirstSentence_sentence (parse raw).description.toList
  have hcollapses := Text.collapses_collapse (sentence (parse raw).description.toList)
  have hnone := mt (hasStop_of_collapses hcollapses) hfirst.not_hasStop
  rw [toList_firstSentence]
  refine ⟨⟨_, hfirst, hcollapses⟩, ⟨_, fun other => Text.collapses_iff, ?_⟩, hnone, ?_⟩
  · obtain ⟨behind, htext, hbehind⟩ := hfirst.exists_behind
    have hstart := prefix_collapse_append (sentence (parse raw).description.toList) hbehind
    rwa [← htext] at hstart
  · rw [sentence_of_not_hasStop hnone, Text.collapse_collapse]

end ApiDoc.DocComment
