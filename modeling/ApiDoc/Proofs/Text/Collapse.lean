import ApiDoc.Text.Blank

/-!
# Collapsed blanks

`Collapses cs out` says what collapsing does without splitting anything: `cs` is words with gaps
between and around them, and `out` is the same words with one space between them. Collapsing a text
does that, and nothing else does (`collapses_iff`). Where a text is cut at a blank, so are its words
(`words_append`).
-/

namespace ApiDoc.Text

variable {cs out w word : List Char} {c : Char}

/-- Blanks only, or nothing. -/
def IsGap (cs : List Char) : Prop := ∀ c ∈ cs, isBlank c = true

/-- Some characters, and no blank among them. -/
def IsWord (cs : List Char) : Prop := cs ≠ [] ∧ ∀ c ∈ cs, isBlank c = false

/-- `Collapses cs out`: the words of `cs` are those of `out`, where one space stands between two
words and none at the ends. -/
inductive Collapses : List Char → List Char → Prop
  | gap {gap} : IsGap gap → Collapses gap []
  | word {before word behind} : IsGap before → IsWord word → IsGap behind →
      Collapses (before ++ word ++ behind) word
  | more {before word behind cs out} : IsGap before → IsWord word → IsGap behind → behind ≠ [] →
      Collapses cs out → out ≠ [] → Collapses (before ++ word ++ behind ++ cs) (word ++ ' ' :: out)

theorem isGap_nil : IsGap [] := by simp [IsGap]

theorem IsGap.cons {c : Char} {cs : List Char} (hc : isBlank c = true) (hcs : IsGap cs) :
    IsGap (c :: cs) := by
  intro d hd
  rcases List.mem_cons.1 hd with rfl | hd
  · exact hc
  · exact hcs d hd

theorem isWord_reverse (h : ∀ d ∈ c :: cs, isBlank d = false) : IsWord (c :: cs).reverse := by
  refine ⟨by simp, fun d hd => ?_⟩
  exact h d (List.mem_reverse.1 hd)

namespace Collapses

/-- A leading blank leaves no trace. -/
theorem cons_blank (hc : isBlank c = true) (h : Collapses cs out) : Collapses (c :: cs) out := by
  cases h with
  | gap hgap => exact .gap (hgap.cons hc)
  | word hbefore hword hbehind => exact .word (hbefore.cons hc) hword hbehind
  | more hbefore hword hbehind hne hcs hout =>
    exact .more (hbefore.cons hc) hword hbehind hne hcs hout

theorem isGap_of_nil (h : Collapses cs out) (hout : out = []) : IsGap cs := by
  cases h with
  | gap hgap => exact hgap
  | word _ hword _ => exact absurd hout hword.1
  | more => simp at hout

/-- A word and a blank in front of a text that collapses. -/
theorem word_cons (hword : IsWord word) (hc : isBlank c = true) (h : Collapses cs out) :
    Collapses (word ++ c :: cs) (if out = [] then word else word ++ ' ' :: out) := by
  by_cases hout : out = []
  · rw [if_pos hout]
    have hlast := Collapses.word isGap_nil hword ((h.isGap_of_nil hout).cons hc)
    simpa using hlast
  · rw [if_neg hout]
    have hmore := Collapses.more isGap_nil hword (isGap_nil.cons hc) (by simp) h hout
    simpa using hmore

end Collapses

/-! ## Splitting into words -/

theorem isWord_of_mem_wordsFrom (hword : ∀ c ∈ word, isBlank c = false)
    (h : w ∈ wordsFrom word cs) : IsWord w := by
  induction cs generalizing word with
  | nil =>
    cases word with
    | nil => cases h
    | cons d word =>
      rw [List.mem_singleton.mp h]
      exact isWord_reverse hword
  | cons c cs ih =>
    rw [wordsFrom] at h
    split at h
    · cases word with
      | nil => exact ih (by simp) h
      | cons d word =>
        rcases List.mem_cons.mp h with rfl | h
        · exact isWord_reverse hword
        · exact ih (by simp) h
    · next hc => exact ih (by simp_all) h

theorem isWord_of_mem_words (h : w ∈ words cs) : IsWord w :=
  isWord_of_mem_wordsFrom (by simp) h

theorem intercalate_cons_eq (w : List Char) {ws : List (List Char)} (hws : ∀ v ∈ ws, v ≠ []) :
    [' '].intercalate (w :: ws) =
      if [' '].intercalate ws = [] then w else w ++ ' ' :: [' '].intercalate ws := by
  cases ws with
  | nil => simp [List.intercalate]
  | cons v vs =>
    have hv : v ≠ [] := hws v (by simp)
    have hne : [' '].intercalate (v :: vs) ≠ [] := by
      cases vs <;> simp [List.intercalate, hv]
    rw [if_neg hne]
    simp [List.intercalate]

/-- Splitting goes on from a word that is read so far, in reverse: what it returns is the
collapsed text from that word on. -/
theorem collapses_wordsFrom (cs word : List Char) (hword : ∀ c ∈ word, isBlank c = false) :
    Collapses (word.reverse ++ cs) ([' '].intercalate (wordsFrom word cs)) := by
  induction cs generalizing word with
  | nil =>
    cases word with
    | nil => exact .gap isGap_nil
    | cons d word =>
      have h : IsWord (d :: word).reverse := isWord_reverse hword
      simpa [wordsFrom, List.intercalate] using Collapses.word isGap_nil h isGap_nil
  -- A blank ends the word, if one has begun; any other character belongs to it.
  | cons c cs ih =>
    by_cases hc : isBlank c = true
    · have hcs : Collapses cs ([' '].intercalate (wordsFrom [] cs)) := ih [] (by simp)
      cases word with
      | nil => simpa [wordsFrom, hc] using hcs.cons_blank hc
      | cons d word =>
        have h : IsWord (d :: word).reverse := isWord_reverse hword
        have hsplit : wordsFrom (d :: word) (c :: cs) =
            (d :: word).reverse :: wordsFrom [] cs := by simp [wordsFrom, hc]
        rw [hsplit, intercalate_cons_eq _ fun v hv => (isWord_of_mem_wordsFrom (by simp) hv).1]
        exact hcs.word_cons h hc
    · have h := ih (c :: word) (by simp_all)
      simpa [wordsFrom, hc] using h

theorem collapses_collapse (cs : List Char) : Collapses cs (collapse cs) :=
  collapses_wordsFrom cs [] (by simp)

/-! ### Words at a blank -/

theorem wordsFrom_append_cons (hc : isBlank c = true) (word cs ds : List Char) :
    wordsFrom word (cs ++ c :: ds) = wordsFrom word cs ++ words ds := by
  induction cs generalizing word with
  | nil => cases word <;> simp [wordsFrom, hc, words]
  | cons d cs ih =>
    rw [List.cons_append, wordsFrom, wordsFrom]
    split
    · split
      · exact ih []
      · rw [ih, List.cons_append]
    · exact ih (d :: word)

/-- A blank sets words apart. -/
theorem words_append_cons (hc : isBlank c = true) (cs ds : List Char) :
    words (cs ++ c :: ds) = words cs ++ words ds :=
  wordsFrom_append_cons hc [] cs ds

theorem words_append {ds : List Char} (h : ∀ c ∈ ds.head?, isBlank c = true) :
    words (cs ++ ds) = words cs ++ words ds := by
  cases ds with
  | nil => simp [words, wordsFrom]
  | cons c ds =>
    have hc : isBlank c = true := h c rfl
    have hskip : words (c :: ds) = words ds := words_append_cons hc [] ds
    rw [words_append_cons hc, hskip]

theorem wordsFrom_of_isWord (h : ∀ c ∈ cs, isBlank c = false) (word : List Char) :
    wordsFrom word cs = wordsFrom (cs.reverse ++ word) [] := by
  induction cs generalizing word with
  | nil => rfl
  | cons c cs ih =>
    have hc : isBlank c = false := h c List.mem_cons_self
    have hcs : ∀ d ∈ cs, isBlank d = false := fun d hd => h d (List.mem_cons_of_mem c hd)
    have hstep : wordsFrom word (c :: cs) = wordsFrom (c :: word) cs := by simp [wordsFrom, hc]
    rw [hstep, ih hcs, List.reverse_cons, List.append_assoc, List.singleton_append]

theorem words_of_isWord (h : IsWord w) : words w = [w] := by
  rw [words, wordsFrom_of_isWord h.2, List.append_nil, wordsFrom, List.reverse_reverse, if_neg]
  simpa using h.1

theorem words_intercalate {ws : List (List Char)} (h : ∀ w ∈ ws, IsWord w) :
    words ([' '].intercalate ws) = ws := by
  induction ws with
  | nil => rfl
  | cons w ws ih =>
    have hw : IsWord w := h w List.mem_cons_self
    have hws : ∀ v ∈ ws, IsWord v := fun v hv => h v (List.mem_cons_of_mem w hv)
    have hspace : isBlank ' ' = true := by decide
    cases ws with
    | nil => simpa [List.intercalate] using words_of_isWord hw
    | cons v ws =>
      have hjoin : [' '].intercalate (w :: v :: ws) = w ++ ' ' :: [' '].intercalate (v :: ws) := by
        simp [List.intercalate]
      rw [hjoin, words_append_cons hspace, words_of_isWord hw, ih hws, List.singleton_append]

/-- What is collapsed already stays as it is. -/
theorem collapse_collapse (cs : List Char) : collapse (collapse cs) = collapse cs := by
  have hwords : words (collapse cs) = words cs :=
    words_intercalate fun w hw => isWord_of_mem_words hw
  rw [collapse, hwords]
  rfl

theorem words_gap_append {gap : List Char} (h : IsGap gap) (cs : List Char) :
    words (gap ++ cs) = words cs := by
  induction gap with
  | nil => rfl
  | cons c gap ih =>
    have hc : isBlank c = true := h c List.mem_cons_self
    have hskip : words (c :: (gap ++ cs)) = words (gap ++ cs) := words_append_cons hc [] _
    rw [List.cons_append, hskip, ih fun d hd => h d (List.mem_cons_of_mem c hd)]

/-- A word between gaps, in front of a text that a gap sets apart from it. -/
theorem words_word {before behind : List Char} (hbefore : IsGap before) (hword : IsWord word)
    (hbehind : IsGap behind) (cs : List Char) (hapart : behind = [] → cs = []) :
    words (before ++ word ++ behind ++ cs) = word :: words cs := by
  have hhead : ∀ c ∈ (behind ++ cs).head?, isBlank c = true := by
    intro c hc
    cases behind with
    | nil =>
      rw [hapart rfl] at hc
      cases hc
    | cons b behind => exact hbehind c (by simp_all)
  rw [List.append_assoc, List.append_assoc, words_gap_append hbefore, words_append hhead,
    words_of_isWord hword, words_gap_append hbehind, List.singleton_append]

theorem Collapses.eq_collapse (h : Collapses cs out) : out = collapse cs := by
  induction h with
  | @gap gap hgap =>
    have hwords : words gap = [] := by simpa [words, wordsFrom] using words_gap_append hgap []
    rw [collapse, hwords]
    rfl
  | @word before word behind hbefore hword hbehind =>
    have hwords := words_word hbefore hword hbehind [] fun _ => rfl
    rw [List.append_nil] at hwords
    rw [collapse, hwords]
    simp [words, wordsFrom, List.intercalate]
  | @more before word behind cs out hbefore hword hbehind hne _ hout ih =>
    have hwords := words_word hbefore hword hbehind cs fun hnil => absurd hnil hne
    rw [collapse, hwords, intercalate_cons_eq word fun v hv => (isWord_of_mem_words hv).1]
    rw [collapse] at ih
    rw [← ih, if_neg hout]

/-- A text collapses in one way only. -/
theorem collapses_iff : Collapses cs out ↔ out = collapse cs :=
  ⟨Collapses.eq_collapse, fun h => h ▸ collapses_collapse cs⟩

end ApiDoc.Text
