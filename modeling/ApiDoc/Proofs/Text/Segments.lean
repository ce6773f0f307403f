import ApiDoc.Text.Segments

/-!
# Where a text is cut

The segments of a text, with the separator between them, are the text (`intercalate_segments`), and
a separator anywhere in a text ends a segment (`segments_append`). A known end is taken off exactly
where the text has it (`beforeEnd?_eq_some_iff`), and a text is cut at a mark where it occurs first
(`cutAt?_eq_some_iff`).
-/

namespace ApiDoc.Text

variable {before behind cs mark : List Char} {sep : Char}

/-! ## Segments -/

theorem segments_ne_nil (sep : Char) (cs : List Char) : segments sep cs ≠ [] := by
  cases cs with
  | nil => simp [segments]
  | cons c cs =>
    unfold segments
    split
    · simp
    · split <;> simp

theorem segments_of_not_mem (h : sep ∉ cs) : segments sep cs = [cs] := by
  induction cs with
  | nil => rfl
  | cons c cs ih =>
    rw [List.mem_cons, not_or] at h
    rw [segments, if_neg (Ne.symm h.1), ih h.2]

theorem segments_append (sep : Char) (cs ds : List Char) :
    segments sep (cs ++ sep :: ds) = segments sep cs ++ segments sep ds := by
  induction cs with
  | nil => simp [segments]
  | cons c cs ih =>
    rw [List.cons_append]
    by_cases hc : c = sep
    · rw [segments, segments, if_pos hc, if_pos hc, ih, List.cons_append]
    · rw [segments, segments, if_neg hc, if_neg hc, ih]
      cases hcs : segments sep cs with
      | nil => exact absurd hcs (segments_ne_nil sep cs)
      | cons s ss => rfl

/-- Lines that the separator ends are segments, and what follows them is cut further. -/
theorem segments_flatMap {lines : List (List Char)} (h : ∀ line ∈ lines, sep ∉ line)
    (rest : List Char) :
    segments sep (lines.flatMap (· ++ [sep]) ++ rest) = lines ++ segments sep rest := by
  induction lines with
  | nil => rfl
  | cons line lines ih =>
    obtain ⟨hline, hlines⟩ := List.forall_mem_cons.mp h
    rw [List.flatMap_cons, List.append_assoc, List.append_assoc, List.singleton_append,
      segments_append, segments_of_not_mem hline, ih hlines]
    rfl

theorem intercalate_cons {s : List Char} {ss : List (List Char)} (h : ss ≠ []) :
    [sep].intercalate (s :: ss) = s ++ sep :: [sep].intercalate ss := by
  cases ss with
  | nil => exact absurd rfl h
  | cons s' ss => simp [List.intercalate, List.intersperse]

/-- Segments before and behind a separator. -/
theorem intercalate_append {ss ts : List (List Char)} (hss : ss ≠ []) (hts : ts ≠ []) :
    [sep].intercalate (ss ++ ts) = [sep].intercalate ss ++ sep :: [sep].intercalate ts := by
  induction ss with
  | nil => exact absurd rfl hss
  | cons s ss ih =>
    cases ss with
    | nil => simpa [List.intercalate] using intercalate_cons hts
    | cons s' ss =>
      have hmore : s' :: ss ≠ [] := List.cons_ne_nil s' ss
      rw [List.cons_append, intercalate_cons (by simp), ih hmore, intercalate_cons hmore,
        List.append_assoc, List.cons_append]

/-- The segments of a text, with the separator between them, are the text. -/
theorem intercalate_segments (sep : Char) (cs : List Char) :
    [sep].intercalate (segments sep cs) = cs := by
  induction cs with
  | nil => rfl
  | cons c cs ih =>
    unfold segments
    split
    · next hc => rw [intercalate_cons (segments_ne_nil sep cs), ih, hc, List.nil_append]
    · cases hcs : segments sep cs with
      | nil => exact absurd hcs (segments_ne_nil sep cs)
      | cons s ss =>
        rw [hcs] at ih
        rw [← ih]
        cases ss with
        | nil => simp [List.intercalate]
        | cons s' ss => simp [List.intercalate, List.intersperse]

theorem not_mem_of_mem_segments {s : List Char} (h : s ∈ segments sep cs) : sep ∉ s := by
  induction cs generalizing s with
  | nil =>
    rw [segments, List.mem_singleton] at h
    simp [h]
  | cons c cs ih =>
    unfold segments at h
    split at h
    · rcases List.mem_cons.mp h with rfl | h
      · simp
      · exact ih h
    · next hc =>
      cases hcs : segments sep cs with
      | nil => exact absurd hcs (segments_ne_nil sep cs)
      | cons s' ss =>
        rw [hcs] at h ih
        rcases List.mem_cons.mp h with rfl | h
        · simpa [Ne.symm hc] using ih List.mem_cons_self
        · exact ih (List.mem_cons_of_mem s' h)

/-! ## Known ends and marks -/

/-- A list is cut before the first element without a property. -/
theorem takeWhile_dropWhile_append {α : Type} {p : α → Bool} {front rest : List α}
    (hfront : ∀ x ∈ front, p x = true) (hrest : ∀ x ∈ rest.head?, p x = false) :
    (front ++ rest).takeWhile p = front ∧ (front ++ rest).dropWhile p = rest := by
  rw [List.takeWhile_append_of_pos hfront, List.dropWhile_append_of_pos hfront]
  cases rest with
  | nil => simp
  | cons x rest => simp [hrest x rfl]

theorem takeWhile_dropWhile_not {α : Type} {p : α → Bool} {front rest : List α}
    (hfront : ∀ x ∈ front, p x = false) (hrest : ∀ x ∈ rest.head?, p x = true) :
    (front ++ rest).takeWhile (fun x => !p x) = front ∧
      (front ++ rest).dropWhile (fun x => !p x) = rest :=
  takeWhile_dropWhile_append (by simpa using hfront) (by simpa using hrest)

theorem dropWhile_eq_iff {α : Type} {p : α → Bool} {xs rest : List α} :
    xs.dropWhile p = rest ↔ ∃ front, xs = front ++ rest ∧ (∀ x ∈ front, p x = true) ∧
      ∀ x ∈ rest.head?, p x = false := by
  constructor
  · rintro rfl
    refine ⟨xs.takeWhile p, List.takeWhile_append_dropWhile.symm,
      List.all_eq_true.mp List.all_takeWhile, fun x hx => ?_⟩
    have hstop := List.head?_dropWhile_not (p := p) xs
    rw [Option.mem_def.mp hx] at hstop
    simpa using hstop
  · rintro ⟨front, rfl, hfront, hrest⟩
    exact (takeWhile_dropWhile_append hfront hrest).2

theorem afterStart?_eq_some_iff {start rest : List Char} :
    afterStart? start cs = some rest ↔ cs = start ++ rest := by
  unfold afterStart?
  constructor
  · intro h
    split at h
    · next hstart =>
      obtain ⟨behind, rfl⟩ := List.isPrefixOf_iff_prefix.mp hstart
      simpa using h
    · cases h
  · rintro rfl
    simp

theorem beforeEnd?_eq_some_iff {finish front : List Char} :
    beforeEnd? finish cs = some front ↔ cs = front ++ finish := by
  unfold beforeEnd?
  constructor
  · intro h
    split at h
    · next hsuffix =>
      obtain ⟨before, rfl⟩ := List.isSuffixOf_iff_suffix.mp hsuffix
      simpa using h
    · cases h
  · rintro rfl
    rw [if_pos (List.isSuffixOf_iff_suffix.mpr (List.suffix_append front finish))]
    simp

/-- The mark stands between `before` and `behind`, and nowhere in the text before that. -/
def IsFirstCut (mark cs before behind : List Char) : Prop :=
  cs = before ++ mark ++ behind ∧
    ∀ front rest, cs = front ++ mark ++ rest → before.length ≤ front.length

theorem IsFirstCut.unique {before' behind' : List Char} (h : IsFirstCut mark cs before behind)
    (h' : IsFirstCut mark cs before' behind') : before = before' ∧ behind = behind' := by
  have hlength : before.length = before'.length :=
    Nat.le_antisymm (h.2 _ _ h'.1) (h'.2 _ _ h.1)
  have heq := h.1.symm.trans h'.1
  rw [List.append_assoc, List.append_assoc] at heq
  obtain ⟨hbefore, hrest⟩ := List.append_inj heq hlength
  exact ⟨hbefore, List.append_cancel_left hrest⟩

/-- If the mark does not stand right here, it stands behind the next character. -/
theorem eq_append_of_not_isPrefixOf {front rest : List Char} {c : Char}
    (h : ¬mark.isPrefixOf (c :: cs) = true) (hcs : c :: cs = front ++ mark ++ rest) :
    ∃ front', front = c :: front' ∧ cs = front' ++ mark ++ rest := by
  cases front with
  | nil =>
    refine absurd (List.isPrefixOf_iff_prefix.mpr ⟨rest, ?_⟩) h
    rw [hcs, List.nil_append]
  | cons d front' =>
    obtain ⟨rfl, hrest⟩ := List.cons.inj hcs
    exact ⟨front', rfl, hrest⟩

theorem isFirstCut_of_cutAt? (h : cutAt? mark cs = some (before, behind)) :
    IsFirstCut mark cs before behind := by
  fun_induction cutAt? mark cs generalizing before behind with
  | case1 hempty =>
    cases h
    rw [List.isEmpty_iff.mp hempty]
    exact ⟨rfl, fun _ _ _ => Nat.zero_le _⟩
  | case2 hempty => cases h
  | case3 c cs hhere =>
    cases h
    refine ⟨?_, fun _ _ _ => Nat.zero_le _⟩
    rw [List.nil_append, List.prefix_iff_eq_append.mp (List.isPrefixOf_iff_prefix.mp hhere)]
  | case4 c cs hhere ih =>
    obtain ⟨⟨before', behind'⟩, hcut, heq⟩ := Option.map_eq_some_iff.mp h
    obtain ⟨rfl, rfl⟩ := Prod.mk.inj heq
    obtain ⟨hcs, hfirst⟩ := ih hcut
    refine ⟨congrArg (c :: ·) hcs, fun front rest heq => ?_⟩
    obtain ⟨front', rfl, hrest⟩ := eq_append_of_not_isPrefixOf hhere heq
    exact Nat.succ_le_succ (hfirst front' rest hrest)

theorem cutAt?_eq_none_iff : cutAt? mark cs = none ↔ ∀ front rest, cs ≠ front ++ mark ++ rest := by
  fun_induction cutAt? mark cs with
  | case1 hempty => simp_all
  | case2 hempty => simp_all
  | case3 c cs hhere =>
    obtain ⟨rest, hrest⟩ := List.isPrefixOf_iff_prefix.mp hhere
    exact iff_of_false (by simp) fun h => h [] rest (by rw [← hrest, List.nil_append])
  | case4 c cs hhere ih =>
    rw [Option.map_eq_none_iff, ih]
    constructor
    · intro h front rest heq
      obtain ⟨front', rfl, hrest⟩ := eq_append_of_not_isPrefixOf hhere heq
      exact h front' rest hrest
    · intro h front rest heq
      exact h (c :: front) rest (congrArg (c :: ·) heq)

/-- A text is cut where the mark occurs first. -/
theorem cutAt?_eq_some_iff :
    cutAt? mark cs = some (before, behind) ↔ IsFirstCut mark cs before behind := by
  refine ⟨isFirstCut_of_cutAt?, fun h => ?_⟩
  cases hcut : cutAt? mark cs with
  | none => exact absurd h.1 (cutAt?_eq_none_iff.mp hcut before behind)
  | some cut =>
    obtain ⟨hbefore, hbehind⟩ := (isFirstCut_of_cutAt? hcut).unique h
    exact congrArg some (Prod.ext hbefore hbehind)

/-- The last character of the mark stands only at its end. -/
def EndsOnce (mark : List Char) : Prop := ∃ front z, mark = front ++ [z] ∧ z ∉ front

/-- Such a mark is found right behind a text without it, because no occurrence of it reaches into a
later one. -/
theorem EndsOnce.cutAt?_eq_some_iff (h : EndsOnce mark) :
    cutAt? mark cs = some (before, behind) ↔
      cs = before ++ mark ++ behind ∧ ¬ mark <:+: before := by
  obtain ⟨front, z, rfl, hz⟩ := h
  rw [Text.cutAt?_eq_some_iff]
  constructor
  · rintro ⟨rfl, hfirst⟩
    refine ⟨rfl, ?_⟩
    rintro ⟨left, right, rfl⟩
    have hle := hfirst left (right ++ (front ++ [z]) ++ behind) (by simp)
    simp only [List.length_append, List.length_singleton] at hle
    omega
  · rintro ⟨rfl, hnone⟩
    refine ⟨rfl, fun other rest heq => Nat.le_of_not_lt fun hshort => hnone ?_⟩
    have hother : other ++ (front ++ [z]) <+: before ++ front := by
      refine List.prefix_of_prefix_length_le ⟨rest, heq.symm⟩ ⟨z :: behind, by simp⟩ ?_
      simp only [List.length_append, List.length_singleton]
      omega
    obtain ⟨back, hback⟩ := hother
    rcases Nat.lt_or_ge back.length front.length with hlt | hge
    · -- the earlier mark would end inside the later one
      have hsuffix : z :: back <:+ front :=
        List.suffix_of_suffix_length_le ⟨other ++ front, by simpa using hback⟩
          (List.suffix_append before front) hlt
      exact absurd (hsuffix.subset List.mem_cons_self) hz
    · have hinside : other ++ (front ++ [z]) <+: before := by
        refine List.prefix_of_prefix_length_le ⟨back, hback⟩ (List.prefix_append before front) ?_
        have hlength := congrArg List.length hback
        simp only [List.length_append] at hlength ⊢
        omega
      exact (List.suffix_append other _).isInfix.trans hinside.isInfix

end ApiDoc.Text
