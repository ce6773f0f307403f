import ApiDoc.Proofs.Text.Collapse
import ApiDoc.Text.Alphabetic
import ApiDoc.Text.Numeric

/-!
# Blanks

Letters and digits are no blanks, because the ranges of the classes have no code point in common.
Cutting characters off the end of a text stops at the first one that stays (`cutEnd_append_cons`),
so trimming takes the gaps around a text off it (`Tight.trim_between`).
-/

namespace ApiDoc.Text

variable {c : Char} {gap : List Char}

/-! ## Character classes -/

namespace Ranges

/-- Have two classes no code point in common? -/
def disjoint (r s : Ranges) : Bool := r.all fun a => s.all fun b => a.2 < b.1 || b.2 < a.1

theorem exists_of_covers {r : Ranges} (h : r.covers c = true) :
    ∃ a ∈ r, a.1 ≤ c.toNat ∧ c.toNat ≤ a.2 := by
  induction r with
  | nil => cases h
  | cons a r ih =>
    unfold covers at h
    split at h
    · cases h
    · next hfirst =>
      split at h
      · next hlast => exact ⟨a, List.mem_cons_self, Nat.le_of_not_lt hfirst, hlast⟩
      · obtain ⟨b, hb, hc⟩ := ih h
        exact ⟨b, List.mem_cons_of_mem a hb, hc⟩

theorem covers_of_disjoint {r s : Ranges} (hdisjoint : r.disjoint s = true)
    (h : s.covers c = true) : r.covers c = false := by
  rw [Bool.eq_false_iff]
  intro hr
  obtain ⟨a, ha, hac⟩ := exists_of_covers hr
  obtain ⟨b, hb, hbc⟩ := exists_of_covers h
  have hapart := List.all_eq_true.mp (List.all_eq_true.mp hdisjoint a ha) b hb
  simp only [Bool.or_eq_true, decide_eq_true_eq] at hapart
  omega

end Ranges

theorem isBlank_of_isAlphabetic (h : isAlphabetic c = true) : isBlank c = false :=
  Ranges.covers_of_disjoint (by decide +kernel : blankRanges.disjoint alphabeticRanges = true) h

theorem isBlank_of_isNumeric (h : isNumeric c = true) : isBlank c = false :=
  Ranges.covers_of_disjoint (by decide +kernel : blankRanges.disjoint numericRanges = true) h

/-! ## Ends -/

theorem dropWhile_of_head {α : Type} {p : α → Bool} {xs : List α}
    (h : ∀ x ∈ xs.head?, p x = false) : xs.dropWhile p = xs := by
  cases xs with
  | nil => rfl
  | cons x xs => rw [List.dropWhile_cons_of_neg (by simp [h x rfl])]

theorem cutEnd_append_cons {p : Char → Bool} (hc : p c = false) (cs ds : List Char) :
    cutEnd p (cs ++ c :: ds) = cs ++ c :: cutEnd p ds := by
  have hdrop : ∀ front : List Char, (front ++ c :: cs.reverse).dropWhile p =
      front.dropWhile p ++ c :: cs.reverse := by
    intro front
    rw [List.dropWhile_append, List.dropWhile_cons_of_neg (by simp [hc])]
    split
    · next hempty => rw [List.isEmpty_iff.mp hempty, List.nil_append]
    · rfl
  rw [cutEnd, List.reverse_append, List.reverse_cons, List.append_assoc, List.singleton_append,
    hdrop, List.reverse_append, List.reverse_cons, List.reverse_reverse, List.append_assoc,
    List.singleton_append, cutEnd]

theorem cutEnd_of_isGap (h : IsGap gap) : cutEnd isBlank gap = [] := by
  have hdrop : (gap.reverse ++ []).dropWhile isBlank = [] :=
    List.dropWhile_append_of_pos fun c hc => h c (List.mem_reverse.mp hc)
  rw [cutEnd, ← List.append_nil gap.reverse, hdrop, List.reverse_nil]

theorem trim_gap_append (h : IsGap gap) (cs : List Char) : trim (gap ++ cs) = trim cs := by
  rw [trim, trim, cutStart, List.dropWhile_append_of_pos h, cutStart]

theorem trim_append_gap (h : IsGap gap) (cs : List Char) : trim (cs ++ gap) = trim cs := by
  have hend : ∀ ds, cutEnd isBlank (ds ++ gap) = cutEnd isBlank ds := fun ds => by
    rw [cutEnd, List.reverse_append,
      List.dropWhile_append_of_pos fun c hc => h c (List.mem_reverse.mp hc), cutEnd]
  rw [trim, trim, cutStart, List.dropWhile_append, cutStart]
  split
  · next hempty =>
    -- nothing but blanks stands there, before the gap or in it
    rw [List.isEmpty_iff.mp hempty, ← List.nil_append (gap.dropWhile isBlank),
      ← List.append_nil gap, List.dropWhile_append_of_pos h]
    rfl
  · exact hend _

/-- No blank stands at either end of a text. -/
structure Tight (cs : List Char) : Prop where
  first : ∀ c ∈ cs.head?, isBlank c = false
  last : ∀ c ∈ cs.getLast?, isBlank c = false

theorem IsWord.tight {cs : List Char} (h : IsWord cs) : Tight cs where
  first c hc := h.2 c (List.mem_of_head? hc)
  last c hc := h.2 c (List.mem_of_getLast? hc)

namespace Tight

variable {cs front back : List Char}

/-- Between two texts that are not empty, anything may stand. -/
theorem append (hfront : Tight front) (hback : Tight back) (hne : front ≠ []) (hne' : back ≠ [])
    (middle : List Char) : Tight (front ++ (middle ++ back)) := by
  obtain ⟨c, front, rfl⟩ := List.exists_cons_of_ne_nil hne
  rcases List.eq_nil_or_concat back with rfl | ⟨back, d, rfl⟩
  · exact absurd rfl hne'
  · refine ⟨hfront.first, ?_⟩
    rw [List.concat_eq_append, ← List.append_assoc, ← List.append_assoc, List.getLast?_concat]
    simpa using hback.last

theorem cutStart (h : Tight cs) : cutStart isBlank cs = cs := dropWhile_of_head h.first

theorem cutEnd (h : Tight cs) (hback : IsGap back) : cutEnd isBlank (cs ++ back) = cs := by
  rcases List.eq_nil_or_concat cs with rfl | ⟨init, c, rfl⟩
  · exact cutEnd_of_isGap hback
  · have hc : isBlank c = false := h.last c (by simp)
    rw [List.concat_eq_append, List.append_assoc, List.singleton_append, cutEnd_append_cons hc,
      cutEnd_of_isGap hback]

theorem trim_append (h : Tight cs) (hback : IsGap back) : trim (cs ++ back) = cs := by
  cases cs with
  | nil => rw [List.nil_append, ← List.append_nil back, trim_gap_append hback, trim, Text.cutStart,
      List.dropWhile_nil, cutEnd_of_isGap isGap_nil]
  | cons c cs =>
    have hstart : Text.cutStart isBlank (c :: cs ++ back) = c :: cs ++ back :=
      dropWhile_of_head h.first
    rw [trim, hstart, h.cutEnd hback]

theorem trim_between (h : Tight cs) (hfront : IsGap front) (hback : IsGap back) :
    trim (front ++ (cs ++ back)) = cs := by
  rw [trim_gap_append hfront, h.trim_append hback]

end Tight

end ApiDoc.Text
