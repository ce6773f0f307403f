import ApiDoc.Doc.Name
import ApiDoc.Proofs.Text.Segments

/-!
# The ends of dotted names

The first and the last segment of a dotted name, said in terms of the name alone: `IsFirstSegment`
and `IsLastSegment` do not mention how a name is cut, and the functions that cut it are shown to
return the one text that satisfies them.
-/

namespace ApiDoc

/-- The name starts with `first`, up to its first dot or its end; `rest` is what follows. -/
def IsFirstSegment (first rest name : String) : Prop :=
  name = first ++ rest ∧ '.' ∉ first.toList ∧ (rest = "" ∨ ∃ more, rest = "." ++ more)

/-- The name ends with `last`, which is all of it or stands behind its last dot. -/
def IsLastSegment (last name : String) : Prop :=
  '.' ∉ last.toList ∧ (name = last ∨ ∃ front, name = front ++ "." ++ last)

theorem toList_dotted (front name : String) :
    (front ++ "." ++ name).toList = front.toList ++ '.' :: name.toList := by
  simp [String.toList_append]

/-- A segment behind a dot is the last one. -/
theorem lastSegment_append (front : String) {name : String} (h : '.' ∉ name.toList) :
    lastSegment (front ++ "." ++ name) = name := by
  rw [lastSegment, toList_dotted, Text.segments_append, Text.segments_of_not_mem h,
    List.getLast?_concat, Option.getD_some, String.ofList_toList]

theorem lastSegment_of_not_mem {name : String} (h : '.' ∉ name.toList) :
    lastSegment name = name := by
  rw [lastSegment, Text.segments_of_not_mem h]
  simp

theorem isLastSegment_lastSegment (name : String) : IsLastSegment (lastSegment name) name := by
  have hne := Text.segments_ne_nil '.' name.toList
  generalize hlast : (Text.segments '.' name.toList).getLast hne = last
  generalize hfront : (Text.segments '.' name.toList).dropLast = front
  have hsegments : Text.segments '.' name.toList = front ++ [last] := by
    rw [← hlast, ← hfront, List.dropLast_concat_getLast]
  have hname : lastSegment name = String.ofList last := by
    rw [lastSegment, hsegments, List.getLast?_concat, Option.getD_some]
  have hdot : '.' ∉ last := Text.not_mem_of_mem_segments (by rw [hsegments]; simp)
  have hwhole : ['.'].intercalate (front ++ [last]) = name.toList := by
    rw [← hsegments, Text.intercalate_segments]
  rw [hname]
  refine ⟨by rwa [String.toList_ofList], ?_⟩
  -- A name without a dot is its own last segment.
  by_cases hempty : front = []
  · left
    rw [← String.toList_inj, String.toList_ofList, ← hwhole, hempty]
    simp [List.intercalate]
  · right
    refine ⟨String.ofList (['.'].intercalate front), ?_⟩
    rw [← String.toList_inj, toList_dotted, String.toList_ofList, String.toList_ofList, ← hwhole,
      Text.intercalate_append hempty (by simp)]
    simp [List.intercalate]

theorem lastSegment_eq_iff {last name : String} :
    lastSegment name = last ↔ IsLastSegment last name := by
  constructor
  · rintro rfl
    exact isLastSegment_lastSegment name
  · rintro ⟨hdot, rfl | ⟨front, rfl⟩⟩
    · exact lastSegment_of_not_mem hdot
    · exact lastSegment_append front hdot

theorem firstSegment_eq_iff {first rest name : String} :
    firstSegment name = first ∧ pastFirstSegment name = rest ↔ IsFirstSegment first rest name := by
  constructor
  · rintro ⟨rfl, rfl⟩
    refine ⟨?_, ?_, ?_⟩
    · rw [← String.toList_inj, String.toList_append, firstSegment, pastFirstSegment,
        String.toList_ofList, String.toList_ofList, List.takeWhile_append_dropWhile]
    · intro hdot
      rw [firstSegment, String.toList_ofList] at hdot
      exact absurd (List.all_eq_true.mp List.all_takeWhile _ hdot) (by decide)
    · cases hrest : name.toList.dropWhile (· ≠ '.') with
      | nil => exact .inl (by rw [pastFirstSegment, hrest, String.ofList_nil])
      | cons c cs =>
        have hstop := List.head?_dropWhile_not (· ≠ '.') name.toList
        rw [hrest] at hstop
        obtain rfl : c = '.' := by simpa using hstop
        refine .inr ⟨String.ofList cs, ?_⟩
        rw [pastFirstSegment, hrest, ← String.toList_inj]
        simp
  · rintro ⟨rfl, hdot, hrest⟩
    have hfirst : ∀ c ∈ first.toList, decide (c ≠ '.') = true := by
      intro c hc
      exact decide_eq_true fun h => hdot (h ▸ hc)
    -- taking characters ends with the first segment: behind it stands a dot or nothing
    have hstop : rest.toList.takeWhile (· ≠ '.') = [] ∧
        rest.toList.dropWhile (· ≠ '.') = rest.toList := by
      rcases hrest with rfl | ⟨more, rfl⟩
      · exact ⟨rfl, rfl⟩
      · simp [String.toList_append]
    constructor
    · rw [firstSegment, String.toList_append, List.takeWhile_append_of_pos hfirst, hstop.1,
        List.append_nil, String.ofList_toList]
    · rw [pastFirstSegment, String.toList_append, List.dropWhile_append_of_pos hfirst, hstop.2,
        String.ofList_toList]

end ApiDoc
