import ApiDoc.Data.BinarySearch

/-!
# What a search finds

A search halves the part of the array where an entry can be: the entries before this part come too
early, and those behind it come too late (`Outside`). This holds at the start, where the part is the
whole array, and each half keeps it if the entries are in order (`Ordered`). Where the part is empty
or an entry is found, the place is known (`marks_search`).

From this it follows what the two look-ups find: the last entry of a table up to a number
(`SortedTable.last?_search_eq_some_iff`), and the length of what satisfies a predicate in front
(`partitionPoint_eq`).
-/

namespace ApiDoc

namespace BinarySearch

variable {α : Type} {entries : Array α} {rank : α → Ordering} {low high : Nat}

/-- The entries are in the order of the rank: those that come too early stand first, and those that
come too late stand last. -/
def Ordered (entries : Array α) (rank : α → Ordering) : Prop :=
  entries.toList.Pairwise fun a b => (rank b = .lt → rank a = .lt) ∧ (rank a = .gt → rank b = .gt)

/-- The entries before `low` come too early, and those from `high` on come too late. -/
structure Outside (entries : Array α) (rank : α → Ordering) (low high : Nat) : Prop where
  early : ∀ i a, i < low → entries[i]? = some a → rank a = .lt
  late : ∀ i a, high ≤ i → entries[i]? = some a → rank a = .gt

/-- Does the place say where the search has to end? -/
def Place.Marks (entries : Array α) (rank : α → Ordering) : Place → Prop
  | .found i => ∃ a, entries[i]? = some a ∧ rank a = .eq
  | .missing i => i ≤ entries.size ∧ Outside entries rank i i

theorem Ordered.of_lt (h : Ordered entries rank) {i j : Nat} {a b : α} (hlt : i < j)
    (ha : entries[i]? = some a) (hb : entries[j]? = some b) :
    (rank b = .lt → rank a = .lt) ∧ (rank a = .gt → rank b = .gt) := by
  rw [← Array.getElem?_toList, List.getElem?_eq_some_iff] at ha hb
  obtain ⟨hi, rfl⟩ := ha
  obtain ⟨hj, rfl⟩ := hb
  exact List.pairwise_iff_getElem.mp h i j hi hj hlt

/-! ## Halves -/

/-- If the middle comes too early, so does all before it. -/
theorem Outside.after_middle (hordered : Ordered entries rank) (h : Outside entries rank low high)
    {middle : Nat} {a : α} (hmiddle : entries[middle]? = some a) (hrank : rank a = .lt) :
    Outside entries rank (middle + 1) high := by
  refine ⟨fun i b hi hb => ?_, h.late⟩
  rcases Nat.lt_or_eq_of_le (Nat.le_of_lt_succ hi) with hi | rfl
  · exact (hordered.of_lt hi hb hmiddle).1 hrank
  · cases hb.symm.trans hmiddle
    exact hrank

/-- If the middle comes too late, so does all behind it. -/
theorem Outside.before_middle (hordered : Ordered entries rank) (h : Outside entries rank low high)
    {middle : Nat} {a : α} (hmiddle : entries[middle]? = some a) (hrank : rank a = .gt) :
    Outside entries rank low middle := by
  refine ⟨h.early, fun i b hi hb => ?_⟩
  rcases Nat.lt_or_eq_of_le hi with hi | rfl
  · exact (hordered.of_lt hi hmiddle hb).2 hrank
  · cases hb.symm.trans hmiddle
    exact hrank

theorem marks_searchBetween (hordered : Ordered entries rank) (hhigh : high ≤ entries.size)
    (hle : low ≤ high) (h : Outside entries rank low high) :
    (searchBetween entries rank low high hhigh).Marks entries rank := by
  fun_induction searchBetween entries rank low high hhigh with
  | case1 low high hhigh hlow hmiddle hrank =>
    exact ⟨_, Array.getElem?_eq_getElem hmiddle, hrank⟩
  | case2 low high hhigh hlow hmiddle hrank ih =>
    apply ih
    · omega
    · exact h.after_middle hordered (Array.getElem?_eq_getElem hmiddle) hrank
  | case3 low high hhigh hlow hmiddle hrank ih =>
    apply ih
    · omega
    · exact h.before_middle hordered (Array.getElem?_eq_getElem hmiddle) hrank
  | case4 low high hhigh hlow =>
    obtain rfl : low = high := by omega
    exact ⟨hhigh, h⟩

theorem marks_search (hordered : Ordered entries rank) :
    (search entries rank).Marks entries rank := by
  apply marks_searchBetween hordered
  · exact Nat.zero_le _
  · -- nothing stands outside the whole array
    constructor
    · intro i a hi
      cases hi
    · intro i a hi ha
      rw [Array.getElem?_eq_none hi] at ha
      cases ha

/-! ## Partition points -/

theorem rank_eq_lt {b : Bool} : (if b then Ordering.lt else .gt) = .lt ↔ b = true := by
  cases b <;> simp

theorem rank_eq_gt {b : Bool} : (if b then Ordering.lt else .gt) = .gt ↔ b = false := by
  cases b <;> simp

theorem rank_ne_eq {b : Bool} : (if b then Ordering.lt else .gt) ≠ .eq := by
  cases b <;> simp

/-- Where the entries before a place satisfy a predicate and those behind it do not, what satisfies
it in front ends there. -/
theorem length_takeWhile_of_outside {p : α → Bool} {i : Nat} (hsize : i ≤ entries.size)
    (h : Outside entries (fun a => if p a then .lt else .gt) i i) :
    (entries.toList.takeWhile p).length = i := by
  -- Split at the place: all in front satisfy the predicate, and the entry there does not.
  have hfront : ∀ a ∈ entries.toList.take i, p a = true := by
    intro a ha
    obtain ⟨j, hj⟩ := List.mem_iff_getElem?.mp ha
    rw [List.getElem?_take] at hj
    split at hj
    · next hlt =>
      rw [Array.getElem?_toList] at hj
      exact rank_eq_lt.mp (h.early j a hlt hj)
    · cases hj
  have hback : (entries.toList.drop i).takeWhile p = [] := by
    cases hdrop : entries.toList.drop i with
    | nil => rfl
    | cons a rest =>
      have ha : entries[i]? = some a := by
        rw [← Array.getElem?_toList, ← List.head?_drop, hdrop]
        rfl
      have hrank := rank_eq_gt.mp (h.late i a (Nat.le_refl i) ha)
      exact List.takeWhile_cons_of_neg (by simp [hrank])
  rw [← List.take_append_drop i entries.toList, List.takeWhile_append_of_pos hfront, hback,
    List.append_nil, List.length_take, Array.length_toList, Nat.min_eq_left hsize]

/-- If a predicate holds of no entry behind one that it does not hold of, the partition point is the
length of what satisfies it in front. -/
theorem partitionPoint_eq {p : α → Bool}
    (h : entries.toList.Pairwise fun a b => p b = true → p a = true) :
    partitionPoint entries p = (entries.toList.takeWhile p).length := by
  have hordered : Ordered entries fun a => if p a then .lt else .gt := by
    refine h.imp fun {a b} hab => ?_
    rw [rank_eq_lt, rank_eq_lt, rank_eq_gt, rank_eq_gt]
    exact ⟨hab, fun ha => Bool.eq_false_iff.mpr fun hb => by simp [hab hb] at ha⟩
  have hmarks := marks_search hordered
  unfold partitionPoint
  cases hplace : search entries (fun a => if p a then Ordering.lt else .gt) with
  | found i =>
    -- a predicate alone never calls an entry the right one
    rw [hplace] at hmarks
    obtain ⟨a, -, ha⟩ := hmarks
    exact absurd ha rank_ne_eq
  | missing i =>
    rw [hplace] at hmarks
    obtain ⟨hsize, houtside⟩ := hmarks
    exact (length_takeWhile_of_outside hsize houtside).symm

end BinarySearch

/-! ## Tables -/

namespace SortedTable

open BinarySearch

theorem lt_of_lt (table : SortedTable) {i j a b : Nat} (hlt : i < j)
    (ha : table.entries[i]? = some a) (hb : table.entries[j]? = some b) : a < b := by
  rw [← Array.getElem?_toList, List.getElem?_eq_some_iff] at ha hb
  obtain ⟨hi, rfl⟩ := ha
  obtain ⟨hj, rfl⟩ := hb
  exact List.pairwise_iff_getElem.mp table.sorted i j hi hj hlt

theorem marks_search (table : SortedTable) (n : Nat) :
    (table.search n).Marks table.entries (compare · n) := by
  apply BinarySearch.marks_search
  refine table.sorted.imp fun {a b} hab => ?_
  simp only [Nat.compare_eq_lt, Nat.compare_eq_gt]
  omega

/-- The entry that is found is the last one that is not greater. -/
theorem last?_search_eq_some_iff {table : SortedTable} {n i : Nat} :
    (table.search n).last? = some i ↔
      (∃ m, table.entries[i]? = some m ∧ m ≤ n) ∧
        ∀ j m, i < j → table.entries[j]? = some m → n < m := by
  have hmarks := table.marks_search n
  cases hplace : table.search n with
  | found k =>
    rw [hplace] at hmarks
    obtain ⟨a, hk, ha⟩ := hmarks
    obtain rfl : a = n := Nat.compare_eq_eq.mp ha
    constructor
    · rintro ⟨⟩
      exact ⟨⟨a, hk, Nat.le_refl a⟩, fun j m hlt hm => table.lt_of_lt hlt hk hm⟩
    · rintro ⟨⟨m, hm, hle⟩, hgreater⟩
      rcases Nat.lt_trichotomy k i with hlt | rfl | hlt
      · exact absurd (table.lt_of_lt hlt hk hm) (Nat.not_lt.mpr hle)
      · rfl
      · exact absurd (hgreater k a hlt hk) (Nat.lt_irrefl a)
  | missing k =>
    rw [hplace] at hmarks
    obtain ⟨hsize, hearly, hlate⟩ := hmarks
    -- all entries from the place on are greater, and all before it smaller
    have hgreater : ∀ j m, k ≤ j → table.entries[j]? = some m → n < m := fun j m hj hm =>
      Nat.compare_eq_gt.mp (hlate j m hj hm)
    cases k with
    | zero =>
      constructor
      · rintro ⟨⟩
      · rintro ⟨⟨m, hm, hle⟩, -⟩
        exact absurd (hgreater i m (Nat.zero_le i) hm) (Nat.not_lt.mpr hle)
    | succ k =>
      have hk := Array.getElem?_eq_getElem (Nat.lt_of_succ_le hsize)
      have hlt := Nat.compare_eq_lt.mp (hearly k _ (Nat.lt_succ_self k) hk)
      constructor
      · rintro ⟨⟩
        exact ⟨⟨_, hk, Nat.le_of_lt hlt⟩, fun j m hj hm => hgreater j m hj hm⟩
      · rintro ⟨⟨m, hm, hle⟩, hbehind⟩
        rcases Nat.lt_trichotomy k i with hki | rfl | hki
        · exact absurd (hgreater i m hki hm) (Nat.not_lt.mpr hle)
        · rfl
        · exact absurd (hbehind k _ hki hk) (Nat.not_lt.mpr (Nat.le_of_lt hlt))

end SortedTable

end ApiDoc
