import ApiDoc.Proofs.BinarySearch
import ApiDoc.Proofs.Text.Position

/-!
# The position of an offset

The line index of a source finds where its lines start once, and then looks offsets up: it looks for
the line in the table of starts, and cuts out the text between the start of the line and the offset.
At an offset where characters end, this text is there, and line and column are those that counting
gives (`position?_behind`). No other offset has a position, and positions grow with the offset.
-/

namespace ApiDoc.Text

variable {back cs front : List Char} {n : Nat}

/-! ## Slices -/

theorem byteLength_eq_zero_iff : byteLength cs = 0 ↔ cs = [] := by
  cases cs with
  | nil => simp
  | cons c cs =>
    have hc : 0 < c.utf8Size := c.utf8Size_pos
    simp only [byteLength_cons, reduceCtorEq, iff_false]
    omega

/-- Some bytes at the start of a text are whole characters if the first character fits in, and the
other bytes are whole characters of the rest. -/
theorem cons_eq_append_iff {c : Char} :
    c :: cs = front ++ back ∧ byteLength front = n + 1 ↔
      c.utf8Size ≤ n + 1 ∧
        ∃ more, front = c :: more ∧ cs = more ++ back ∧ byteLength more = n + 1 - c.utf8Size := by
  constructor
  · rintro ⟨hfront, hlength⟩
    cases front with
    | nil => cases hlength
    | cons d more =>
      obtain ⟨rfl, rfl⟩ := List.cons.inj hfront
      rw [byteLength_cons] at hlength
      exact ⟨by omega, more, rfl, rfl, by omega⟩
  · rintro ⟨hsize, more, rfl, rfl, hlength⟩
    refine ⟨rfl, ?_⟩
    rw [byteLength_cons]
    omega

theorem dropBytes?_eq_some_iff :
    dropBytes? n cs = some back ↔ ∃ front, cs = front ++ back ∧ byteLength front = n := by
  induction cs generalizing n with
  | nil =>
    cases n with
    | zero => simp [dropBytes?, eq_comm]
    | succ n =>
      refine ⟨nofun, ?_⟩
      rintro ⟨front, hfront, hlength⟩
      rw [(List.append_eq_nil_iff.mp hfront.symm).1] at hlength
      cases hlength
  | cons c cs ih =>
    cases n with
    | zero => simp [dropBytes?, byteLength_eq_zero_iff]
    | succ n =>
      rw [dropBytes?]
      simp only [cons_eq_append_iff]
      split
      · next hsize => simp [ih, hsize]
      · next hsize => simp [hsize]

theorem takeBytes?_eq_some_iff :
    takeBytes? n cs = some front ↔ ∃ back, cs = front ++ back ∧ byteLength front = n := by
  induction cs generalizing n front with
  | nil =>
    cases n with
    | zero => simp [takeBytes?, byteLength_eq_zero_iff]
    | succ n =>
      refine ⟨nofun, ?_⟩
      rintro ⟨back, hfront, hlength⟩
      rw [(List.append_eq_nil_iff.mp hfront.symm).1] at hlength
      cases hlength
  | cons c cs ih =>
    cases n with
    | zero =>
      -- no bytes are taken from any text
      rw [takeBytes?, Option.some.injEq]
      simp only [byteLength_eq_zero_iff]
      constructor
      · rintro rfl
        exact ⟨c :: cs, rfl, rfl⟩
      · rintro ⟨_, _, hfront⟩
        exact hfront.symm
    | succ n =>
      rw [takeBytes?]
      -- a character is taken whole or not at all
      simp only [cons_eq_append_iff]
      split
      · next hsize =>
        rw [Option.map_eq_some_iff]
        constructor
        · rintro ⟨more, hmore, rfl⟩
          obtain ⟨back, hback, hlength⟩ := ih.mp hmore
          exact ⟨back, hsize, more, rfl, hback, hlength⟩
        · rintro ⟨back, -, more, rfl, hback, hlength⟩
          exact ⟨more, ih.mpr ⟨back, hback, hlength⟩, rfl⟩
      · next hsize => simp [hsize]

/-- A text is cut out exactly where it stands, between characters. -/
theorem slice?_eq_some_iff {piece : List Char} {i j : Nat} :
    slice? cs i j = some piece ↔ IsSlice cs i j piece := by
  unfold slice? IsSlice
  split
  · next hle =>
    simp only [Option.bind_eq_some_iff, dropBytes?_eq_some_iff, takeBytes?_eq_some_iff,
      byteLength_append]
    constructor
    · rintro ⟨rest, ⟨front, rfl, hfront⟩, back, rfl, hpiece⟩
      exact ⟨front, back, (List.append_assoc ..).symm, hfront, by omega⟩
    · rintro ⟨front, back, rfl, hfront, hpiece⟩
      exact ⟨piece ++ back, ⟨front, List.append_assoc .., hfront⟩, back, rfl, by omega⟩
  · next hle =>
    refine ⟨nofun, ?_⟩
    rintro ⟨front, back, -, hfront, hpiece⟩
    rw [byteLength_append] at hpiece
    omega

/-! ## Where lines start -/

theorem utf8Size_lineFeed : '\n'.utf8Size = 1 := rfl

theorem startsFrom_append (offset : Nat) (front back : List Char) :
    startsFrom offset (front ++ back) =
      startsFrom offset front ++ startsFrom (offset + byteLength front) back := by
  induction front generalizing offset with
  | nil => rfl
  | cons c front ih =>
    rw [List.cons_append, startsFrom, startsFrom, byteLength_cons, ← Nat.add_assoc]
    split
    · next hc => rw [ih, hc, utf8Size_lineFeed, List.cons_append]
    · rw [ih]

/-- There is one start for each line feed. -/
theorem length_startsFrom (offset : Nat) (cs : List Char) :
    (startsFrom offset cs).length = cs.count '\n' := by
  induction cs generalizing offset with
  | nil => rfl
  | cons c cs ih =>
    unfold startsFrom
    split
    · next hc => simp [ih, hc]
    · next hc => simp [ih, hc]

/-- The last line of a text starts behind the last line feed, or where the text starts. -/
theorem exists_lastLine (front : List Char) :
    ∃ lines line, front = lines ++ line ∧
      (0 :: startsFrom 0 front).getLast? = some (byteLength lines) ∧
        line.length = (front.reverse.takeWhile (· ≠ '\n')).length := by
  induction front using List.reverseRecOn with
  | nil => exact ⟨[], [], rfl, rfl, rfl⟩
  | append_singleton front c ih =>
    obtain ⟨lines, line, hfront, hlast, hlength⟩ := ih
    rw [startsFrom_append, startsFrom, Nat.zero_add, List.reverse_concat, List.takeWhile_cons,
      ← List.cons_append]
    by_cases hc : c = '\n'
    · refine ⟨front ++ [c], [], (List.append_nil _).symm, ?_, by simp [hc]⟩
      rw [if_pos hc, startsFrom, List.getLast?_concat, hc]
      simp [utf8Size_lineFeed]
    · refine ⟨lines, line ++ [c], by rw [hfront, List.append_assoc], ?_, ?_⟩
      · rw [if_neg hc, startsFrom, List.append_nil, hlast]
      · rw [if_pos (by simpa using hc), List.length_append, hlength]
        rfl

namespace LineIndex

variable {index : LineIndex}

/-- The position behind a part of the source is the one that counting through this part gives. -/
theorem position?_behind (hsource : index.source = front ++ back) :
    index.position? (byteLength front) = some (.behind front) := by
  obtain ⟨lines, line, hfront, hlast, hlength⟩ := exists_lastLine front
  have hentries : index.starts.entries.toList =
      (0 :: startsFrom 0 front) ++ startsFrom (byteLength front) back := by
    rw [index.starts_eq, hsource, startsFrom_append, Nat.zero_add, List.cons_append]
  have hcount : (0 :: startsFrom 0 front).length = front.count '\n' + 1 := by
    rw [List.length_cons, length_startsFrom]
  have hstart : index.starts.entries[front.count '\n']? = some (byteLength lines) := by
    rw [← Array.getElem?_toList, hentries, List.getElem?_append_left (by omega)]
    rw [List.getLast?_eq_getElem?, hcount] at hlast
    exact hlast
  have hline : (index.starts.search (byteLength front)).last? = some (front.count '\n') := by
    refine SortedTable.last?_search_eq_some_iff.mpr ⟨⟨_, hstart, ?_⟩, fun j m hj hm => ?_⟩
    · rw [hfront, byteLength_append]
      exact Nat.le_add_right _ _
    · -- what comes later in the table comes from the rest of the source
      rw [← Array.getElem?_toList, hentries, List.getElem?_append_right (by omega)] at hm
      exact lt_of_mem_startsFrom (List.mem_of_getElem? hm)
  have hslice : slice? index.source (byteLength lines) (byteLength front) = some line :=
    slice?_eq_some_iff.mpr ⟨lines, back, by rw [hsource, hfront], rfl, by rw [hfront]⟩
  simp only [position?, hline, hstart, hslice, Option.bind_eq_bind, Option.bind_some, hlength,
    Position.behind, Nat.add_comm]
  rfl

/-- An offset without whole characters before it has no position. -/
theorem isBoundary_of_position? {offset : Nat} {p : Position}
    (h : index.position? offset = some p) : IsBoundary index.source offset := by
  simp only [position?, Option.bind_eq_bind, Option.bind_eq_some_iff] at h
  obtain ⟨line, -, start, -, piece, hslice, -⟩ := h
  obtain ⟨front, back, hsource, -, hoffset⟩ := slice?_eq_some_iff.mp hslice
  exact ⟨front ++ piece, ⟨back, hsource.symm⟩, hoffset⟩

end LineIndex

/-- The position of the offset behind `front` is the one that counting through `front` gives. -/
theorem position_ofSource (front back : List Char) :
    (LineIndex.ofSource (front ++ back)).position (byteLength front) = Position.behind front := by
  rw [LineIndex.position, LineIndex.position?_behind rfl]
  rfl

/-! ## Looking up and counting -/

/-- Lines and columns do not outnumber the characters. -/
theorem Position.behind_le (front : List Char) :
    (behind front).line ≤ front.length + 1 ∧ (behind front).column ≤ front.length + 1 := by
  have hcount : front.count '\n' ≤ front.length := List.count_le_length
  have htake := (List.takeWhile_prefix (· ≠ '\n') (l := front.reverse)).length_le
  rw [List.length_reverse] at htake
  simp only [behind]
  omega

/-- Boundaries in order cut a text in order. -/
theorem exists_more {longer : List Char} (hfront : front <+: cs) (hlonger : longer <+: cs)
    (hlt : byteLength front < byteLength longer) : ∃ more, more ≠ [] ∧ longer = front ++ more := by
  rcases List.prefix_or_prefix_of_prefix hfront hlonger with ⟨more, rfl⟩ | ⟨more, rfl⟩
  · refine ⟨more, ?_, rfl⟩
    rintro rfl
    simp at hlt
  · rw [byteLength_append] at hlt
    omega

theorem isBoundary_iff : IsBoundary cs n ↔ (takeBytes? n cs).isSome = true := by
  rw [Option.isSome_iff_exists]
  constructor
  · rintro ⟨front, ⟨back, rfl⟩, hn⟩
    exact ⟨front, takeBytes?_eq_some_iff.mpr ⟨back, rfl, hn⟩⟩
  · rintro ⟨front, hfront⟩
    obtain ⟨back, rfl, hn⟩ := takeBytes?_eq_some_iff.mp hfront
    exact ⟨front, ⟨back, rfl⟩, hn⟩

instance (cs : List Char) (n : Nat) : Decidable (IsBoundary cs n) :=
  decidable_of_iff _ isBoundary_iff.symm

namespace LineIndex

/-- Looking an offset up agrees with counting. In a source of fewer than `2 ^ 32 - 1` characters,
the line of an offset where characters end is one more than the line feeds before it, its column is
one more than the characters behind the last of them, and both fit in 32 bits. The text between the
start of the line and the offset can be cut out at these offsets and at no other. And positions
grow with the offset. -/
theorem position_agrees_with_counting (source : List Char)
    (hlength : source.length < UInt32.size - 1) :
    (∀ front offset, front <+: source → byteLength front = offset →
      (ofSource source).position? offset = some ((ofSource source).position offset) ∧
        ((ofSource source).position offset).line = 1 + front.count '\n' ∧
        ((ofSource source).position offset).column =
          1 + (front.reverse.takeWhile (· ≠ '\n')).length ∧
        ((ofSource source).position offset).line < UInt32.size ∧
        ((ofSource source).position offset).column < UInt32.size) ∧
      (∀ offset, ((ofSource source).position? offset).isSome = true ↔ IsBoundary source offset) ∧
      ∀ i j, IsBoundary source i → IsBoundary source j → i < j →
        ((ofSource source).position i).Before ((ofSource source).position j) := by
  refine ⟨?_, fun offset => ⟨?_, ?_⟩, ?_⟩
  · rintro front _ ⟨back, rfl⟩ rfl
    have hbehind : (ofSource (front ++ back)).position? (byteLength front) = some (.behind front) :=
      position?_behind rfl
    have hle := Position.behind_le front
    rw [List.length_append] at hlength
    rw [position_ofSource]
    exact ⟨hbehind, rfl, rfl, by omega, by omega⟩
  · intro h
    obtain ⟨p, hp⟩ := Option.isSome_iff_exists.mp h
    exact isBoundary_of_position? hp
  · rintro ⟨front, ⟨back, rfl⟩, rfl⟩
    rw [position?_behind rfl, Option.isSome_some]
  · rintro _ _ ⟨front, hfront, rfl⟩ ⟨longer, hlonger, rfl⟩ hlt
    obtain ⟨more, hne, rfl⟩ := exists_more hfront hlonger hlt
    obtain ⟨back, rfl⟩ := hlonger
    rw [position_ofSource, List.append_assoc, position_ofSource]
    exact Position.before_behind_append front hne

/-- A line that ends in a character of two bytes, and a line of one byte. -/
def accentedLines : List Char := ['é', '\n', 'x']

theorem position_agrees_with_counting_accentedLines :
    accentedLines.length < UInt32.size - 1 ∧
      (((ofSource accentedLines).position 2).line = 1 ∧
        ((ofSource accentedLines).position 2).column = 2) ∧
      (((ofSource accentedLines).position 4).line = 2 ∧
        ((ofSource accentedLines).position 4).column = 2) ∧
      ¬((ofSource accentedLines).position? 1).isSome = true ∧
      ((ofSource accentedLines).position 2).Before ((ofSource accentedLines).position 3) := by
  have hlength : accentedLines.length < UInt32.size - 1 := by decide
  obtain ⟨hcount, hdefined, hgrows⟩ := position_agrees_with_counting accentedLines hlength
  have hfirst := hcount ['é'] 2 ⟨['\n', 'x'], rfl⟩ rfl
  have hend := hcount accentedLines 4 ⟨[], rfl⟩ rfl
  have hinside : ¬IsBoundary accentedLines 1 := by decide
  exact ⟨hlength, ⟨hfirst.2.1, hfirst.2.2.1⟩, ⟨hend.2.1, hend.2.2.1⟩,
    fun h => hinside ((hdefined 1).mp h), hgrows 2 3 (by decide) (by decide) (by decide)⟩

end LineIndex

end ApiDoc.Text
