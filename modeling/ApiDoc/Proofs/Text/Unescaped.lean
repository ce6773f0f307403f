import ApiDoc.Proofs.Text.Glyph
import ApiDoc.Proofs.Text.LineIndex
import Mathlib.Order.Monotone.Defs

/-!
# Offsets lead back to the source

The loop that decodes a source copies late: between two escapes it only counts bytes. Its state is
described by three parts of the source, the one that has been decoded, the one that waits to be
copied, and the one that is still to be read (`decodeFrom?_eq`). What it gives are the characters of
the glyphs of the source, and one shift behind each glyph that is an escape (`decode?_eq`).

The shifts increase, so looking up the last one before an offset is looking for it from the front
(`shiftBefore?_eq`), and adding what the offset is ahead of it comes to a walk along the glyphs
(`sourceOffset_eq`). From the walk it follows that offsets lead back to the source exactly:
`sourceOffset_leads_back`.
-/

namespace ApiDoc.Text

variable {cs : List Char} {gs : List Glyph} {g : Glyph} {decoded offset original : Nat}

/-! ## The loop -/

theorem mentionsEscape_iff : mentionsEscape cs = true ↔ ['\\', 'u'] <:+: cs := by
  induction cs with
  | nil => simp [mentionsEscape]
  | cons c cs ih =>
    rw [mentionsEscape, List.infix_cons_iff, Bool.or_eq_true, ih]
    refine or_congr_left ?_
    rw [List.cons_prefix_cons, Bool.and_eq_true, decide_eq_true_eq, decide_eq_true_eq]
    cases cs with
    | nil => simp
    | cons d cs => simp [@eq_comm Char _ '\\', @eq_comm Char _ 'u']

/-- The shifts behind the escapes among `glyphs`, whose characters start at byte `decoded` of the
text, and whose spellings start at byte `original` of the source. -/
def shiftsFrom (decoded original : Nat) : List Glyph → List Shift
  | [] => []
  | g :: gs =>
    let shift : Shift := ⟨decoded + g.char.utf8Size, original + byteLength g.spelling⟩
    if g.isEscape then shift :: shiftsFrom shift.decoded shift.original gs
    else shiftsFrom shift.decoded shift.original gs

namespace Unescaped

/-- What `u` becomes if `pending` is copied and the glyphs behind it, which start at byte `original`
of the source, are decoded. -/
def extend (u : Unescaped) (pending : List Char) (original : Nat) (gs : List Glyph) :
    Unescaped where
  text := u.text ++ pending ++ gs.map Glyph.char
  shifts := u.shifts ++ (shiftsFrom (byteLength (u.text ++ pending)) original gs).toArray

theorem extend_nil (u : Unescaped) (pending : List Char) (original : Nat) :
    u.extend pending original [] = { u with text := u.text ++ pending } := by
  simp [extend, shiftsFrom]

/-- A character that stands for itself waits to be copied. -/
theorem extend_plain (u : Unescaped) (pending : List Char) (original : Nat) (c : Char)
    (gs : List Glyph) :
    u.extend pending original (.plain c :: gs) =
      u.extend (pending ++ [c]) (original + c.utf8Size) gs := by
  simp [extend, shiftsFrom, Glyph.isEscape, Glyph.plain, Nat.add_assoc]

/-- At an escape, what waits is copied, and a shift is noted behind the character. -/
theorem extend_escape (u : Unescaped) (pending : List Char) (original : Nat) (h : g.isEscape = true)
    (gs : List Glyph) :
    u.extend pending original (g :: gs) =
      ({ u with text := u.text ++ pending }.put g.char (original + byteLength g.spelling)).extend []
        (original + byteLength g.spelling) gs := by
  simp [extend, put, shiftsFrom, h, Nat.add_assoc]

theorem append_pending {done pending : List Char} {c : Char} :
    done ++ pending ++ c :: cs = done ++ (pending ++ [c]) ++ cs := by
  simp

theorem byteLength_pending (done pending : List Char) (c : Char) :
    byteLength (done ++ pending) + c.utf8Size = byteLength (done ++ (pending ++ [c])) := by
  simp [Nat.add_assoc]

theorem utf8Size_backslash : '\\'.utf8Size = 1 := rfl

theorem copy?_eq {source done pending : List Char} (h : source = done ++ pending ++ cs)
    (u : Unescaped) :
    u.copy? source (byteLength done) (byteLength (done ++ pending)) =
      some { u with text := u.text ++ pending } := by
  have hslice : slice? source (byteLength done) (byteLength (done ++ pending)) = some pending :=
    slice?_eq_some_iff.mpr ⟨done, cs, h, rfl, rfl⟩
  rw [copy?, hslice, Option.map_some]

/-- The loop never cuts through a character. With `done` decoded and `pending` waiting to be copied,
it decodes the glyphs of what is left. -/
theorem decodeFrom?_eq {source done pending cs : List Char} (h : source = done ++ pending ++ cs)
    (u : Unescaped) {backslashes : Nat} {odd : Bool} (hodd : odd = true ↔ backslashes % 2 = 1) :
    decodeFrom? source u (byteLength done) backslashes (byteLength (done ++ pending)) cs =
      some (u.extend pending (byteLength (done ++ pending)) (glyphsFrom odd cs)) := by
  fun_induction glyphsFrom odd cs generalizing u done pending backslashes with
  | case1 => rw [decodeFrom?, copy?_eq h, extend_nil]
  | case2 odd c cs hc ih =>
    rw [decodeFrom?, if_pos hc, extend_plain, byteLength_pending]
    have hnone : false = true ↔ 0 % 2 = 1 := by simp
    exact ih (h.trans append_pending) u hnone
  | case3 c cs hc ih =>
    obtain rfl : c = '\\' := Decidable.not_not.mp hc
    have hmod : backslashes % 2 = 1 := hodd.mp rfl
    rw [decodeFrom?, if_neg hc, if_pos hmod, extend_plain, ← utf8Size_backslash, byteLength_pending]
    refine ih (h.trans append_pending) u ?_
    rw [utf8Size_backslash]
    simp only [Bool.false_eq_true, false_iff]
    omega
  | case4 odd c cs hc hodd' hescape ih =>
    obtain rfl : c = '\\' := Decidable.not_not.mp hc
    have hmod : ¬backslashes % 2 = 1 := fun hmod => hodd' (hodd.mpr hmod)
    rw [decodeFrom?, if_neg hc, if_neg hmod, hescape, extend_plain, ← utf8Size_backslash,
      byteLength_pending]
    refine ih (h.trans append_pending) u ?_
    rw [utf8Size_backslash]
    simp only [true_iff]
    omega
  | case5 odd c cs hc hodd' char length hescape ih =>
    have hmod : ¬backslashes % 2 = 1 := fun hmod => hodd' (hodd.mpr hmod)
    obtain ⟨hspelled, hbytes, hcut⟩ := cut_of_escape? hescape
    -- the escape is decoded with what waited before it, and nothing waits behind it
    have hrest : source = (done ++ pending ++ (c :: cs).take length) ++ [] ++
        cs.drop (length - 1) := by
      rw [List.append_nil, List.append_assoc (done ++ pending), hcut]
      exact h
    have hend : byteLength (done ++ pending) + length =
        byteLength (done ++ pending ++ (c :: cs).take length) := by
      rw [byteLength_append (done ++ pending), hbytes]
    rw [decodeFrom?, if_neg hc, if_neg hmod, hescape]
    dsimp only
    rw [copy?_eq h, Option.bind_some, extend_escape _ _ _ (Glyph.isEscape_of_escapes hspelled),
      hbytes, hend]
    have hnone : false = true ↔ 0 % 2 = 1 := by simp
    have hanew := ih hrest ({ u with text := u.text ++ pending }.put char
      (byteLength (done ++ pending ++ (c :: cs).take length))) hnone
    rwa [List.append_nil] at hanew

theorem decodeFrom?_source (source : List Char) :
    decodeFrom? source ⟨[], #[]⟩ 0 0 0 source =
      some ⟨(glyphs source).map Glyph.char, (shiftsFrom 0 0 (glyphs source)).toArray⟩ := by
  have hnone : false = true ↔ 0 % 2 = 1 := by simp
  have hloop := @decodeFrom?_eq source [] [] source rfl ⟨[], #[]⟩ 0 false hnone
  simpa [extend, glyphs] using hloop

/-- A source without escapes has no shifts. -/
theorem shiftsFrom_plain (decoded original : Nat) (cs : List Char) :
    shiftsFrom decoded original (cs.map Glyph.plain) = [] := by
  induction cs generalizing decoded original with
  | nil => rfl
  | cons c cs ih =>
    have hplain : ¬Glyph.isEscape (.plain c) = true := by simp [Glyph.isEscape, Glyph.plain]
    rw [List.map_cons, shiftsFrom, if_neg hplain, ih]

/-- Decoding gives the characters of the glyphs, and a shift behind each of them that is an escape.
The short cut for a source without a `u` behind a backslash makes no difference. -/
theorem decode?_eq (source : List Char) :
    decode? source =
      some ⟨(glyphs source).map Glyph.char, (shiftsFrom 0 0 (glyphs source)).toArray⟩ := by
  unfold decode?
  split
  · exact decodeFrom?_source source
  · next hmention =>
    have hplain : ¬['\\', 'u'] <:+: source := fun h => hmention (mentionsEscape_iff.mpr h)
    rw [glyphs, glyphsFrom_self false hplain, map_char_plain, shiftsFrom_plain]

theorem ofSource_eq (source : List Char) :
    ofSource source =
      ⟨(glyphs source).map Glyph.char, (shiftsFrom 0 0 (glyphs source)).toArray⟩ := by
  rw [ofSource, decode?_eq, Option.getD_some]

theorem text_ofSource (source : List Char) :
    (ofSource source).text = (glyphs source).map Glyph.char := by
  rw [ofSource_eq]

theorem shifts_ofSource (source : List Char) :
    (ofSource source).shifts = (shiftsFrom 0 0 (glyphs source)).toArray := by
  rw [ofSource_eq]

/-! ## Looking up shifts -/

/-- A shift lies behind the first character or further on. -/
theorem mem_shiftsFrom_cons {s : Shift} (h : s ∈ shiftsFrom decoded original (g :: gs)) :
    s.decoded = decoded + g.char.utf8Size ∨
      s ∈ shiftsFrom (decoded + g.char.utf8Size) (original + byteLength g.spelling) gs := by
  unfold shiftsFrom at h
  dsimp only at h
  split at h
  · rcases List.mem_cons.mp h with rfl | h
    · exact .inl rfl
    · exact .inr h
  · exact .inr h

/-- Shifts lie behind where they are counted from. -/
theorem lt_of_mem_shiftsFrom {s : Shift} (h : s ∈ shiftsFrom decoded original gs) :
    decoded < s.decoded := by
  induction gs generalizing decoded original with
  | nil => cases h
  | cons g gs ih =>
    have hsize : 0 < g.char.utf8Size := g.char.utf8Size_pos
    rcases mem_shiftsFrom_cons h with heq | h
    · omega
    · exact Nat.lt_trans (Nat.lt_add_of_pos_right hsize) (ih h)

theorem pairwise_shiftsFrom (decoded original : Nat) (gs : List Glyph) :
    (shiftsFrom decoded original gs).Pairwise fun s t => s.decoded < t.decoded := by
  induction gs generalizing decoded original with
  | nil => exact .nil
  | cons g gs ih =>
    unfold shiftsFrom
    dsimp only
    split
    · exact .cons (fun s hs => lt_of_mem_shiftsFrom hs) (ih _ _)
    · exact ih _ _

/-- In a table of shifts that increase, halving finds the shift that looking through them from the
front does. -/
theorem shiftBefore?_eq {u : Unescaped}
    (h : u.shifts.toList.Pairwise fun s t => s.decoded < t.decoded) (offset : Nat) :
    u.shiftBefore? offset = (u.shifts.toList.takeWhile (·.decoded ≤ offset)).getLast? := by
  have hpoint := @BinarySearch.partitionPoint_eq Shift u.shifts (·.decoded ≤ offset) (by
    refine h.imp fun {s t} hst => ?_
    simp only [decide_eq_true_eq]
    omega)
  obtain ⟨back, hback⟩ := List.takeWhile_prefix (l := u.shifts.toList) (·.decoded ≤ offset)
  rw [shiftBefore?, hpoint, List.getLast?_eq_getElem?]
  generalize u.shifts.toList.takeWhile (·.decoded ≤ offset) = front at hback ⊢
  cases hlength : front.length with
  | zero => simp [List.length_eq_zero_iff.mp hlength]
  | succ i =>
    dsimp only
    rw [← Array.getElem?_toList, ← hback, List.getElem?_append_left (by omega), Nat.add_sub_cancel]

/-- No shift counts at a byte of the first character. -/
theorem takeWhile_shiftsFrom_of_lt (h : offset < decoded + g.char.utf8Size) :
    (shiftsFrom decoded original (g :: gs)).takeWhile (·.decoded ≤ offset) = [] := by
  cases hshifts : shiftsFrom decoded original (g :: gs) with
  | nil => rfl
  | cons s rest =>
    have hlate : offset < s.decoded := by
      rcases mem_shiftsFrom_cons (hshifts ▸ List.mem_cons_self) with heq | hs
      · exact heq ▸ h
      · exact Nat.lt_trans h (lt_of_mem_shiftsFrom hs)
    exact List.takeWhile_cons_of_neg (by simpa using hlate)

/-- The last shift before an offset leads to the byte that a walk along the glyphs leads to. Where
there is none, the place that the shifts are counted from takes its part. -/
theorem apply_getLast?_eq {decoded original offset : Nat} (gs : List Glyph)
    (h : decoded ≤ offset) :
    Shift.apply (((shiftsFrom decoded original gs).takeWhile (·.decoded ≤ offset)).getLast?.getD
        ⟨decoded, original⟩) offset =
      original + sourceOffsetIn gs (offset - decoded) := by
  induction gs generalizing decoded original with
  | nil => rfl
  | cons g gs ih =>
    rw [sourceOffsetIn]
    by_cases hlt : offset - decoded < g.char.utf8Size
    · rw [if_pos hlt, takeWhile_shiftsFrom_of_lt (by omega)]
      rfl
    have hle : decoded + g.char.utf8Size ≤ offset := by omega
    have hrest := @ih _ (original + byteLength g.spelling) hle
    rw [if_neg hlt, ← Nat.add_assoc, Nat.sub_sub, ← hrest, shiftsFrom]
    dsimp only
    split
    · rw [List.takeWhile_cons_of_pos (by simpa using hle), List.getLast?_cons]
      rfl
    · next hplain =>
      -- a plain character moves both offsets by its size
      have hsize : byteLength g.spelling = g.char.utf8Size := by
        rw [Glyph.spelling_of_not_isEscape (by simpa using hplain)]
        simp
      rw [hsize]
      cases ((shiftsFrom (decoded + g.char.utf8Size) (original + g.char.utf8Size) gs).takeWhile
          (·.decoded ≤ offset)).getLast? with
      | some s => rfl
      | none =>
        simp only [Option.getD_none, Shift.apply]
        omega

/-- Looking an offset up in the table of shifts comes to walking along the glyphs. -/
theorem sourceOffset_eq (source : List Char) (offset : Nat) :
    (ofSource source).sourceOffset offset = sourceOffsetIn (glyphs source) offset := by
  have hsorted : (ofSource source).shifts.toList.Pairwise fun s t => s.decoded < t.decoded := by
    rw [shifts_ofSource]
    exact pairwise_shiftsFrom 0 0 (glyphs source)
  have hwalk := @apply_getLast?_eq 0 0 offset (glyphs source) (Nat.zero_le offset)
  rw [Nat.zero_add, Nat.sub_zero] at hwalk
  rw [sourceOffset, shiftBefore?_eq hsorted, shifts_ofSource, List.toList_toArray, ← hwalk]
  cases ((shiftsFrom 0 0 (glyphs source)).takeWhile (·.decoded ≤ offset)).getLast? with
  | some s => rfl
  | none => simp [Shift.apply]

/-! ## Going back -/

variable (source : List Char)

theorem spelling_glyphs : spelling (glyphs source) = source := spelling_glyphsFrom false source

/-- Where some glyphs end in the text, their spellings end in the source. -/
theorem sourceOffset_boundary {source : List Char} {hs : List Glyph}
    (h : glyphs source = gs ++ hs) :
    (ofSource source).sourceOffset (byteLength (gs.map Glyph.char)) = byteLength (spelling gs) := by
  rw [sourceOffset_eq, h, sourceOffsetIn_boundary]

/-- Where a part of the text ends, some glyphs end. -/
theorem exists_glyphs {source front back : List Char}
    (h : (ofSource source).text = front ++ back) :
    ∃ gs hs, glyphs source = gs ++ hs ∧ gs.map Glyph.char = front ∧ hs.map Glyph.char = back := by
  rw [text_ofSource] at h
  exact List.map_eq_append_iff.mp h

/-- Where characters of the text end, characters of the source end. -/
theorem isBoundary_sourceOffset {source : List Char} {n : Nat}
    (h : IsBoundary (ofSource source).text n) :
    IsBoundary source ((ofSource source).sourceOffset n) := by
  obtain ⟨front, ⟨back, htext⟩, rfl⟩ := h
  obtain ⟨gs, hs, hglyphs, rfl, -⟩ := exists_glyphs htext.symm
  refine ⟨spelling gs, ⟨spelling hs, ?_⟩, (sourceOffset_boundary hglyphs).symm⟩
  rw [← spelling_append, ← hglyphs, spelling_glyphs]

theorem sourceOffset_lt {source : List Char} {i j : Nat} (h : i < j) :
    (ofSource source).sourceOffset i < (ofSource source).sourceOffset j := by
  rw [sourceOffset_eq, sourceOffset_eq]
  exact sourceOffsetIn_lt (fun g hg => isSpelled_of_mem_glyphsFrom hg) h

/-- **Offsets of the text lead back to the source**: strictly increasing, from start to start and
from end to end, and from characters to characters; and the bytes of a character come from the
character itself or from an escape of it. Decoding never cuts through a character of the source, and
neither does looking up the position of the byte that a character comes from. -/
theorem sourceOffset_leads_back :
    StrictMonoOn (ofSource source).sourceOffset (Set.Iic (byteLength (ofSource source).text)) ∧
    (ofSource source).sourceOffset 0 = 0 ∧
    (ofSource source).sourceOffset (byteLength (ofSource source).text) = byteLength source ∧
    (∀ n, IsBoundary (ofSource source).text n →
      IsBoundary source ((ofSource source).sourceOffset n)) ∧
    (∀ c i j, IsSlice (ofSource source).text i j [c] →
      ∃ piece, IsSlice source ((ofSource source).sourceOffset i)
          ((ofSource source).sourceOffset j) piece ∧
        (piece = [c] ∨ Escapes c piece)) ∧
    decode? source = some (ofSource source) ∧
    ∀ n, IsBoundary (ofSource source).text n →
      ((LineIndex.ofSource source).position? ((ofSource source).sourceOffset n)).isSome = true := by
  refine ⟨?_, ?_, ?_, ?_, ?_, ?_, ?_⟩
  · intro i _ j _ hij
    exact sourceOffset_lt hij
  · rw [sourceOffset_eq, sourceOffsetIn_zero]
  · have hend : glyphs source = glyphs source ++ [] := (List.append_nil _).symm
    rw [text_ofSource, sourceOffset_boundary hend, spelling_glyphs]
  · intro n hn
    exact isBoundary_sourceOffset hn
  · rintro c i j ⟨front, back, htext, rfl, rfl⟩
    -- The character is that of a glyph, whose spelling is the piece of the source.
    obtain ⟨gs', hs, hglyphs, hgs', -⟩ := exists_glyphs htext
    obtain ⟨gs, ks, rfl, rfl, hks⟩ := List.map_eq_append_iff.mp hgs'
    obtain ⟨g, rfl, rfl⟩ := List.map_eq_singleton_iff.mp hks
    have hmem : g ∈ glyphs source := by simp [hglyphs]
    have hg : g.IsSpelled := isSpelled_of_mem_glyphsFrom hmem
    refine ⟨g.spelling, ⟨spelling gs, spelling hs, ?_, ?_, ?_⟩, hg⟩
    · have hsource := spelling_glyphs source
      rw [hglyphs] at hsource
      simpa using hsource.symm
    · rw [List.append_assoc] at hglyphs
      exact (sourceOffset_boundary hglyphs).symm
    · rw [← hgs', sourceOffset_boundary hglyphs]
      simp
  · rw [decode?_eq, ofSource_eq]
  · intro n hn
    obtain ⟨front, ⟨back, hsource⟩, hoffset⟩ := isBoundary_sourceOffset hn
    rw [← hoffset, LineIndex.position?_behind hsource.symm, Option.isSome_some]

/-- The character é, spelled by an escape between two plain ones. -/
def escapedAccent : List Char := ['a', '\\', 'u', 'u', '0', '0', 'e', '9', 'b']

theorem sourceOffset_leads_back_escapedAccent :
    IsSlice (ofSource escapedAccent).text 1 3 ['é'] ∧
      ∃ piece, IsSlice escapedAccent ((ofSource escapedAccent).sourceOffset 1)
          ((ofSource escapedAccent).sourceOffset 3) piece ∧
        (piece = ['é'] ∨ Escapes 'é' piece) := by
  have hslice : IsSlice (ofSource escapedAccent).text 1 3 ['é'] :=
    ⟨['a'], ['b'], by decide +kernel, rfl, rfl⟩
  exact ⟨hslice, (sourceOffset_leads_back escapedAccent).2.2.2.2.1 'é' 1 3 hslice⟩

/-! ## A source without escapes -/

/-- A source without a `u` behind a backslash is its own text. -/
theorem ofSource_self {source : List Char} (h : ¬['\\', 'u'] <:+: source) :
    ofSource source = ⟨source, #[]⟩ := by
  rw [ofSource_eq, glyphs, glyphsFrom_self false h, map_char_plain, shiftsFrom_plain]

theorem text_ofSource_self {source : List Char} (h : ¬['\\', 'u'] <:+: source) :
    (ofSource source).text = source := by
  rw [ofSource_self h]

theorem sourceOffset_self {source : List Char} (h : ¬['\\', 'u'] <:+: source) (offset : Nat) :
    (ofSource source).sourceOffset offset = offset := by
  rw [ofSource_self h, sourceOffset, shiftBefore?_eq .nil]
  rfl

end Unescaped

/-! ## Positions -/

/-- The position of a byte of the text in the source as it is written. -/
def placeIn (source : List Char) (offset : Nat) : Position :=
  (LineIndex.ofSource source).position ((Unescaped.ofSource source).sourceOffset offset)

/-- A byte of the text where characters end stands behind some part of the source. -/
theorem exists_placeIn {source : List Char} {n : Nat}
    (h : IsBoundary (Unescaped.ofSource source).text n) :
    ∃ before, before <+: source ∧
      byteLength before = (Unescaped.ofSource source).sourceOffset n ∧
      placeIn source n = .behind before := by
  obtain ⟨before, ⟨back, rfl⟩, hoffset⟩ := Unescaped.isBoundary_sourceOffset h
  refine ⟨before, ⟨back, rfl⟩, hoffset, ?_⟩
  rw [placeIn, ← hoffset, position_ofSource]

/-- Positions grow along the text. -/
theorem placeIn_before {source : List Char} {i j : Nat}
    (hi : IsBoundary (Unescaped.ofSource source).text i)
    (hj : IsBoundary (Unescaped.ofSource source).text j) (h : i < j) :
    (placeIn source i).Before (placeIn source j) := by
  obtain ⟨front, hfront, hi, hplace⟩ := exists_placeIn hi
  obtain ⟨longer, hlonger, hj, hplace'⟩ := exists_placeIn hj
  have hlt := @Unescaped.sourceOffset_lt source i j h
  rw [← hi, ← hj] at hlt
  obtain ⟨more, hne, rfl⟩ := exists_more hfront hlonger hlt
  rw [hplace, hplace']
  exact Position.before_behind_append front hne

/-- Along `cs`, which starts at byte `offset` and at position `pos`, `place` keeps count. -/
def KeepsCount (place : Nat → Position) (offset : Nat) (pos : Position) (cs : List Char) : Prop :=
  ∀ front, front <+: cs → place (offset + byteLength front) = pos.past front

theorem KeepsCount.pos {place : Nat → Position} {pos : Position}
    (h : KeepsCount place offset pos cs) : place offset = pos :=
  h [] (List.nil_prefix)

/-- Behind a part of the text, it keeps count of the rest. -/
theorem KeepsCount.behind {place : Nat → Position} {pos : Position} {front back : List Char}
    (h : KeepsCount place offset pos (front ++ back)) :
    KeepsCount place (offset + byteLength front) (pos.past front) back := by
  intro more hmore
  rw [Nat.add_assoc, ← byteLength_append, ← Position.past_append]
  exact h _ ((List.prefix_append_right_inj front).mpr hmore)

/-- Without escapes, the positions of the text are counted along the source. -/
theorem keepsCount_placeIn {source : List Char} (h : ¬['\\', 'u'] <:+: source) :
    KeepsCount (placeIn source) 0 .start source := by
  rintro front ⟨back, rfl⟩
  rw [Nat.zero_add, placeIn, Unescaped.sourceOffset_self h, position_ofSource, Position.past_start]

end ApiDoc.Text
