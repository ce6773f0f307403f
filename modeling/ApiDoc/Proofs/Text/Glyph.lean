import ApiDoc.Proofs.Text.Position
import ApiDoc.Text.Unescaped
import Mathlib.Data.List.Forall2
import Mathlib.Data.Nat.Digits.Defs
import Mathlib.Tactic.Ring

/-!
# Characters and how a source spells them

A source falls into glyphs: characters, each with the way it is spelled. A glyph is spelled by its
character or by an escape of it (`isSpelled_of_mem_glyphsFrom`), and the spellings in a row are the
source (`spelling_glyphsFrom`).

Glyphs are read with two characters of state at most, and nothing is copied or counted on the way;
so it is plain what they say, and the decoding loop is compared with them. Going back from a byte of
the text to a byte of the source is a walk along the glyphs (`sourceOffsetIn`). It is strictly
increasing because a spelling has at least as many bytes as its character.
-/

namespace ApiDoc.Text

variable {cs : List Char} {c : Char} {length unit : Nat} {g : Glyph}

/-! ## Well-formed escapes -/

/-- `c` is the hexadecimal digit of `value`, in either case. -/
def IsHexDigit (c : Char) (value : Nat) : Prop := value < 16 ∧ c.toLower = value.digitChar

/-- `cs` is a backslash, one or more `u`, and four hexadecimal digits that spell `unit`. -/
def EscapesUnit (unit : Nat) (cs : List Char) : Prop :=
  ∃ (us digits : List Char) (values : List Nat), cs = '\\' :: us ++ digits ∧
    us ≠ [] ∧ (∀ u ∈ us, u = 'u') ∧ digits.length = 4 ∧
    List.Forall₂ IsHexDigit digits values ∧ unit = Nat.ofDigits 16 values.reverse

/-- `cs` is an escape of `c`: one of its code unit, or one for each half of its surrogate pair. -/
inductive Escapes (c : Char) : List Char → Prop
  | single {cs : List Char} (h : EscapesUnit c.toNat cs) : Escapes c cs
  | pair {high low : Nat} {cs ds : List Char} (hcs : EscapesUnit high cs)
      (hds : EscapesUnit low ds) (hhigh : 0xD800 ≤ high ∧ high ≤ 0xDBFF)
      (hlow : 0xDC00 ≤ low ∧ low ≤ 0xDFFF)
      (hc : c.toNat = 0x10000 + (high - 0xD800) * 0x400 + (low - 0xDC00)) : Escapes c (cs ++ ds)

theorem EscapesUnit.length_le (h : EscapesUnit unit cs) : 6 ≤ cs.length := by
  obtain ⟨us, digits, values, rfl, hus, -, hdigits, -⟩ := h
  have hpos : 0 < us.length := List.length_pos_iff.mpr hus
  simp only [List.cons_append, List.length_cons, List.length_append]
  omega

theorem Escapes.length_le (h : Escapes c cs) : 6 ≤ cs.length := by
  cases h with
  | single h => exact h.length_le
  | pair hcs hds =>
    have hfirst := hcs.length_le
    rw [List.length_append]
    omega

theorem EscapesUnit.exists_eq (h : EscapesUnit unit cs) : ∃ rest, cs = '\\' :: 'u' :: rest := by
  obtain ⟨us, digits, values, rfl, hne, hus, -⟩ := h
  obtain ⟨u, us, rfl⟩ := List.exists_cons_of_ne_nil hne
  obtain rfl : u = 'u' := hus u List.mem_cons_self
  exact ⟨us ++ digits, rfl⟩

theorem Escapes.exists_eq (h : Escapes c cs) : ∃ rest, cs = '\\' :: 'u' :: rest := by
  cases h with
  | single h => exact h.exists_eq
  | pair hcs hds =>
    obtain ⟨rest, rfl⟩ := hcs.exists_eq
    exact ⟨_, rfl⟩

theorem IsHexDigit.toNat_lt {value : Nat} (h : IsHexDigit c value) : c.toNat < 128 := by
  obtain ⟨hvalue, hlower⟩ := h
  by_cases hupper : c.val ≥ 'A'.val ∧ c.val ≤ 'Z'.val
  · have hle : c.toNat ≤ 'Z'.toNat := hupper.2
    exact Nat.lt_of_le_of_lt hle (by decide)
  · have hsame : c.toLower = c := dif_neg hupper
    have hall : ∀ v < 16, v.digitChar.toNat < 128 := by decide
    rw [← hsame, hlower]
    exact hall value hvalue

theorem utf8Size_of_toNat_lt (h : c.toNat < 128) : c.utf8Size = 1 :=
  Char.utf8Size_eq_one_iff.mpr (UInt32.le_iff_toNat_le.mpr (Nat.le_of_lt_succ h))

theorem byteLength_eq_length (h : ∀ c ∈ cs, c.toNat < 128) : byteLength cs = cs.length := by
  induction cs with
  | nil => rfl
  | cons c cs ih =>
    obtain ⟨hc, hcs⟩ := List.forall_mem_cons.mp h
    rw [byteLength_cons, utf8Size_of_toNat_lt hc, ih hcs, List.length_cons, Nat.add_comm]

theorem EscapesUnit.byteLength_eq (h : EscapesUnit unit cs) : byteLength cs = cs.length := by
  obtain ⟨us, digits, values, rfl, -, hus, -, hdigits, -⟩ := h
  apply byteLength_eq_length
  intro c hc
  rcases List.mem_append.mp hc with hc | hc
  · rcases List.mem_cons.mp hc with rfl | hc
    · decide
    · rw [hus c hc]
      decide
  · have hboth := hdigits.imp fun d value (h : IsHexDigit d value) => And.intro h.toNat_lt h
    exact ((List.forall₂_and_left _ _).mp hboth).1 c hc

/-- The characters of an escape have one byte each. -/
theorem Escapes.byteLength_eq (h : Escapes c cs) : byteLength cs = cs.length := by
  cases h with
  | single h => exact h.byteLength_eq
  | pair hcs hds => rw [byteLength_append, hcs.byteLength_eq, hds.byteLength_eq, List.length_append]

/-! ## Reading one escape -/

theorem isHexDigit_of_hexValue? {value : Nat} (h : hexValue? c = some value) :
    IsHexDigit c value := by
  have hascii : c.toNat < 128 := by
    have hle : c ≤ 'f' := by
      unfold hexValue? at h
      split at h
      · next hc => exact Char.le_trans hc.2 (by decide)
      split at h
      · next hc => exact hc.2
      split at h
      · next hc => exact Char.le_trans hc.2 (by decide)
      · cases h
    have hnat : c.toNat ≤ 'f'.toNat := hle
    exact Nat.lt_of_le_of_lt hnat (by decide)
  have hall : ∀ n < 128, ∀ v ∈ hexValue? (Char.ofNat n),
      v < 16 ∧ (Char.ofNat n).toLower = v.digitChar := by
    decide +kernel
  have hc := hall c.toNat hascii value
  rw [Char.ofNat_toNat] at hc
  exact hc h

/-- The number that digits spell, if they all are hexadecimal, starting from `n`. -/
theorem foldlM_hexValue? {digits : List Char} {n : Nat}
    (h : digits.foldlM (fun n c => (hexValue? c).map (16 * n + ·)) n = some unit) :
    ∃ values, List.Forall₂ IsHexDigit digits values ∧
      unit = 16 ^ digits.length * n + Nat.ofDigits 16 values.reverse := by
  induction digits generalizing n with
  | nil =>
    cases h
    exact ⟨[], .nil, by simp⟩
  | cons d digits ih =>
    rw [List.foldlM_cons] at h
    obtain ⟨m, hm, hrest⟩ := Option.bind_eq_some_iff.mp h
    obtain ⟨value, hvalue, rfl⟩ := Option.map_eq_some_iff.mp hm
    obtain ⟨values, hvalues, rfl⟩ := ih hrest
    refine ⟨value :: values, .cons (isHexDigit_of_hexValue? hvalue) hvalues, ?_⟩
    rw [List.reverse_cons, Nat.ofDigits_append, List.length_reverse, ← hvalues.length_eq,
      Nat.ofDigits_singleton, List.length_cons]
    ring

theorem codeUnit?_ok (h : codeUnit? cs = some (unit, length)) :
    ∃ escape behind, cs = escape ++ behind ∧ escape.length = length ∧ EscapesUnit unit escape := by
  unfold codeUnit? at h
  split at h
  · next rest =>
    dsimp only at h
    split at h
    · next a b c d behind hrest =>
      obtain ⟨number, hnumber, heq⟩ := Option.map_eq_some_iff.mp h
      obtain ⟨rfl, rfl⟩ := Prod.mk.inj heq
      obtain ⟨values, hvalues, hunit⟩ := foldlM_hexValue? hnumber
      -- The further `u`s are dropped, and the four digits stand behind them.
      have hsplit : rest = rest.takeWhile (· = 'u') ++ a :: b :: c :: d :: behind := by
        rw [← hrest, List.takeWhile_append_dropWhile]
      have hus : ∀ u ∈ 'u' :: rest.takeWhile (· = 'u'), u = 'u' := by
        intro u hu
        rcases List.mem_cons.mp hu with rfl | hu
        · rfl
        · exact of_decide_eq_true (List.all_eq_true.mp List.all_takeWhile u hu)
      refine ⟨'\\' :: ('u' :: rest.takeWhile (· = 'u')) ++ [a, b, c, d], behind, ?_, ?_, ?_⟩
      · rw [List.append_assoc]
        exact congrArg ('\\' :: 'u' :: ·) hsplit
      · simp only [List.cons_append, List.length_cons, List.length_append, List.length_nil]
        omega
      · exact ⟨_, _, values, rfl, List.cons_ne_nil _ _, hus, rfl, hvalues, by simpa using hunit⟩
    · cases h
  · cases h

theorem toNat_ofNat {n : Nat} (h : n.isValidChar) : (Char.ofNat n).toNat = n := by
  rw [Char.ofNat, dif_pos h]
  rfl

/-- A surrogate pair stands for a character above U+FFFF. -/
theorem toNat_pairedChar {high low : Nat} (hhigh : 0xD800 ≤ high ∧ high ≤ 0xDBFF)
    (hlow : 0xDC00 ≤ low ∧ low ≤ 0xDFFF) :
    (pairedChar high low).toNat = 0x10000 + (high - 0xD800) * 0x400 + (low - 0xDC00) := by
  refine toNat_ofNat (.inr ⟨?_, ?_⟩)
  · omega
  · omega

theorem EscapesUnit.unit_lt (h : EscapesUnit unit cs) : unit < 0x10000 := by
  obtain ⟨us, digits, values, -, -, -, hdigits, hvalues, rfl⟩ := h
  have hlt : ∀ value ∈ values.reverse, value < 16 := by
    have hboth := hvalues.flip.imp fun value d (h : IsHexDigit d value) => And.intro h.1 h.2
    intro value hvalue
    exact ((List.forall₂_and_left _ _).mp hboth).1 value (List.mem_reverse.mp hvalue)
  have hbound := Nat.ofDigits_lt_base_pow_length (by decide) hlt
  rwa [List.length_reverse, ← hvalues.length_eq, hdigits] at hbound

theorem escape?_ok (h : escape? cs = some (c, length)) :
    ∃ escape behind, cs = escape ++ behind ∧ escape.length = length ∧ Escapes c escape := by
  unfold escape? at h
  -- a high surrogate needs a low one behind it; any other unit is a character by itself
  split at h
  · cases h
  · next unit length hunit =>
    obtain ⟨escape, behind, rfl, rfl, hescape⟩ := codeUnit?_ok hunit
    rw [List.drop_left] at h
    split at h
    · next hhigh =>
      split at h
      · next low length' hlow =>
        split at h
        · next hislow =>
          obtain ⟨rfl, rfl⟩ := Prod.mk.inj (Option.some.inj h)
          obtain ⟨escape', behind', rfl, rfl, hescape'⟩ := codeUnit?_ok hlow
          simp only [isHighSurrogate, isLowSurrogate, Bool.and_eq_true, decide_eq_true_eq]
            at hhigh hislow
          refine ⟨escape ++ escape', behind', (List.append_assoc ..).symm, List.length_append, ?_⟩
          exact .pair hescape hescape' hhigh hislow (toNat_pairedChar hhigh hislow)
        · cases h
      · cases h
    · next hhigh =>
      split at h
      · cases h
      · next hlow =>
        obtain ⟨rfl, rfl⟩ := Prod.mk.inj (Option.some.inj h)
        have hlt := hescape.unit_lt
        simp only [isHighSurrogate, isLowSurrogate, Bool.and_eq_true, decide_eq_true_eq]
          at hhigh hlow
        have hchar : (Char.ofNat unit).toNat = unit := by
          refine toNat_ofNat ?_
          unfold Nat.isValidChar
          omega
        exact ⟨escape, behind, rfl, rfl, .single (hchar.symm ▸ hescape)⟩

/-! ## Glyphs -/

/-- A character of the text together with the way the source spells it. -/
structure Glyph where
  char : Char
  spelling : List Char
deriving DecidableEq, Repr

/-- A character that stands for itself. -/
def Glyph.plain (c : Char) : Glyph := ⟨c, [c]⟩

/-- Is the character spelled by an escape? -/
def Glyph.isEscape (g : Glyph) : Bool := g.spelling != [g.char]

/-- The glyphs of `cs`; `odd` says whether an odd number of backslashes stands just before it. -/
def glyphsFrom (odd : Bool) : List Char → List Glyph
  | [] => []
  | c :: cs =>
    if c ≠ '\\' then .plain c :: glyphsFrom false cs
    else if odd then .plain c :: glyphsFrom false cs
    else
      match escape? (c :: cs) with
      | none => .plain c :: glyphsFrom true cs
      | some (char, length) =>
        ⟨char, (c :: cs).take length⟩ :: glyphsFrom false (cs.drop (length - 1))
termination_by cs => cs.length

/-- The glyphs of a source. -/
def glyphs (source : List Char) : List Glyph := glyphsFrom false source

/-- The spelling of a run of glyphs. -/
def spelling (glyphs : List Glyph) : List Char := glyphs.flatMap Glyph.spelling

theorem Glyph.spelling_of_not_isEscape (h : g.isEscape = false) : g.spelling = [g.char] := by
  simpa [isEscape] using h

theorem Glyph.isEscape_of_escapes {escape : List Char} (h : Escapes c escape) :
    isEscape ⟨c, escape⟩ = true := by
  obtain ⟨rest, rfl⟩ := h.exists_eq
  simp [isEscape]

/-- A glyph is spelled by its character or by an escape of it. -/
def Glyph.IsSpelled (g : Glyph) : Prop := g.spelling = [g.char] ∨ Escapes g.char g.spelling

theorem Glyph.IsSpelled.utf8Size_le (h : g.IsSpelled) :
    g.char.utf8Size ≤ byteLength g.spelling := by
  rcases h with hplain | hescape
  · simp [hplain]
  · have hlength := hescape.length_le
    have hbytes := length_le_byteLength g.spelling
    have hsize := g.char.utf8Size_le_four
    omega

@[simp] theorem spelling_nil : spelling [] = [] := rfl

@[simp] theorem spelling_cons (g : Glyph) (gs : List Glyph) :
    spelling (g :: gs) = g.spelling ++ spelling gs := rfl

@[simp] theorem spelling_append (gs hs : List Glyph) :
    spelling (gs ++ hs) = spelling gs ++ spelling hs :=
  List.flatMap_append

/-- An escape is cut off in front, whatever its first character. -/
theorem cut_of_escape? {char : Char} (h : escape? (c :: cs) = some (char, length)) :
    Escapes char ((c :: cs).take length) ∧ byteLength ((c :: cs).take length) = length ∧
      (c :: cs).take length ++ cs.drop (length - 1) = c :: cs := by
  obtain ⟨escape, behind, hcs, rfl, hescape⟩ := escape?_ok h
  have hlength := hescape.length_le
  have hdrop : cs.drop (escape.length - 1) = (c :: cs).drop escape.length := by
    conv_rhs => rw [show escape.length = escape.length - 1 + 1 by omega, List.drop_succ_cons]
  rw [hdrop, List.take_append_drop, hcs, List.take_left]
  exact ⟨hescape, hescape.byteLength_eq, rfl⟩

/-- The spellings of the glyphs, in a row, are the source. -/
theorem spelling_glyphsFrom (odd : Bool) (cs : List Char) : spelling (glyphsFrom odd cs) = cs := by
  fun_induction glyphsFrom odd cs with
  | case1 => rfl
  | case2 odd c cs hc ih => exact congrArg (c :: ·) ih
  | case3 c cs hc ih => exact congrArg (c :: ·) ih
  | case4 odd c cs hc hodd hescape ih => exact congrArg (c :: ·) ih
  | case5 odd c cs hc hodd char length hescape ih =>
    rw [spelling_cons, ih]
    exact (cut_of_escape? hescape).2.2

theorem isSpelled_of_mem_glyphsFrom {odd : Bool} (h : g ∈ glyphsFrom odd cs) : g.IsSpelled := by
  fun_induction glyphsFrom odd cs with
  | case1 => cases h
  | case2 odd c cs hc ih =>
    rcases List.mem_cons.mp h with rfl | h
    · exact .inl rfl
    · exact ih h
  | case3 c cs hc ih =>
    rcases List.mem_cons.mp h with rfl | h
    · exact .inl rfl
    · exact ih h
  | case4 odd c cs hc hodd hescape ih =>
    rcases List.mem_cons.mp h with rfl | h
    · exact .inl rfl
    · exact ih h
  | case5 odd c cs hc hodd char length hescape ih =>
    rcases List.mem_cons.mp h with rfl | h
    · exact .inr (cut_of_escape? hescape).1
    · exact ih h

/-- A source without a `u` behind a backslash stands for itself. -/
theorem glyphsFrom_self {source : List Char} (odd : Bool) (h : ¬['\\', 'u'] <:+: source) :
    glyphsFrom odd source = source.map Glyph.plain := by
  fun_induction glyphsFrom odd source with
  | case1 => rfl
  | case2 odd c cs hc ih =>
    rw [List.map_cons, ih fun hcs => h (hcs.trans (List.suffix_cons c cs).isInfix)]
  | case3 c cs hc ih =>
    rw [List.map_cons, ih fun hcs => h (hcs.trans (List.suffix_cons c cs).isInfix)]
  | case4 odd c cs hc hodd hescape ih =>
    rw [List.map_cons, ih fun hcs => h (hcs.trans (List.suffix_cons c cs).isInfix)]
  | case5 odd c cs hc hodd char length hescape ih =>
    -- an escape would have such a `u`
    obtain ⟨rest, hrest⟩ := (cut_of_escape? hescape).1.exists_eq
    have hstart : ['\\', 'u'] <+: (c :: cs).take length := by
      rw [hrest]
      exact List.prefix_append ['\\', 'u'] rest
    exact absurd (hstart.trans (List.take_prefix length _)).isInfix h

theorem map_char_plain (cs : List Char) : (cs.map Glyph.plain).map Glyph.char = cs := by
  rw [List.map_map]
  exact List.map_id cs

/-! ## Going back -/

/-- The source byte that byte `offset` of the characters of `glyphs` comes from, counted from the
start of their spelling. -/
def sourceOffsetIn : List Glyph → Nat → Nat
  | [], offset => offset
  | g :: gs, offset =>
    if offset < g.char.utf8Size then offset
    else byteLength g.spelling + sourceOffsetIn gs (offset - g.char.utf8Size)

theorem sourceOffsetIn_zero (gs : List Glyph) : sourceOffsetIn gs 0 = 0 := by
  cases gs with
  | nil => rfl
  | cons g gs => exact if_pos g.char.utf8Size_pos

/-- Past the characters of some glyphs, go past their spellings. -/
theorem sourceOffsetIn_append (gs hs : List Glyph) (n : Nat) :
    sourceOffsetIn (gs ++ hs) (byteLength (gs.map Glyph.char) + n) =
      byteLength (spelling gs) + sourceOffsetIn hs n := by
  induction gs with
  | nil => simp
  | cons g gs ih =>
    have hpast : ¬byteLength ((g :: gs).map Glyph.char) + n < g.char.utf8Size := by
      simp only [List.map_cons, byteLength_cons]
      omega
    have hrest : byteLength ((g :: gs).map Glyph.char) + n - g.char.utf8Size =
        byteLength (gs.map Glyph.char) + n := by
      simp only [List.map_cons, byteLength_cons]
      omega
    rw [List.cons_append, sourceOffsetIn, if_neg hpast, hrest, ih, spelling_cons,
      byteLength_append, Nat.add_assoc]

theorem sourceOffsetIn_boundary (gs hs : List Glyph) :
    sourceOffsetIn (gs ++ hs) (byteLength (gs.map Glyph.char)) = byteLength (spelling gs) := by
  have happend := sourceOffsetIn_append gs hs 0
  rwa [sourceOffsetIn_zero, Nat.add_zero, Nat.add_zero] at happend

theorem sourceOffsetIn_lt {gs : List Glyph} (hspelled : ∀ g ∈ gs, g.IsSpelled) {i j : Nat}
    (h : i < j) : sourceOffsetIn gs i < sourceOffsetIn gs j := by
  induction gs generalizing i j with
  | nil => exact h
  | cons g gs ih =>
    have hsize := (hspelled g List.mem_cons_self).utf8Size_le
    have hrest := fun g' hg' => hspelled g' (List.mem_cons_of_mem g hg')
    unfold sourceOffsetIn
    by_cases hj : j < g.char.utf8Size
    · rwa [if_pos hj, if_pos (Nat.lt_trans h hj)]
    rw [if_neg hj]
    by_cases hi : i < g.char.utf8Size
    · -- `i` lies in the first glyph, whose spelling is at least as long
      rw [if_pos hi]
      omega
    · rw [if_neg hi]
      exact Nat.add_lt_add_left (ih hrest (by omega)) _

end ApiDoc.Text
