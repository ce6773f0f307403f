import ApiDoc.Proofs.Text.Unescaped
import Mathlib.Algebra.Group.Nat.Even
import Mathlib.Data.List.DropRight

/-!
# Which backslashes start an escape

`Decodes` is the rule that a source is read by, from left to right: an escape is replaced by its
character where it is well-formed and an even number of backslashes stands right before it, and
everything else is copied. What is counted starts anew behind each escape, and the character of an
escape is not looked at again.

The rule always applies (`exists_decodes`), and reading the glyphs of a source follows it step by
step (`Decodes.glyphsFrom_eq`), so the two agree: `Unescaped.ofSource_decodes_by_parity`.
-/

namespace ApiDoc.Text

variable {c : Char} {unit : Nat} {before escape source : List Char}

/-! ## The rule -/

/-- The number of backslashes at the end of `before`. -/
def backslashRun (before : List Char) : Nat := (before.rtakeWhile (· = '\\')).length

/-- An escape starts at the head of `cs`, when `before` was copied since the last one. -/
def EscapeStarts (before cs : List Char) : Prop :=
  Even (backslashRun before) ∧ ∃ c escape, Escapes c escape ∧ escape <+: cs

/-- `Decodes before source text n`: when `before` was copied since the last escape, what is left of
the source reads `text`, with `n` escapes replaced. -/
inductive Decodes : List Char → List Char → List Char → Nat → Prop
  | done {before : List Char} : Decodes before [] [] 0
  | replace {before escape source text : List Char} {c : Char} {n : Nat}
      (heven : Even (backslashRun before)) (hescape : Escapes c escape)
      (hrest : Decodes [] source text n) : Decodes before (escape ++ source) (c :: text) (n + 1)
  | copy {before source text : List Char} {c : Char} {n : Nat}
      (hplain : ¬EscapeStarts before (c :: source))
      (hrest : Decodes (before ++ [c]) source text n) : Decodes before (c :: source) (c :: text) n

theorem backslashRun_backslash (before : List Char) :
    backslashRun (before ++ ['\\']) = backslashRun before + 1 := by
  simp [backslashRun]

theorem backslashRun_other (hc : c ≠ '\\') (before : List Char) :
    backslashRun (before ++ [c]) = 0 := by
  simp [backslashRun, hc]

/-! ## Well-formed escapes are found -/

theorem hexValue?_of_isHexDigit {value : Nat} (h : IsHexDigit c value) :
    hexValue? c = some value := by
  have hall : ∀ n < 128, ∀ v < 16, (Char.ofNat n).toLower = v.digitChar →
      hexValue? (Char.ofNat n) = some v := by
    decide +kernel
  have hc := hall c.toNat h.toNat_lt value h.1
  rw [Char.ofNat_toNat] at hc
  exact hc h.2

theorem IsHexDigit.ne_u {value : Nat} (h : IsHexDigit c value) : c ≠ 'u' := by
  rintro rfl
  cases hexValue?_of_isHexDigit h

theorem foldlM_of_isHexDigit {digits : List Char} {values : List Nat}
    (h : List.Forall₂ IsHexDigit digits values) (n : Nat) :
    digits.foldlM (fun n c => (hexValue? c).map (16 * n + ·)) n =
      some (16 ^ digits.length * n + Nat.ofDigits 16 values.reverse) := by
  induction h generalizing n with
  | nil => simp
  | @cons d value digits values hd htail ih =>
    rw [List.foldlM_cons, hexValue?_of_isHexDigit hd]
    show digits.foldlM _ (16 * n + value) = _
    rw [ih, List.reverse_cons, Nat.ofDigits_append, List.length_reverse, ← htail.length_eq,
      Nat.ofDigits_singleton, List.length_cons]
    congr 1
    ring

/-- The escape of a code unit is found, whatever stands behind it. -/
theorem codeUnit?_append (h : EscapesUnit unit escape) (behind : List Char) :
    codeUnit? (escape ++ behind) = some (unit, escape.length) := by
  obtain ⟨us, digits, values, rfl, hne, hus, hlength, hdigits, rfl⟩ := h
  obtain ⟨u, us, rfl⟩ := List.exists_cons_of_ne_nil hne
  obtain ⟨rfl, htail⟩ := List.forall_mem_cons.mp hus
  obtain ⟨a, b, c, d, rfl⟩ := List.length_eq_four.mp hlength
  -- The run of `u` ends at the first digit, which is none.
  have ha : a ≠ 'u' := by
    obtain ⟨value, _, ha, -, -⟩ := List.forall₂_cons_left_iff.mp hdigits
    exact ha.ne_u
  have hall : ∀ x ∈ us, decide (x = 'u') = true := fun x hx => decide_eq_true (htail x hx)
  have htake : (us ++ a :: b :: c :: d :: behind).takeWhile (· = 'u') = us := by
    simp [List.takeWhile_append_of_pos hall, ha]
  have hdrop : (us ++ a :: b :: c :: d :: behind).dropWhile (· = 'u') =
      a :: b :: c :: d :: behind := by
    simp [List.dropWhile_append_of_pos hall, ha]
  have hnumber : hexNumber? [a, b, c, d] = some (Nat.ofDigits 16 values.reverse) := by
    rw [hexNumber?, foldlM_of_isHexDigit hdigits, Nat.mul_zero, Nat.zero_add]
  have hlen : ('\\' :: 'u' :: us ++ [a, b, c, d]).length = 2 + us.length + 4 := by
    simp only [List.length_append, List.length_cons, List.length_nil]
    omega
  rw [hlen, List.append_assoc]
  show codeUnit? ('\\' :: 'u' :: (us ++ a :: b :: c :: d :: behind)) = _
  simp only [codeUnit?, htake, hdrop, hnumber, Option.map_some]

theorem isHighSurrogate_eq_true : isHighSurrogate unit = true ↔ 0xD800 ≤ unit ∧ unit ≤ 0xDBFF := by
  simp [isHighSurrogate]

theorem isLowSurrogate_eq_true : isLowSurrogate unit = true ↔ 0xDC00 ≤ unit ∧ unit ≤ 0xDFFF := by
  simp [isLowSurrogate]

/-- An escape of a character is found, whatever stands behind it. -/
theorem escape?_append (h : Escapes c escape) (behind : List Char) :
    escape? (escape ++ behind) = some (c, escape.length) := by
  cases h with
  | single h =>
    have hvalid : c.toNat < 0xD800 ∨ 0xDFFF < c.toNat ∧ c.toNat < 0x110000 := c.valid
    have hhigh : ¬isHighSurrogate c.toNat = true := by
      rw [isHighSurrogate_eq_true]
      omega
    have hlow : ¬isLowSurrogate c.toNat = true := by
      rw [isLowSurrogate_eq_true]
      omega
    rw [escape?, codeUnit?_append h]
    simp only [if_neg hhigh, if_neg hlow, Char.ofNat_toNat]
  | @pair high low cs ds hcs hds hhigh hlow hc =>
    have hpaired : pairedChar high low = c := by
      rw [← Char.ofNat_toNat c, hc, ← toNat_pairedChar hhigh hlow, Char.ofNat_toNat]
    rw [escape?, List.append_assoc, codeUnit?_append hcs]
    simp only [if_pos (isHighSurrogate_eq_true.mpr hhigh), List.drop_left, codeUnit?_append hds,
      if_pos (isLowSurrogate_eq_true.mpr hlow), hpaired, List.length_append]

theorem escape?_eq_none {cs : List Char}
    (h : ¬∃ c escape, Escapes c escape ∧ escape <+: cs) : escape? cs = none := by
  cases hcs : escape? cs with
  | none => rfl
  | some found =>
    obtain ⟨c, length⟩ := found
    obtain ⟨escape, behind, rfl, -, hescape⟩ := escape?_ok hcs
    exact absurd ⟨c, escape, hescape, List.prefix_append escape behind⟩ h

/-! ## Reading follows the rule -/

/-- Does `before` end in an odd number of backslashes? -/
def endsOdd (before : List Char) : Bool := !decide (Even (backslashRun before))

theorem glyphsFrom_escape (h : Escapes c escape) (behind : List Char) :
    glyphsFrom false (escape ++ behind) = ⟨c, escape⟩ :: glyphsFrom false behind := by
  have hfound := escape?_append h behind
  obtain ⟨rest, rfl⟩ := h.exists_eq
  rw [List.cons_append] at hfound ⊢
  rw [glyphsFrom, hfound]
  simp

theorem glyphsFrom_copy {cs : List Char} (h : ¬EscapeStarts before (c :: cs)) :
    glyphsFrom (endsOdd before) (c :: cs) =
      .plain c :: glyphsFrom (endsOdd (before ++ [c])) cs := by
  rw [glyphsFrom]
  by_cases hc : c = '\\'
  · subst hc
    by_cases heven : Even (backslashRun before)
    · have hnone : escape? ('\\' :: cs) = none := escape?_eq_none fun hexists => h ⟨heven, hexists⟩
      simp [endsOdd, backslashRun_backslash, heven, Nat.even_add_one, hnone]
    · simp [endsOdd, backslashRun_backslash, heven, Nat.even_add_one]
  · simp [endsOdd, backslashRun_other hc, hc]

/-- What the rule decodes is what is read. -/
theorem Decodes.glyphsFrom_eq {text : List Char} {n : Nat} (h : Decodes before source text n) :
    (glyphsFrom (endsOdd before) source).map Glyph.char = text ∧
      (glyphsFrom (endsOdd before) source).countP Glyph.isEscape = n := by
  induction h with
  | done =>
    rw [glyphsFrom]
    exact ⟨rfl, rfl⟩
  | @replace before escape source text c n heven hescape hrest ih =>
    have hodd : endsOdd before = false := by simp [endsOdd, heven]
    have hspelled := Glyph.isEscape_of_escapes hescape
    have hanew : endsOdd [] = false := rfl
    rw [hanew] at ih
    rw [hodd, glyphsFrom_escape hescape, List.map_cons, List.countP_cons_of_pos hspelled, ih.1,
      ih.2]
    exact ⟨rfl, rfl⟩
  | @copy before source text c n hplain hrest ih =>
    have hplainGlyph : ¬Glyph.isEscape (.plain c) = true := by simp [Glyph.isEscape, Glyph.plain]
    rw [glyphsFrom_copy hplain, List.map_cons, List.countP_cons_of_neg hplainGlyph, ih.1, ih.2]
    exact ⟨rfl, rfl⟩

/-- Every source can be decoded. -/
theorem exists_decodes (before source : List Char) : ∃ text n, Decodes before source text n := by
  -- An escape takes several characters at once, so the recursion is on the length.
  match source with
  | [] => exact ⟨[], 0, .done⟩
  | c :: cs =>
    by_cases hstarts : EscapeStarts before (c :: cs)
    · obtain ⟨heven, char, escape, hescape, behind, hbehind⟩ := hstarts
      obtain ⟨text, n, htext⟩ := exists_decodes [] behind
      exact ⟨char :: text, n + 1, hbehind ▸ .replace heven hescape htext⟩
    · obtain ⟨text, n, htext⟩ := exists_decodes (before ++ [c]) cs
      exact ⟨c :: text, n, .copy hstarts htext⟩
termination_by source.length
decreasing_by
  · have hlength := hescape.length_le
    have hsum := congrArg List.length hbehind
    simp only [List.length_append] at hsum
    omega
  · simp

/-- No escape starts where no `u` stands behind a backslash. -/
theorem not_escapeStarts (h : ¬['\\', 'u'] <:+: source) : ¬EscapeStarts before source := by
  rintro ⟨-, char, escape, hescape, hstart⟩
  obtain ⟨rest, rfl⟩ := hescape.exists_eq
  exact h ((List.prefix_append ['\\', 'u'] rest).trans hstart).isInfix

/-- Where no `u` stands behind a backslash, everything is copied. -/
theorem decodes_self (before : List Char) (h : ¬['\\', 'u'] <:+: source) :
    Decodes before source source 0 := by
  induction source generalizing before with
  | nil => exact .done
  | cons c cs ih =>
    exact .copy (not_escapeStarts h)
      (ih _ fun hcs => h (hcs.trans (List.suffix_cons c cs).isInfix))

theorem length_shiftsFrom (decoded original : Nat) (gs : List Glyph) :
    (shiftsFrom decoded original gs).length = gs.countP Glyph.isEscape := by
  induction gs generalizing decoded original with
  | nil => rfl
  | cons g gs ih =>
    unfold shiftsFrom
    dsimp only
    split
    · next h => rw [List.length_cons, ih, List.countP_cons_of_pos h]
    · next h => rw [ih, List.countP_cons_of_neg h]

namespace Unescaped

/-- There is a shift for each escape. -/
theorem hasEscapes_ofSource (source : List Char) :
    (ofSource source).hasEscapes = true ↔ 0 < (glyphs source).countP Glyph.isEscape := by
  rw [hasEscapes, shifts_ofSource, ← length_shiftsFrom 0 0, List.length_pos_iff]
  simp

/-- **Escapes are replaced by parity.** What a source reads is what the rule decodes, and nothing
else is decoded; some character is spelled by an escape if and only if one was replaced. A source
without a `u` behind a backslash is its own text, and the loop that is not run on it would give the
same. -/
theorem ofSource_decodes_by_parity (source : List Char) :
    (∃ n, Decodes [] source (ofSource source).text n) ∧
    (∀ text n, Decodes [] source text n →
      text = (ofSource source).text ∧ ((ofSource source).hasEscapes = true ↔ 0 < n)) ∧
    (¬['\\', 'u'] <:+: source →
      (ofSource source).text = source ∧ (ofSource source).hasEscapes = false) ∧
    decodeFrom? source ⟨[], #[]⟩ 0 0 0 source = some (ofSource source) := by
  have hunique : ∀ text n, Decodes [] source text n →
      text = (ofSource source).text ∧ ((ofSource source).hasEscapes = true ↔ 0 < n) := by
    intro text n htext
    obtain ⟨hchars, hcount⟩ := htext.glyphsFrom_eq
    rw [hasEscapes_ofSource, text_ofSource]
    exact ⟨hchars.symm, hcount ▸ Iff.rfl⟩
  refine ⟨?_, hunique, fun hplain => ?_, ?_⟩
  · obtain ⟨text, n, htext⟩ := exists_decodes [] source
    exact ⟨n, (hunique text n htext).1 ▸ htext⟩
  · obtain ⟨htext, hescapes⟩ := hunique source 0 (decodes_self [] hplain)
    exact ⟨htext.symm, by simpa using hescapes⟩
  · rw [decodeFrom?_source, ofSource_eq]

-- The backslash that an escape stands for starts no other.
example : (ofSource ['\\', 'u', '0', '0', '5', 'c', 'u', '0', '0', '4', '1']).text =
    ['\\', 'u', '0', '0', '4', '1'] := by
  decide +kernel

end Unescaped

end ApiDoc.Text
