import ApiDoc.Proofs.Text.Blank
import ApiDoc.Syntax.Token

/-!
# Tokens written out

What `Token.joined` makes of tokens. The first token is written as it is, and each one behind it
with the gap before it, if the source had one there (`toList_joined_cons`). Line ends leave nothing.
So gaps make a difference between tokens only: with the blanks at its ends cut off, the text is that
of all tokens with their gaps (`trim_joined`).
-/

namespace ApiDoc.Syntax.Token

/-- What a gap leaves in a text. -/
def gap (spaced : Bool) : List Char := if spaced then [' '] else []

/-- The text of a token behind others, with the gap before it. -/
def gapped (t : Token) : List Char := gap t.spaced ++ t.text.toList

theorem isGap_gap (spaced : Bool) : Text.IsGap (gap spaced) := by
  cases spaced with
  | true => exact Text.isGap_nil.cons (by decide)
  | false => exact Text.isGap_nil

variable {t : Token} {ts : List Token} {out : String}

theorem joined_filter (ts : List Token) :
    joined (ts.filter fun t => !t.isNewline) = joined ts := by
  unfold joined
  rw [List.foldl_filter]
  congr 1
  funext out t
  cases hline : t.isNewline <;> simp [appendTo, hline]

/-- Before the first token of a text, no gap shows. -/
theorem appendTo_empty (t : Token) : appendTo "" t = if t.isNewline then "" else t.text := by
  simp [appendTo]

theorem toList_appendTo (ht : t.isNewline = false) (hout : out ≠ "") :
    (appendTo out t).toList = out.toList ++ t.gapped := by
  cases hspaced : t.spaced <;> simp [appendTo, ht, hout, gapped, gap, hspaced]

/-- Behind a text, tokens are written with the gaps before them. -/
theorem foldl_appendTo (hts : ∀ t ∈ ts, t.isNewline = false) (hout : out ≠ "") :
    (ts.foldl appendTo out).toList = out.toList ++ ts.flatMap gapped := by
  induction ts generalizing out with
  | nil => simp
  | cons t ts ih =>
    obtain ⟨ht, hts⟩ := List.forall_mem_cons.mp hts
    have hstep := toList_appendTo ht hout
    have hne : appendTo out t ≠ "" := by
      intro hempty
      rw [hempty, String.toList_empty] at hstep
      exact hout (String.toList_eq_nil_iff.mp (List.append_eq_nil_iff.mp hstep.symm).1)
    rw [List.foldl_cons, ih hts hne, hstep, List.flatMap_cons, List.append_assoc]

theorem toList_joined_cons (ht : t.text ≠ "") (hts : ∀ s ∈ t :: ts, s.isNewline = false) :
    (joined (t :: ts)).toList = t.text.toList ++ ts.flatMap gapped := by
  obtain ⟨hline, hts⟩ := List.forall_mem_cons.mp hts
  rw [joined, List.foldl_cons, appendTo_empty, hline]
  exact foldl_appendTo hts ht

/-- At the ends of a text, gaps make no difference once blanks are cut off there. -/
theorem trim_joined (hts : ∀ t ∈ ts, t.isNewline = false) :
    Text.trim (joined ts).toList = Text.trim (ts.flatMap gapped) := by
  induction ts with
  | nil => rfl
  | cons t ts ih =>
    obtain ⟨ht, hrest⟩ := List.forall_mem_cons.mp hts
    rw [List.flatMap_cons, gapped, List.append_assoc, Text.trim_gap_append (isGap_gap _)]
    by_cases htext : t.text = ""
    · have hskip : joined (t :: ts) = joined ts := by
        rw [joined, List.foldl_cons, appendTo_empty, ht, htext]
        rfl
      rw [hskip, htext]
      exact ih hrest
    · rw [toList_joined_cons htext hts]

end ApiDoc.Syntax.Token
