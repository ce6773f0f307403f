import ApiDoc.Markup.Event
import ApiDoc.Proofs.Text.Segments

/-!
# How events are written

The grammar of markup, apart from the reader. `Event.Reads piece event rest` says that `piece` is
written as `event` where `rest` stands behind it, with one case for each form:

    text, comments and raw text, instructions, declarations, start tags, end tags

Three forms look at what stands behind them: text goes on up to the next tag, a value without quotes
up to the next blank, and only an opening whose end never comes is a declaration. What is left of a
tag behind its name is read as the grammar says (`tagEnd?_eq_some_iff`).
-/

namespace ApiDoc.Markup

open Text (isBlank)

/-- The name of an element or an attribute: an ASCII letter, then letters, digits and a few
signs. -/
structure Name where
  first : Char
  rest : List Char
  isAlpha_first : first.isAlpha = true
  isNamePart_rest : ∀ c ∈ rest, Event.isNamePart c = true

def Name.chars (name : Name) : List Char := name.first :: name.rest

/-- The end of a start tag. -/
def closing (selfClosing : Bool) : List Char := if selfClosing then ['/', '>'] else ['>']

/-- What is written between two marks. -/
inductive Enclosure where
  | comment
  | rawText

namespace Enclosure

/-- The opening mark behind the two signs that all declarations start with. -/
def label : Enclosure → List Char
  | .comment => "--".toList
  | .rawText => "[CDATA[".toList

def start (kind : Enclosure) : List Char := '<' :: '!' :: kind.label

def finish : Enclosure → List Char
  | .comment => "-->".toList
  | .rawText => "]]>".toList

/-- What the text between the marks is read as. -/
def event : Enclosure → List Char → Event
  | .comment, _ => .ignored
  | .rawText, raw => .cdata raw

end Enclosure

namespace Event

/-! ## The grammar -/

/-- Can `c` stand in a value without quotes? -/
def isBare (c : Char) : Bool := !isBlank c && c ≠ '>'

/-- The value of an attribute, with `rest` behind it. A quote that is not closed is a character
like any other. -/
inductive IsValue : (value rest : List Char) → Prop
  | quoted {quote : Char} {cs rest : List Char} (hquote : quote = '"' ∨ quote = '\'')
      (hcs : quote ∉ cs) : IsValue (quote :: (cs ++ [quote])) rest
  | bare {c : Char} {cs rest : List Char} (hcs : ∀ d ∈ c :: cs, isBare d = true)
      (hrest : ∀ d ∈ rest.head?, isBare d = false)
      (hopen : c = '"' ∨ c = '\'' → c ∉ cs ++ rest) : IsValue (c :: cs) rest

/-- An equals sign between spaces, and a value. -/
inductive IsAssignment : (written rest : List Char) → Prop
  | intro {before behind value rest : List Char} (hbefore : ∀ c ∈ before, isSpace c = true)
      (hbehind : ∀ c ∈ behind, isSpace c = true) (hvalue : IsValue value rest) :
      IsAssignment (before ++ '=' :: (behind ++ value)) rest

/-- Blanks, a name, and a value if one can be read there. -/
inductive IsAttribute : (written rest : List Char) → Prop
  | valued {gap assignment rest : List Char} (name : Name) (hgap : gap ≠ [])
      (hblank : ∀ c ∈ gap, isBlank c = true) (hassignment : IsAssignment assignment rest) :
      IsAttribute (gap ++ (name.chars ++ assignment)) rest
  | plain {gap rest : List Char} (name : Name) (hgap : gap ≠ [])
      (hblank : ∀ c ∈ gap, isBlank c = true) (hend : ∀ c ∈ rest.head?, isNamePart c = false)
      (hnone : ∀ assignment behind, rest = assignment ++ behind →
        ¬ IsAssignment assignment behind) : IsAttribute (gap ++ name.chars) rest

/-- Attributes one behind the other. -/
inductive AreAttributes : (written rest : List Char) → Prop
  | nil (rest : List Char) : AreAttributes [] rest
  | cons {a as rest : List Char} (ha : IsAttribute a (as ++ rest)) (has : AreAttributes as rest) :
      AreAttributes (a ++ as) rest

/-- With `rest` behind it, `piece` is written as `event`. -/
inductive Reads : (piece : List Char) → (event : Event) → (rest : List Char) → Prop
  | text {c : Char} {cs rest : List Char} (hcs : '<' ∉ c :: cs)
      (hrest : ∀ d ∈ rest.head?, d = '<') : Reads (c :: cs) (.text (c :: cs)) rest
  | enclosed (kind : Enclosure) {cs rest : List Char} (hcs : ¬ kind.finish <:+: cs) :
      Reads (kind.start ++ (cs ++ kind.finish)) (kind.event cs) rest
  | instruction {cs rest : List Char} (hcs : ¬ "?>".toList <:+: cs) :
      Reads ("<?".toList ++ (cs ++ "?>".toList)) .ignored rest
  | declaration {cs rest : List Char} (hcs : '>' ∉ cs)
      (hopen : ∀ (kind : Enclosure) behind, cs ++ '>' :: rest = kind.label ++ behind →
        ¬ kind.finish <:+: behind) : Reads ("<!".toList ++ (cs ++ ">".toList)) .ignored rest
  | startTag (name : Name) {attributes space rest : List Char} {selfClosing : Bool}
      (hattributes : AreAttributes attributes (space ++ (closing selfClosing ++ rest)))
      (hspace : ∀ c ∈ space, isSpace c = true) :
      Reads ('<' :: (name.chars ++ (attributes ++ (space ++ closing selfClosing))))
        (.startTag name.chars selfClosing) rest
  | endTag (name : Name) {space rest : List Char} (hspace : ∀ c ∈ space, isSpace c = true) :
      Reads ('<' :: '/' :: (name.chars ++ (space ++ ['>']))) (.endTag name.chars) rest

/-- No event can be read where a text starts. -/
def Stuck (cs : List Char) : Prop :=
  cs ≠ [] ∧ ∀ piece event rest, cs = piece ++ rest → ¬ Reads piece event rest

/-! ## Names and attributes -/

variable {c : Char} {cs rest space : List Char}

theorem isBlank_of_isAlpha (h : c.isAlpha = true) : isBlank c = false := by
  have hrange : 65 ≤ c.toNat ∧ c.toNat ≤ 90 ∨ 97 ≤ c.toNat ∧ c.toNat ≤ 122 := by
    have hcase : decide (c.val ≥ 65 ∧ c.val ≤ 90) = true ∨
        (decide (c.val ≥ 97) && decide (c.val ≤ 122)) = true := (Bool.or_eq_true _ _).mp h
    simpa [UInt32.le_iff_toNat_le] using hcase
  simp only [isBlank, Text.blankRanges, Text.Ranges.covers]
  grind

theorem isBlank_of_isSpace (h : isSpace c = true) : isBlank c = true := by
  simp only [isSpace, Bool.or_eq_true, decide_eq_true_eq] at h
  rcases h with ((rfl | rfl) | rfl) | rfl <;> decide

theorem isNamePart_of_isBlank (h : isBlank c = true) : isNamePart c = false := by
  rw [Bool.eq_false_iff]
  intro hpart
  simp only [isNamePart, Bool.or_eq_true, decide_eq_true_eq] at hpart
  rcases hpart with (((hletter | rfl) | rfl) | rfl) | rfl
  · rcases (Bool.or_eq_true _ _).mp hletter with halpha | hdigit
    · rw [isBlank_of_isAlpha halpha] at h
      cases h
    · have hrange : 48 ≤ c.toNat ∧ c.toNat ≤ 57 := by
        have hdigit : (decide (c.val ≥ 48) && decide (c.val ≤ 57)) = true := hdigit
        simpa [UInt32.le_iff_toNat_le] using hdigit
      simp only [isBlank, Text.blankRanges, Text.Ranges.covers] at h
      grind
  all_goals exact absurd h (by decide)

theorem name?_eq_some_iff {chars : List Char} :
    name? cs = some (chars, rest) ↔ ∃ name : Name, chars = name.chars ∧
      cs = name.chars ++ rest ∧ ∀ c ∈ rest.head?, isNamePart c = false := by
  constructor
  · intro h
    cases cs with
    | nil => cases h
    | cons c cs =>
      rw [name?] at h
      split at h
      · next halpha =>
        cases h
        obtain ⟨-, -, -, hrest⟩ := Text.dropWhile_eq_iff.mp (Eq.refl (cs.dropWhile isNamePart))
        refine ⟨⟨c, cs.takeWhile isNamePart, halpha, ?_⟩, rfl, ?_, hrest⟩
        · exact List.all_eq_true.mp List.all_takeWhile
        · simp [Name.chars]
      · cases h
  · rintro ⟨name, rfl, rfl, hrest⟩
    obtain ⟨htake, hdrop⟩ := Text.takeWhile_dropWhile_append name.isNamePart_rest hrest
    rw [Name.chars, List.cons_append, name?, if_pos name.isAlpha_first, htake, hdrop]

theorem pastQuote?_eq_some_iff {quote : Char} :
    pastQuote? quote cs = some rest ↔ ∃ front, cs = front ++ quote :: rest ∧ quote ∉ front := by
  unfold pastQuote?
  constructor
  · intro h
    split at h
    · cases h
    · next d behind hdrop =>
      cases h
      obtain ⟨front, rfl, hfront, hd⟩ := Text.dropWhile_eq_iff.mp hdrop
      obtain rfl : d = quote := by simpa using hd d rfl
      exact ⟨front, rfl, fun hmem => by simpa using hfront _ hmem⟩
  · rintro ⟨front, rfl, hfront⟩
    have hdrop : (front ++ quote :: rest).dropWhile (fun c => decide (c ≠ quote)) =
        quote :: rest := by
      refine Text.dropWhile_eq_iff.mpr ⟨front, rfl, fun d hd => ?_, by simp⟩
      have hne : d ≠ quote := fun heq => hfront (heq ▸ hd)
      simpa using hne
    simp only [hdrop]

theorem pastQuote?_eq_none_iff {quote : Char} : pastQuote? quote cs = none ↔ quote ∉ cs := by
  constructor
  · intro h hmem
    obtain ⟨front, rest, rfl, hfront⟩ := List.eq_append_cons_of_mem hmem
    rw [pastQuote?_eq_some_iff.mpr ⟨front, rfl, hfront⟩] at h
    cases h
  · intro h
    cases hread : pastQuote? quote cs with
    | none => rfl
    | some rest =>
      obtain ⟨front, rfl, -⟩ := pastQuote?_eq_some_iff.mp hread
      exact absurd (by simp) h

theorem pastBareValue?_eq_some_iff :
    pastBareValue? cs = some rest ↔ ∃ c front, cs = c :: front ++ rest ∧
      (∀ d ∈ c :: front, isBare d = true) ∧ ∀ d ∈ rest.head?, isBare d = false := by
  show (if (cs.dropWhile isBare).length < cs.length then some (cs.dropWhile isBare) else none) =
    some rest ↔ _
  constructor
  · intro h
    split at h
    · next hshorter =>
      obtain ⟨front, hcs, hfront, hrest⟩ := Text.dropWhile_eq_iff.mp (Option.some.inj h)
      cases front with
      | nil =>
        rw [Option.some.inj h, hcs, List.nil_append] at hshorter
        exact absurd hshorter (Nat.lt_irrefl _)
      | cons c front => exact ⟨c, front, hcs, hfront, hrest⟩
    · cases h
  · rintro ⟨c, front, rfl, hfront, hrest⟩
    have hshorter : rest.length < (c :: front ++ rest).length := by
      rw [List.length_append, List.length_cons]
      omega
    rw [Text.dropWhile_eq_iff.mpr ⟨c :: front, rfl, hfront, hrest⟩, if_pos hshorter]

theorem pastValue?_eq_some_iff :
    pastValue? cs = some rest ↔ ∃ value, cs = value ++ rest ∧ IsValue value rest := by
  constructor
  · intro h
    cases cs with
    | nil => cases h
    | cons c cs =>
      -- a quote that is never closed starts a bare value
      have hbare : (c = '"' ∨ c = '\'' → c ∉ cs) → pastBareValue? (c :: cs) = some rest →
          ∃ value, c :: cs = value ++ rest ∧ IsValue value rest := by
        intro hopen hbare
        obtain ⟨d, front, heq, hfront, hrest⟩ := pastBareValue?_eq_some_iff.mp hbare
        obtain ⟨rfl, rfl⟩ := List.cons.inj heq
        exact ⟨c :: front, rfl, .bare hfront hrest hopen⟩
      simp only [pastValue?] at h
      split at h
      · next hquote =>
        have hquote : c = '"' ∨ c = '\'' := by simpa using hquote
        rcases Option.or_eq_some_iff.mp h with h | ⟨hnone, h⟩
        · obtain ⟨front, rfl, hfront⟩ := pastQuote?_eq_some_iff.mp h
          exact ⟨c :: (front ++ [c]), by simp, .quoted hquote hfront⟩
        · exact hbare (fun _ => pastQuote?_eq_none_iff.mp hnone) h
      · next hquote => exact hbare (fun h => absurd (by simpa using h) hquote) h
  · rintro ⟨value, rfl, hvalue⟩
    cases hvalue with
    | @quoted quote cs _ hquote hcs =>
      have hread : pastQuote? quote (cs ++ [quote] ++ rest) = some rest :=
        pastQuote?_eq_some_iff.mpr ⟨cs, by simp, hcs⟩
      simp only [List.cons_append, pastValue?, hread, Option.some_or]
      rw [if_pos (by simpa using hquote)]
    | @bare c cs _ hcs hrest hopen =>
      have hread : pastBareValue? (c :: cs ++ rest) = some rest :=
        pastBareValue?_eq_some_iff.mpr ⟨c, cs, rfl, hcs, hrest⟩
      simp only [List.cons_append, pastValue?] at hread ⊢
      split
      · next hquote =>
        rw [pastQuote?_eq_none_iff.mpr (hopen (by simpa using hquote)), Option.none_or, hread]
      · exact hread

/-- A value starts with no space. -/
theorem isSpace_of_isValue {value : List Char} (h : IsValue value rest) :
    ∀ c ∈ (value ++ rest).head?, isSpace c = false := by
  intro c hc
  cases h with
  | quoted hquote hcs =>
    cases hc
    rcases hquote with rfl | rfl <;> decide
  | @bare d cs _ hcs hrest hopen =>
    cases hc
    rw [Bool.eq_false_iff]
    intro hspace
    have hbare := hcs c List.mem_cons_self
    simp [isBare, isBlank_of_isSpace hspace] at hbare

theorem pastAssignment?_eq_some_iff :
    pastAssignment? cs = some rest ↔
      ∃ written, cs = written ++ rest ∧ IsAssignment written rest := by
  unfold pastAssignment?
  constructor
  · intro h
    split at h
    · next behind hdrop =>
      obtain ⟨before, rfl, hbefore, -⟩ := Text.dropWhile_eq_iff.mp hdrop
      obtain ⟨value, hvalue, hread⟩ := pastValue?_eq_some_iff.mp h
      obtain ⟨space, rfl, hspace, -⟩ := Text.dropWhile_eq_iff.mp hvalue
      exact ⟨_, by simp, .intro hbefore hspace hread⟩
    · cases h
  · rintro ⟨written, rfl, hwritten⟩
    cases hwritten with
    | @intro before behind value _ hbefore hbehind hvalue =>
      -- The spaces on both sides end where a character that is none begins.
      have hequals : (before ++ '=' :: (behind ++ value) ++ rest).dropWhile isSpace =
          '=' :: (behind ++ (value ++ rest)) :=
        Text.dropWhile_eq_iff.mpr ⟨before, by simp, hbefore, by simp [isSpace]⟩
      have hdrop : (behind ++ (value ++ rest)).dropWhile isSpace = value ++ rest :=
        Text.dropWhile_eq_iff.mpr ⟨behind, rfl, hbehind, isSpace_of_isValue hvalue⟩
      rw [hequals]
      simp only [hdrop]
      exact pastValue?_eq_some_iff.mpr ⟨value, rfl, hvalue⟩

theorem isNamePart_of_isAssignment {written : List Char} (h : IsAssignment written rest) :
    ∀ c ∈ (written ++ rest).head?, isNamePart c = false := by
  intro c hc
  cases h with
  | @intro before behind value _ hbefore hbehind hvalue =>
    cases before with
    | nil =>
      cases hc
      decide
    | cons d before =>
      cases hc
      exact isNamePart_of_isBlank (isBlank_of_isSpace (hbefore _ List.mem_cons_self))

theorem pastAttribute?_eq_some_iff :
    pastAttribute? cs = some rest ↔ ∃ written, cs = written ++ rest ∧ IsAttribute written rest := by
  constructor
  · intro h
    cases cs with
    | nil => cases h
    | cons c cs =>
      rw [pastAttribute?] at h
      split at h
      · next hc =>
        split at h
        · cases h
        · next chars behind hname =>
          cases h
          obtain ⟨name, rfl, hdrop, hend⟩ := name?_eq_some_iff.mp hname
          obtain ⟨gap, rfl, hgap, -⟩ := Text.dropWhile_eq_iff.mp hdrop
          have hblank : ∀ d ∈ c :: gap, isBlank d = true := List.forall_mem_cons.mpr ⟨hc, hgap⟩
          cases hvalue : pastAssignment? behind with
          | none =>
            refine ⟨c :: gap ++ name.chars, by simp, .plain name (List.cons_ne_nil c gap) hblank
              hend fun written behind heq hwritten => ?_⟩
            rw [Option.getD_none] at heq
            rw [pastAssignment?_eq_some_iff.mpr ⟨written, heq, hwritten⟩] at hvalue
            cases hvalue
          | some rest =>
            obtain ⟨written, rfl, hwritten⟩ := pastAssignment?_eq_some_iff.mp hvalue
            exact ⟨c :: gap ++ (name.chars ++ written), by simp,
              .valued name (List.cons_ne_nil c gap) hblank hwritten⟩
      · cases h
  · rintro ⟨written, rfl, hwritten⟩
    have hread : ∀ {gap : List Char} (name : Name) {behind : List Char}, gap ≠ [] →
        (∀ d ∈ gap, isBlank d = true) → (∀ d ∈ behind.head?, isNamePart d = false) →
        pastAttribute? (gap ++ (name.chars ++ behind)) =
          some ((pastAssignment? behind).getD behind) := by
      intro gap name behind hgap hblank hend
      obtain ⟨g, gap, rfl⟩ := List.exists_cons_of_ne_nil hgap
      obtain ⟨hg, hblank⟩ := List.forall_mem_cons.mp hblank
      -- a name starts with a letter, so the blanks end in front of it
      have hdrop : (gap ++ (name.chars ++ behind)).dropWhile isBlank = name.chars ++ behind := by
        refine Text.dropWhile_eq_iff.mpr ⟨gap, rfl, hblank, fun d hd => ?_⟩
        cases hd
        exact isBlank_of_isAlpha name.isAlpha_first
      rw [List.cons_append, pastAttribute?, if_pos hg, hdrop,
        name?_eq_some_iff.mpr ⟨name, rfl, rfl, hend⟩]
    cases hwritten with
    | @valued gap assignment _ name hgap hblank hassignment =>
      rw [List.append_assoc, List.append_assoc,
        hread name hgap hblank (isNamePart_of_isAssignment hassignment),
        pastAssignment?_eq_some_iff.mpr ⟨assignment, rfl, hassignment⟩]
      rfl
    | @plain gap _ name hgap hblank hend hnone =>
      have hvalue : pastAssignment? rest = none := by
        rw [Option.eq_none_iff_forall_ne_some]
        intro behind hread
        obtain ⟨written, heq, hwritten⟩ := pastAssignment?_eq_some_iff.mp hread
        exact hnone written behind heq hwritten
      rw [List.append_assoc, hread name hgap hblank hend, hvalue]
      rfl

theorem exists_areAttributes (cs : List Char) :
    ∃ attributes, cs = attributes ++ pastAttributes cs ∧
      AreAttributes attributes (pastAttributes cs) := by
  fun_induction pastAttributes cs with
  | case1 cs hnone => exact ⟨[], rfl, .nil cs⟩
  | case2 cs rest hrest _ ih =>
    obtain ⟨a, rfl, ha⟩ := pastAttribute?_eq_some_iff.mp hrest
    obtain ⟨as, has, hread⟩ := ih
    refine ⟨a ++ as, by rw [List.append_assoc, ← has], .cons ?_ hread⟩
    rwa [← has]
  | case3 cs rest hrest hlength => exact ⟨[], rfl, .nil cs⟩

theorem pastAttributes_append {attributes : List Char} (h : AreAttributes attributes rest)
    (hrest : pastAttribute? rest = none) : pastAttributes (attributes ++ rest) = rest := by
  induction h with
  | nil rest => rw [List.nil_append, pastAttributes, hrest]
  | @cons a as rest ha has ih =>
    have hshorter : (as ++ rest).length < (a ++ (as ++ rest)).length := by
      have hne : a ≠ [] := by
        cases ha with
        | valued name hgap hblank hassignment => simp [hgap]
        | plain name hgap hblank hend hnone => simp [hgap]
      have hlength := List.length_pos_iff.mpr hne
      simp only [List.length_append]
      omega
    rw [List.append_assoc, pastAttributes, pastAttribute?_eq_some_iff.mpr ⟨a, rfl, ha⟩]
    simp only [hshorter, if_true, ih hrest]

/-- No attribute starts where the tag ends. -/
theorem pastAttribute?_closing (hspace : ∀ c ∈ space, isSpace c = true) (selfClosing : Bool)
    (rest : List Char) : pastAttribute? (space ++ (closing selfClosing ++ rest)) = none := by
  have hblank : ∀ c ∈ space, isBlank c = true := fun c hc => isBlank_of_isSpace (hspace c hc)
  have hslash : isBlank '/' = false := by decide
  have hgreater : isBlank '>' = false := by decide
  cases space with
  | nil => cases selfClosing <;> simp [closing, pastAttribute?, hslash, hgreater]
  | cons c space =>
    have hdrop : (space ++ (closing selfClosing ++ rest)).dropWhile isBlank =
        closing selfClosing ++ rest := by
      rw [List.dropWhile_append_of_pos fun d hd => hblank d (List.mem_cons_of_mem c hd)]
      cases selfClosing <;> simp [closing, hslash, hgreater]
    simp only [List.cons_append, pastAttribute?, hblank c List.mem_cons_self, if_true, hdrop]
    cases selfClosing <;> rfl

theorem tagEnd?_eq_some_iff {selfClosing : Bool} :
    tagEnd? cs = some (selfClosing, rest) ↔ ∃ attributes space,
      cs = attributes ++ (space ++ (closing selfClosing ++ rest)) ∧
      AreAttributes attributes (space ++ (closing selfClosing ++ rest)) ∧
      ∀ c ∈ space, isSpace c = true := by
  constructor
  · intro h
    obtain ⟨attributes, hcs, hattributes⟩ := exists_areAttributes cs
    -- What is left behind the attributes is spaces and one of the two ends.
    have hclosing : (pastAttributes cs).dropWhile isSpace = closing selfClosing ++ rest := by
      unfold tagEnd? at h
      split at h
      · next behind hdrop =>
        cases h
        exact hdrop
      · next behind hdrop =>
        cases h
        exact hdrop
      · cases h
    obtain ⟨space, hend, hspace, -⟩ := Text.dropWhile_eq_iff.mp hclosing
    rw [hend] at hcs hattributes
    exact ⟨attributes, space, hcs, hattributes, hspace⟩
  · rintro ⟨attributes, space, rfl, hattributes, hspace⟩
    rw [tagEnd?, pastAttributes_append hattributes (pastAttribute?_closing hspace selfClosing rest),
      List.dropWhile_append_of_pos hspace]
    cases selfClosing <;> simp [closing, isSpace]

/-- A name ends where attributes, spaces or the end of the tag follow. -/
theorem isNamePart_of_areAttributes {attributes : List Char} {selfClosing : Bool}
    (h : AreAttributes attributes (space ++ (closing selfClosing ++ rest)))
    (hspace : ∀ c ∈ space, isSpace c = true) :
    ∀ c ∈ (attributes ++ (space ++ (closing selfClosing ++ rest))).head?, isNamePart c = false := by
  have hgap : ∀ {gap behind : List Char}, gap ≠ [] → (∀ c ∈ gap, isBlank c = true) →
      ∀ c ∈ (gap ++ behind).head?, isNamePart c = false := by
    intro gap behind hne hblank c hc
    obtain ⟨d, gap, rfl⟩ := List.exists_cons_of_ne_nil hne
    cases hc
    exact isNamePart_of_isBlank (hblank _ List.mem_cons_self)
  -- An attribute starts with a blank; without attributes the spaces or the end come first.
  cases h with
  | nil =>
    cases space with
    | nil => cases selfClosing <;> simp [closing] <;> decide
    | cons d space =>
      rw [List.nil_append]
      exact hgap (List.cons_ne_nil d space) fun c hc => isBlank_of_isSpace (hspace c hc)
  | cons ha has =>
    cases ha with
    | valued name hne hblank hassignment =>
      rw [List.append_assoc, List.append_assoc]
      exact hgap hne hblank
    | plain name hne hblank hend hnone =>
      rw [List.append_assoc, List.append_assoc]
      exact hgap hne hblank

end Event

end ApiDoc.Markup
