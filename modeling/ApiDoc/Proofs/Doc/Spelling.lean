import ApiDoc.Proofs.Doc.Lookup
import ApiDoc.Proofs.Source.Run
import ApiDoc.Proofs.Syntax.Identifier

/-!
# The name in a spelled type

The name that is looked up for a spelled type ends at the first type arguments. So it is the dotted
name of the type when type arguments stand behind the last segment alone, and a shorter one
otherwise; gaps around the dots stay in it (`lookupName_eq_dottedName_iff`).
-/

namespace ApiDoc

open Syntax (IsIdentifier Token)
open Syntax.Source

/-! ## Texts between word characters -/

/-- The text starts and ends with a character of a word, and opens neither type arguments nor
dimensions. -/
structure WordEnds (cs : List Char) : Prop where
  first : ∃ c rest, cs = c :: rest ∧ Syntax.Lexeme.isWordPart c = true
  last : ∃ front c, cs = front ++ [c] ∧ Syntax.Lexeme.isWordPart c = true
  not_open : ∀ c ∈ cs, c ≠ '<' ∧ c ≠ '['

namespace WordEnds

variable {cs ds : List Char}

theorem of_isIdentifier {text : String} (h : IsIdentifier text) : WordEnds text.toList := by
  have hparts := h.isWordPart
  have hne : text.toList ≠ [] := by simpa using h.ne_empty
  refine ⟨⟨_, _, (List.cons_head_tail hne).symm, hparts _ (List.head_mem hne)⟩,
    ⟨_, _, (List.dropLast_concat_getLast hne).symm, hparts _ (List.getLast_mem hne)⟩, ?_⟩
  intro c hc
  constructor
  · rintro rfl
    exact absurd (hparts _ hc) (by decide +kernel)
  · rintro rfl
    exact absurd (hparts _ hc) (by decide +kernel)

theorem append (hcs : WordEnds cs) (hds : WordEnds ds) {between : List Char}
    (hbetween : ∀ c ∈ between, c ≠ '<' ∧ c ≠ '[') : WordEnds (cs ++ between ++ ds) where
  first := by
    obtain ⟨c, rest, rfl, hc⟩ := hcs.first
    exact ⟨c, _, rfl, hc⟩
  last := by
    obtain ⟨front, d, rfl, hd⟩ := hds.last
    exact ⟨_, d, (List.append_assoc _ _ _).symm, hd⟩
  not_open := by
    rw [List.forall_mem_append, List.forall_mem_append]
    exact ⟨⟨hcs.not_open, hbetween⟩, hds.not_open⟩

/-- Blanks in front of a text go up to its first character of a word. -/
theorem cutStart (hcs : WordEnds cs) (behind : List Char) :
    Text.cutStart Text.isBlank (cs ++ behind) = cs ++ behind := by
  obtain ⟨c, rest, rfl, hc⟩ := hcs.first
  refine Text.dropWhile_of_head fun d hd => ?_
  cases hd
  exact Syntax.Lexeme.isBlank_of_isWordPart hc

theorem tight (hcs : WordEnds cs) : Text.Tight cs := by
  constructor
  · obtain ⟨c, rest, rfl, hc⟩ := hcs.first
    simpa using Syntax.Lexeme.isBlank_of_isWordPart hc
  · obtain ⟨front, c, rfl, hc⟩ := hcs.last
    simpa using Syntax.Lexeme.isBlank_of_isWordPart hc

theorem trim_append (hcs : WordEnds cs) {gap : List Char} (hgap : Text.IsGap gap) :
    Text.trim (cs ++ gap) = cs :=
  hcs.tight.trim_append hgap

/-- Behind a text and a gap, dots are not part of the text. -/
theorem exists_concat (hcs : WordEnds cs) {gap : List Char} (hgap : Text.IsGap gap) :
    ∃ front c, cs ++ gap = front ++ [c] ∧ c ≠ '.' := by
  rcases List.eq_nil_or_concat gap with rfl | ⟨blanks, c, rfl⟩
  · obtain ⟨front, c, rfl, hc⟩ := hcs.last
    refine ⟨front, c, List.append_nil _, ?_⟩
    rintro rfl
    exact absurd hc (by decide +kernel)
  · refine ⟨cs ++ blanks, c, by simp, ?_⟩
    rintro rfl
    exact absurd (hgap '.' (by simp)) (by decide)

end WordEnds

/-! ## What stands behind a name -/

theorem not_open_of_isGap {gap : List Char} (h : Text.IsGap gap) :
    ∀ c ∈ gap, c ≠ '<' ∧ c ≠ '[' := by
  intro c hc
  constructor
  · rintro rfl
    exact absurd (h _ hc) (by decide)
  · rintro rfl
    exact absurd (h _ hc) (by decide)

/-- What stands behind a name in a spelled type: nothing, the dots of a variable parameter, or type
arguments or dimensions, which are the `rest`. -/
inductive IsBehind : (trail rest : List Char) → Prop
  | nothing : IsBehind [] []
  | dots {gap : List Char} (hgap : Text.IsGap gap) : IsBehind (gap ++ ['.', '.', '.']) []
  | opening {gap : List Char} {c : Char} (hgap : Text.IsGap gap) (hc : c = '<' ∨ c = '[')
      (rest : List Char) : IsBehind gap (c :: rest)

namespace TypeRef

theorem dropTriples_of_ne {c : Char} (hc : c ≠ '.') (cs : List Char) :
    cutDots.dropTriples (c :: cs) = c :: cs := by
  unfold cutDots.dropTriples
  split
  · next heq => exact absurd (List.cons.inj heq).1 hc
  · rfl

theorem cutDots_concat {c : Char} (hc : c ≠ '.') (cs : List Char) :
    cutDots (cs ++ [c]) = cs ++ [c] := by
  rw [cutDots, List.reverse_append, List.reverse_singleton, List.singleton_append,
    dropTriples_of_ne hc, List.reverse_cons, List.reverse_reverse]

theorem cutDots_dots (cs : List Char) : cutDots (cs ++ ['.', '.', '.']) = cutDots cs := by
  rw [cutDots, List.reverse_append]
  rfl

theorem trim_cutDots {cs gap : List Char} (hcs : WordEnds cs) (hgap : Text.IsGap gap) :
    Text.trim (cutDots (cs ++ gap)) = cs := by
  obtain ⟨front, c, hlast, hc⟩ := hcs.exists_concat hgap
  rw [hlast, cutDots_concat hc, ← hlast, hcs.trim_append hgap]

section

variable {cs trail rest : List Char} (hcs : WordEnds cs)
include hcs

theorem trim_cutDots_trail (h : IsBehind trail rest) : Text.trim (cutDots (cs ++ trail)) = cs := by
  cases h with
  | nothing => exact trim_cutDots hcs Text.isGap_nil
  | dots hgap => rw [← List.append_assoc, cutDots_dots, trim_cutDots hcs hgap]
  | opening hgap => exact trim_cutDots hcs hgap

theorem takeWhile_trim (h : IsBehind trail rest) :
    (Text.trim (cs ++ (trail ++ rest))).takeWhile (fun c => c ≠ '<' && c ≠ '[') = cs ++ trail := by
  have hall : ∀ {ds : List Char}, (∀ c ∈ ds, c ≠ '<' ∧ c ≠ '[') → ∀ behind : List Char,
      (ds ++ behind).takeWhile (fun c => c ≠ '<' && c ≠ '[') =
        ds ++ behind.takeWhile fun c => c ≠ '<' && c ≠ '[' :=
    fun hds behind => List.takeWhile_append_of_pos fun c hc => by simpa using hds c hc
  -- What stands behind keeps its blanks only if something follows them; the name has none.
  cases h with
  | nothing =>
    rw [List.append_nil, hcs.trim_append Text.isGap_nil]
    simpa using hall hcs.not_open []
  | @dots gap hgap =>
    have hend : Text.cutEnd Text.isBlank (cs ++ (gap ++ ['.', '.', '.'])) =
        cs ++ (gap ++ ['.', '.', '.']) := by
      have hcut := Text.cutEnd_append_cons (p := Text.isBlank) (c := '.') (by decide)
        (cs ++ (gap ++ ['.', '.'])) []
      simpa [Text.cutEnd] using hcut
    rw [List.append_nil, Text.trim, hcs.cutStart, hend, hall hcs.not_open,
      hall (not_open_of_isGap hgap)]
    rfl
  | @opening gap c hgap hc rest =>
    have hstop : Text.isBlank c = false ∧ (c ≠ '<' && c ≠ '[') = false := by
      rcases hc with rfl | rfl <;> decide
    rw [Text.trim, hcs.cutStart, ← List.append_assoc, Text.cutEnd_append_cons hstop.1,
      List.append_assoc, hall hcs.not_open, hall (not_open_of_isGap hgap),
      List.takeWhile_cons_of_neg (by simpa using hstop.2), List.append_nil]

/-- The name that is looked up ends in front of what is behind it. -/
theorem lookupName_of_isBehind (h : IsBehind trail rest) :
    lookupName { name := String.ofList (cs ++ (trail ++ rest)) } = String.ofList cs := by
  unfold lookupName
  rw [String.toList_ofList, takeWhile_trim hcs h]
  exact congrArg String.ofList (trim_cutDots_trail hcs h)

end

end TypeRef

/-! ## Spelled types -/

namespace Syntax.Source

/-- Segments between dots, without type arguments. -/
def dotted (s : Segment) (more : List (Spot × Segment)) : List Char :=
  ['.'].intercalate ((s :: more.map Prod.snd).map fun t => t.name.text.toList)

/-- The dotted name of a class. -/
def dottedName (segments : Separated Segment) : String :=
  String.ofList (dotted segments.first segments.more)

/-- Type arguments stand behind the last segment alone, and there are no gaps in the name. -/
def ArgumentsLast (segments : Separated Segment) : Prop :=
  (∀ s ∈ segments.items.dropLast, s.arguments = none) ∧
    ∀ m ∈ segments.more, m.1.spaced = false ∧ m.2.name.spot.spaced = false

/-- A class type with dimensions and, for a variable parameter, dots behind it. -/
def spelledType (segments : Separated Segment) (dims : List Dimension) (dots : Option Spot) :
    List Word :=
  TypeUse.words ⟨.named segments, dims⟩ ++ dots.elim [] fun s => [s.ellipsis]

/-- The name up to its first type arguments. -/
def nameWritten : Segment → List (Spot × Segment) → List Char
  | s, [] => s.name.text.toList
  | s, (dot, s') :: more =>
    if s.arguments.isSome then s.name.text.toList
    else s.name.text.toList ++ (Token.gap dot.spaced ++ '.' :: Token.gap s'.name.spot.spaced) ++
      nameWritten s' more

section

variable {s : Segment} {more : List (Spot × Segment)}

theorem wordEnds_nameWritten (hnames : ∀ t ∈ s :: more.map Prod.snd, IsIdentifier t.name.text) :
    WordEnds (nameWritten s more) := by
  induction more generalizing s with
  | nil => exact .of_isIdentifier (hnames s List.mem_cons_self)
  | cons m more ih =>
    obtain ⟨dot, s'⟩ := m
    have hfirst := WordEnds.of_isIdentifier (hnames s List.mem_cons_self)
    unfold nameWritten
    split
    · exact hfirst
    · refine hfirst.append (ih fun t ht => hnames t (List.mem_cons_of_mem s ht)) ?_
      rw [List.forall_mem_append, List.forall_mem_cons]
      exact ⟨not_open_of_isGap (Token.isGap_gap dot.spaced), by decide,
        not_open_of_isGap (Token.isGap_gap s'.name.spot.spaced)⟩

theorem gapped_punct (spot : Spot) (c : Char) :
    (spot.punct c).token.gapped = Token.gap spot.spaced ++ [c] := by
  show Token.gap spot.spaced ++ (String.singleton c).toList = _
  rw [String.toList_singleton]

theorem gapped_word (n : Name) :
    n.word.token.gapped = Token.gap n.spot.spaced ++ n.text.toList := rfl

/-- The words stand behind a name and are no part of it. -/
def NoName (ws : List Word) : Prop :=
  ∃ trail rest, IsBehind trail rest ∧ ws.flatMap (·.token.gapped) = trail ++ rest

theorem noName_opening (spot : Spot) {c : Char} (hc : c = '<' ∨ c = '[') (ws : List Word) :
    NoName (spot.punct c :: ws) := by
  refine ⟨_, c :: ws.flatMap (·.token.gapped), .opening (Token.isGap_gap spot.spaced) hc _, ?_⟩
  rw [List.flatMap_cons, gapped_punct, List.append_assoc, List.singleton_append]

theorem noName_dims (dims : List Dimension) (dots : Option Spot) :
    NoName (dims.flatMap Dimension.words ++ dots.elim [] fun s => [s.ellipsis]) := by
  match dims, dots with
  | d :: dims, dots => exact noName_opening d.opening (.inr rfl) _
  | [], some s =>
    refine ⟨_, _, .dots (Token.isGap_gap s.spaced), ?_⟩
    show Token.gap s.spaced ++ "...".toList ++ [] = _
    simp
  | [], none => exact ⟨_, _, .nothing, rfl⟩

/-- A spelled type is its name up to the first type arguments, and words behind it. -/
theorem spelled_eq (s : Segment) (more : List (Spot × Segment)) {ws : List Word} (hws : NoName ws) :
    ∃ vs, NoName vs ∧ s.name.text.toList ++ (s.arguments.elim [] Arguments.words ++
        (Separated.wordsOf Segment.words '.' more ++ ws)).flatMap (·.token.gapped) =
      nameWritten s more ++ vs.flatMap (·.token.gapped) := by
  cases harguments : s.arguments with
  | some a =>
    have hname : nameWritten s more = s.name.text.toList := by
      cases more with
      | nil => rfl
      | cons m more => rw [nameWritten, harguments, Option.isSome_some, if_pos rfl]
    rw [hname]
    exact ⟨_, noName_opening a.opening (.inl rfl) _, rfl⟩
  | none =>
    match more with
    | [] => exact ⟨ws, hws, rfl⟩
    | (dot, s') :: more =>
      obtain ⟨vs, hvs, htail⟩ := spelled_eq s' more hws
      refine ⟨vs, hvs, ?_⟩
      rw [nameWritten, harguments, Option.isSome_none, if_neg (by decide), List.append_assoc,
        ← htail]
      simp only [Option.elim_none, List.nil_append, Separated.wordsOf_cons, Segment.words,
        List.cons_append, List.flatMap_cons, gapped_punct, gapped_word, List.append_assoc]

/-- The text of a type whose first segment is not empty. -/
theorem toList_joined_spelledType (hname : s.name.text ≠ "") (dims : List Dimension)
    (dots : Option Spot) :
    (joined (spelledType ⟨s, more⟩ dims dots)).toList =
      s.name.text.toList ++ (s.arguments.elim [] Arguments.words ++
        (Separated.wordsOf Segment.words '.' more ++ (dims.flatMap Dimension.words ++
          dots.elim [] fun s => [s.ellipsis]))).flatMap (·.token.gapped) := by
  have hwords : spelledType ⟨s, more⟩ dims dots = s.name.word ::
      (s.arguments.elim [] Arguments.words ++ (Separated.wordsOf Segment.words '.' more ++
        (dims.flatMap Dimension.words ++ dots.elim [] fun s => [s.ellipsis]))) := by
    simp [spelledType, TypeUse.words, TypeName.words, Separated.words, Segment.words]
  rw [hwords, joined, List.map_cons, Token.toList_joined_cons hname (isNewline_tokens (_ :: _)),
    List.flatMap_map]
  rfl

/-- The name that is looked up for a spelled type ends at its first type arguments. -/
theorem lookupName_spelledType
    (hnames : ∀ t ∈ s :: more.map Prod.snd, IsIdentifier t.name.text) (dims : List Dimension)
    (dots : Option Spot) :
    TypeRef.lookupName { name := joined (spelledType ⟨s, more⟩ dims dots) } =
      String.ofList (nameWritten s more) := by
  obtain ⟨vs, ⟨trail, rest, hbehind, hvs⟩, htext⟩ := spelled_eq s more (noName_dims dims dots)
  have hfirst := hnames s List.mem_cons_self
  have hspelled : joined (spelledType ⟨s, more⟩ dims dots) =
      String.ofList (nameWritten s more ++ (trail ++ rest)) := by
    rw [← String.toList_inj, toList_joined_spelledType hfirst.ne_empty, htext, hvs,
      String.toList_ofList]
  rw [hspelled]
  exact TypeRef.lookupName_of_isBehind (wordEnds_nameWritten hnames) hbehind

theorem argumentsLast_nil : ArgumentsLast ⟨s, []⟩ := by simp [ArgumentsLast, Separated.items]

theorem argumentsLast_cons {dot : Spot} {s' : Segment} :
    ArgumentsLast ⟨s, (dot, s') :: more⟩ ↔ s.arguments = none ∧ dot.spaced = false ∧
      s'.name.spot.spaced = false ∧ ArgumentsLast ⟨s', more⟩ := by
  simp only [ArgumentsLast, Separated.items, List.map_cons, List.dropLast_cons_cons,
    List.forall_mem_cons]
  grind

@[simp] theorem dotted_nil : dotted s [] = s.name.text.toList := by
  simp [dotted, List.intercalate]

@[simp] theorem dotted_cons {dot : Spot} {s' : Segment} :
    dotted s ((dot, s') :: more) = s.name.text.toList ++ '.' :: dotted s' more :=
  Text.intercalate_cons (List.cons_ne_nil _ _)

theorem wordEnds_dotted (hnames : ∀ t ∈ s :: more.map Prod.snd, IsIdentifier t.name.text) :
    WordEnds (dotted s more) := by
  induction more generalizing s with
  | nil =>
    rw [dotted_nil]
    exact .of_isIdentifier (hnames s List.mem_cons_self)
  | cons m more ih =>
    obtain ⟨dot, s'⟩ := m
    have hfirst := WordEnds.of_isIdentifier (hnames s List.mem_cons_self)
    rw [dotted_cons, List.append_cons]
    refine hfirst.append (ih fun t ht => hnames t (List.mem_cons_of_mem s ht)) ?_
    simp

theorem dot_mem_dotted (h : ¬ArgumentsLast ⟨s, more⟩) : '.' ∈ dotted s more := by
  cases more with
  | nil => exact absurd argumentsLast_nil h
  | cons m more =>
    rw [dotted_cons]
    simp

/-- A gap makes a difference in front of a character that is none. -/
theorem gap_append_eq_iff {spot : Spot} {cs ds : List Char}
    (hds : ∃ c rest, ds = c :: rest ∧ c ≠ ' ') :
    Token.gap spot.spaced ++ cs = ds ↔ spot.spaced = false ∧ cs = ds := by
  obtain ⟨c, rest, rfl, hc⟩ := hds
  unfold Token.gap
  cases spot.spaced with
  | true => simp [Ne.symm hc]
  | false => simp

/-- The name up to the first type arguments is the dotted name if those stand at its end. -/
theorem nameWritten_eq_iff (hnames : ∀ t ∈ s :: more.map Prod.snd, IsIdentifier t.name.text) :
    nameWritten s more = dotted s more ↔ ArgumentsLast ⟨s, more⟩ := by
  induction more generalizing s with
  | nil => exact iff_of_true dotted_nil.symm argumentsLast_nil
  | cons m more ih =>
    obtain ⟨dot, s'⟩ := m
    have hmore : ∀ t ∈ s' :: more.map Prod.snd, IsIdentifier t.name.text :=
      fun t ht => hnames t (List.mem_cons_of_mem s ht)
    rw [argumentsLast_cons, dotted_cons, nameWritten]
    cases harguments : s.arguments with
    -- Cut at these arguments, the name has no dot, and the dotted name goes on with one.
    | some a =>
      have hdot := (hnames s List.mem_cons_self).dot_not_mem
      refine iff_of_false (fun heq => hdot ?_) (by simp)
      rw [show s.name.text.toList = _ from heq]
      simp
    | none =>
      -- Neither the dot nor the segment behind it starts with a blank, so a gap shows as one.
      obtain ⟨c, rest, hword, hc⟩ := (wordEnds_dotted hmore).first
      have hblank : c ≠ ' ' := by
        rintro rfl
        exact absurd hc (by decide +kernel)
      simp only [Option.isSome_none, Bool.false_eq_true, if_false, true_and, List.append_assoc,
        List.append_cancel_left_eq, List.cons_append]
      rw [gap_append_eq_iff ⟨'.', _, rfl, by decide⟩, List.cons.injEq, gap_append_eq_iff
        ⟨c, rest, hword, hblank⟩, ih hmore]
      simp

end

end Syntax.Source

/-! ## Looking up spelled types -/

namespace Lookup

/-- A class of the default package whose file imports nothing. -/
def aloneDoc : ClassDoc where
  name := ""
  packagePath := ""
  kind := .classType

theorem get?_singleton (name other : String) (id : ClassId) :
    (NameMap.ofList [(name, id)]).get? other = if other = name then some id else none :=
  NameMap.get?_insert .empty name other id

theorem byName_singleton (owner : ClassDoc) {name : String} (hdot : '.' ∈ name.toList)
    (id : ClassId) : byName (.ofList [(name, id)]) owner name = some id := by
  have hne : name.isEmpty = false := by
    rw [String.isEmpty_eq_false_iff]
    rintro rfl
    cases hdot
  have hcontains : name.contains '.' = true := by
    rw [String.contains_char_eq, decide_eq_true hdot]
  rw [byName, hne, candidates, hcontains]
  simp [get?_singleton]

/-- For a class of the default package without imports, a name means itself or, behind a dot, a
class nested in that class. -/
theorem byName_aloneDoc {name other : String} (hne : other ≠ name) (hdot : "." ++ other ≠ name)
    (id : ClassId) : byName (.ofList [(name, id)]) aloneDoc other = none := by
  have hcandidates : ∀ q ∈ candidates aloneDoc other, q = other ∨ q = "." ++ other := by
    -- The only scope of the class is the one around it, whose name is empty.
    have hscopes : scopes aloneDoc.name = [""] := by decide +kernel
    have hpackage : (packageName aloneDoc.packagePath).isEmpty = true := by decide +kernel
    have hqualify : ∀ className, qualify aloneDoc.packagePath className = className := by
      intro className
      rw [qualify, hpackage]
      rfl
    have himports : aloneDoc.imports = [] := rfl
    intro q hq
    simp only [candidates, hscopes, hqualify, himports, List.flatMap_nil, List.append_nil,
      List.map_cons, List.map_nil, String.empty_append, List.mem_append, List.mem_singleton] at hq
    rcases hq with (hq | rfl) | rfl
    · split at hq
      · exact .inl (List.mem_singleton.mp hq)
      · cases hq
    · exact .inr rfl
    · exact .inl rfl
  unfold byName
  split
  · rfl
  · refine List.findSome?_eq_none_iff.mpr fun q hq => ?_
    rw [get?_singleton, if_neg]
    rcases hcandidates q hq with rfl | rfl
    · exact hne
    · exact hdot

theorem byRef_eq_none {index : NameMap ClassId} {owner : ClassDoc} {ref : TypeRef}
    (h : byName index owner ref.lookupName = none) : byRef index owner ref = none := by
  unfold byRef
  split
  · rfl
  · exact h

theorem not_isBuiltin_of_dot {ref : TypeRef} (hdot : '.' ∈ ref.lookupName.toList) :
    ref.isBuiltin = false := by
  have hnone : TypeRef.builtins.all (fun name => !name.toList.contains '.') = true := by
    decide +kernel
  rw [Bool.eq_false_iff]
  intro h
  rw [TypeRef.isBuiltin, List.contains_iff_mem] at h
  have hmem := List.all_eq_true.mp hnone _ h
  simp [hdot] at hmem

/-- Names that differ are told apart by some index, if one is dotted. -/
theorem exists_byRef_ne {ref other : TypeRef} (hdot : '.' ∈ ref.lookupName.toList)
    (hne : other.lookupName ≠ ref.lookupName) (hstart : "." ++ other.lookupName ≠ ref.lookupName) :
    ∃ index owner, byRef index owner other ≠ byRef index owner ref := by
  refine ⟨.ofList [(ref.lookupName, ⟨0⟩)], aloneDoc, ?_⟩
  have hother := byRef_eq_none (byName_aloneDoc hne hstart ⟨0⟩)
  have href : byRef (.ofList [(ref.lookupName, ⟨0⟩)]) aloneDoc ref = some ⟨0⟩ := by
    rw [byRef, if_neg (Bool.eq_false_iff.mp (not_isBuiltin_of_dot hdot))]
    exact byName_singleton aloneDoc hdot ⟨0⟩
  rw [hother, href]
  exact Option.some_ne_none _ |>.symm

end Lookup

namespace Syntax.Source

variable {segments : Separated Segment}

theorem lookupName_dottedName (hnames : ∀ s ∈ segments.items, IsIdentifier s.name.text) :
    TypeRef.lookupName { name := dottedName segments } = dottedName segments := by
  have hlookup := TypeRef.lookupName_of_isBehind (wordEnds_dotted hnames) .nothing
  rwa [List.append_nil, List.append_nil] at hlookup

/-- **A spelled type is looked up under its dotted name exactly if type arguments stand behind the
last segment alone**, and there are no gaps around the dots. The same decides whether it means the
class that the dotted name means, from every class and for every index. -/
theorem lookupName_eq_dottedName_iff (segments : Separated Segment) (dims : List Dimension)
    (dots : Option Spot) (hnames : ∀ s ∈ segments.items, IsIdentifier s.name.text) :
    let spelled : TypeRef := { name := joined (spelledType segments dims dots) }
    (spelled.lookupName = dottedName segments ↔ ArgumentsLast segments) ∧
      ((∀ index owner, Lookup.byRef index owner spelled =
        Lookup.byRef index owner { name := dottedName segments }) ↔ ArgumentsLast segments) := by
  intro spelled
  have hdotted := lookupName_dottedName hnames
  have hlookup : spelled.lookupName = dottedName segments ↔ ArgumentsLast segments := by
    rw [show spelled.lookupName = _ from lookupName_spelledType hnames dims dots, dottedName,
      String.ofList_inj]
    exact nameWritten_eq_iff hnames
  refine ⟨hlookup, fun hall => ?_, fun hlast index owner => ?_⟩
  · -- A name that is not looked up as such has a dot, and an index of that name alone tells.
    refine Classical.byContradiction fun hnot => ?_
    have hne : spelled.lookupName ≠ TypeRef.lookupName { name := dottedName segments } := by
      rw [hdotted]
      exact mt hlookup.mp hnot
    have hdot : '.' ∈ (TypeRef.lookupName { name := dottedName segments }).toList := by
      rw [hdotted, dottedName, String.toList_ofList]
      exact dot_mem_dotted hnot
    have hstart :
        "." ++ spelled.lookupName ≠ TypeRef.lookupName { name := dottedName segments } := by
      obtain ⟨c, rest, hword, hc⟩ := (wordEnds_dotted hnames).first
      have hdot : ".".toList = ['.'] := rfl
      rw [hdotted, ne_eq, ← String.toList_inj, String.toList_append, hdot, dottedName]
      intro heq
      obtain ⟨rfl, -⟩ := List.cons.inj (heq.trans (String.toList_ofList.trans hword))
      exact absurd hc (by decide +kernel)
    obtain ⟨index, owner, hdiffer⟩ := Lookup.exists_byRef_ne hdot hne hstart
    exact hdiffer (hall index owner)
  · have hname := hlookup.mpr hlast
    rw [Lookup.byRef, Lookup.byRef, TypeRef.isBuiltin, TypeRef.isBuiltin, hname, hdotted]

/-- A spot in a line, behind a gap or not. -/
def inLine (column : Nat) (spaced : Bool) : Spot := ⟨[], ⟨1, column⟩, spaced⟩

/-- `Map.Entry<K, V>`. -/
def mapEntry : Separated Segment where
  first := ⟨⟨"Map", inLine 1 false⟩, none⟩
  more := [(inLine 4 false, ⟨⟨"Entry", inLine 5 false⟩, some
    { opening := inLine 10 false
      inside := [(inLine 11 false).ident "K", (inLine 12 false).punct ',',
        (inLine 14 true).ident "V"]
      closing := inLine 15 false
      angled := .word (.inl rfl) (.word (.inr (.inr ⟨rfl, by decide⟩)) (.word (.inl rfl) .nil)) }⟩)]

theorem lookupName_eq_dottedName_iff_mapEntry :
    joined (spelledType mapEntry [⟨inLine 16 false, inLine 17 false⟩] none) = "Map.Entry<K, V>[]" ∧
      TypeRef.lookupName { name := "Map.Entry<K, V>[]" } = "Map.Entry" ∧
      ∀ index owner, Lookup.byRef index owner { name := "Map.Entry<K, V>[]" } =
        Lookup.byRef index owner { name := "Map.Entry" } := by
  have hspelled : joined (spelledType mapEntry [⟨inLine 16 false, inLine 17 false⟩] none) =
      "Map.Entry<K, V>[]" := by decide +kernel
  have hdotted : dottedName mapEntry = "Map.Entry" := by decide +kernel
  have hnames : ∀ s ∈ mapEntry.items, IsIdentifier s.name.text := by
    refine List.forall_mem_cons.mpr ⟨?_, List.forall_mem_singleton.mpr ?_⟩
    · exact ⟨'M', ['a', 'p'], rfl, by decide +kernel, List.all_eq_true.mp (by decide +kernel)⟩
    · exact ⟨'E', ['n', 't', 'r', 'y'], rfl, by decide +kernel,
        List.all_eq_true.mp (by decide +kernel)⟩
  have hlast : ArgumentsLast mapEntry :=
    argumentsLast_cons.mpr ⟨rfl, rfl, rfl, argumentsLast_nil⟩
  obtain ⟨hlookup, hresolve⟩ := lookupName_eq_dottedName_iff mapEntry
    [⟨inLine 16 false, inLine 17 false⟩] none hnames
  rw [hspelled, hdotted] at hlookup hresolve
  exact ⟨hspelled, hlookup.mpr hlast, hresolve.mpr hlast⟩

/-- `Outer<String>.Inner`. -/
def innerOfGeneric : Separated Segment where
  first := ⟨⟨"Outer", inLine 1 false⟩, some
    { opening := inLine 6 false
      inside := [(inLine 7 false).ident "String"]
      closing := inLine 13 false
      angled := .word (.inl rfl) .nil }⟩
  more := [(inLine 14 false, ⟨⟨"Inner", inLine 15 false⟩, none⟩)]

/-- With type arguments on the outer class, a nested class is taken for the outer one. -/
theorem inner_of_generic_means_outer :
    joined (spelledType innerOfGeneric [] none) = "Outer<String>.Inner" ∧
      dottedName innerOfGeneric = "Outer.Inner" ∧
      TypeRef.lookupName { name := "Outer<String>.Inner" } = "Outer" ∧
      let index : NameMap ClassId := .ofList [("Outer", ⟨0⟩), ("Outer.Inner", ⟨1⟩)]
      Lookup.byRef index Lookup.aloneDoc { name := "Outer<String>.Inner" } = some ⟨0⟩ ∧
        Lookup.byRef index Lookup.aloneDoc { name := "Outer.Inner" } = some ⟨1⟩ := by
  refine ⟨by decide +kernel, by decide +kernel, by decide +kernel, ?_⟩
  simp only [Lookup.byRef, Lookup.byName, Lookup.candidates, String.contains_char_eq]
  decide +kernel

end Syntax.Source

end ApiDoc
