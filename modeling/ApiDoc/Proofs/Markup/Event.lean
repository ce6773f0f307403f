import ApiDoc.Proofs.Markup.Grammar

/-!
# Texts split into events

The reader of events meets the grammar: what stands in front of `rest` is read as an event exactly
if the grammar says so (`reads_iff`). Behind `<` it tries the forms one after the other, so each of
them is taken only where those before it do not fit (`first_open`).

Reading goes on right behind a piece. `Splits cs pieces rest` says that `cs` starts with pieces that
are read one after the other, and `rest` is left. Every text splits up to its end or up to a place
where it is `Stuck`, because no event can be read there: `exists_splits`.
-/

namespace ApiDoc.Markup

open Text (byteLength)

namespace Event

variable {c : Char} {cs rest : List Char}

/-! ## Tags -/

theorem startTag?_eq_some_iff {event : Event} :
    startTag? cs = some (event, rest) ↔ ∃ (name : Name) (attributes space : List Char)
      (selfClosing : Bool), event = .startTag name.chars selfClosing ∧
      cs = name.chars ++ (attributes ++ (space ++ (closing selfClosing ++ rest))) ∧
      AreAttributes attributes (space ++ (closing selfClosing ++ rest)) ∧
      ∀ c ∈ space, isSpace c = true := by
  constructor
  · intro h
    simp only [startTag?, Option.bind_eq_bind, Option.bind_eq_some_iff, Option.pure_def,
      Option.some.injEq, Prod.mk.injEq] at h
    obtain ⟨⟨chars, behind⟩, hname, ⟨selfClosing, behind'⟩, hend, rfl, rfl⟩ := h
    obtain ⟨name, rfl, rfl, -⟩ := name?_eq_some_iff.mp hname
    obtain ⟨attributes, space, rfl, hattributes, hspace⟩ := tagEnd?_eq_some_iff.mp hend
    exact ⟨name, attributes, space, selfClosing, rfl, rfl, hattributes, hspace⟩
  · rintro ⟨name, attributes, space, selfClosing, rfl, rfl, hattributes, hspace⟩
    have hname := name?_eq_some_iff.mpr
      ⟨name, rfl, rfl, isNamePart_of_areAttributes hattributes hspace⟩
    have hend := tagEnd?_eq_some_iff.mpr ⟨attributes, space, rfl, hattributes, hspace⟩
    simp [startTag?, hname, hend]

theorem endTag?_eq_some_iff {event : Event} :
    endTag? cs = some (event, rest) ↔ ∃ (name : Name) (space : List Char),
      event = .endTag name.chars ∧ cs = name.chars ++ (space ++ '>' :: rest) ∧
      ∀ c ∈ space, isSpace c = true := by
  constructor
  · intro h
    simp only [endTag?, Option.bind_eq_bind, Option.bind_eq_some_iff] at h
    obtain ⟨⟨chars, behind⟩, hname, h⟩ := h
    obtain ⟨name, rfl, rfl, -⟩ := name?_eq_some_iff.mp hname
    split at h
    · next behind' hdrop =>
      cases h
      obtain ⟨space, rfl, hspace, -⟩ := Text.dropWhile_eq_iff.mp hdrop
      exact ⟨name, space, rfl, rfl, hspace⟩
    · cases h
  · rintro ⟨name, space, rfl, rfl, hspace⟩
    -- The name ends there, as blanks and the bracket are no part of a name.
    have hhead : ∀ c ∈ (space ++ '>' :: rest).head?, isNamePart c = false :=
      isNamePart_of_areAttributes (.nil (space ++ (closing false ++ rest))) hspace
    have hname := name?_eq_some_iff.mpr ⟨name, rfl, rfl, hhead⟩
    have hdrop : (space ++ '>' :: rest).dropWhile isSpace = '>' :: rest :=
      Text.dropWhile_eq_iff.mpr ⟨space, rfl, hspace, by simp [isSpace]⟩
    simp [endTag?, hname, hdrop]

/-! ## Marks -/

/-- Read what stands between two marks. -/
def between? (start finish : List Char) (event : List Char → Event) (cs : List Char) :
    Option (Event × List Char) :=
  ((Text.afterStart? start cs).bind (Text.cutAt? finish)).map fun cut => (event cut.1, cut.2)

theorem between?_eq_some_iff {start finish : List Char} (hfinish : Text.EndsOnce finish)
    {event : List Char → Event} {e : Event} :
    between? start finish event cs = some (e, rest) ↔ ∃ raw, e = event raw ∧
      cs = start ++ (raw ++ finish) ++ rest ∧ ¬ finish <:+: raw := by
  simp only [between?, Option.map_eq_some_iff, Option.bind_eq_some_iff,
    Text.afterStart?_eq_some_iff]
  constructor
  · rintro ⟨⟨raw, behind⟩, ⟨inner, rfl, hcut⟩, heq⟩
    obtain ⟨rfl, rfl⟩ := Prod.mk.inj heq
    obtain ⟨rfl, hraw⟩ := hfinish.cutAt?_eq_some_iff.mp hcut
    exact ⟨raw, rfl, by simp, hraw⟩
  · rintro ⟨raw, rfl, rfl, hraw⟩
    refine ⟨(raw, rest), ⟨raw ++ finish ++ rest, by simp, ?_⟩, rfl⟩
    exact hfinish.cutAt?_eq_some_iff.mpr ⟨rfl, hraw⟩

theorem between?_eq_none_iff {start finish : List Char} {event : List Char → Event} :
    between? start finish event cs = none ↔
      ∀ behind, cs = start ++ behind → ¬ finish <:+: behind := by
  simp only [between?, Option.map_eq_none_iff, Option.bind_eq_none_iff,
    Text.afterStart?_eq_some_iff, Text.cutAt?_eq_none_iff]
  constructor
  · rintro h behind rfl ⟨front, rest, heq⟩
    exact h behind rfl front rest heq.symm
  · rintro h behind rfl front rest rfl
    exact h _ rfl ⟨front, rest, rfl⟩

theorem cdata?_eq (cs : List Char) :
    cdata? cs = between? Enclosure.rawText.start Enclosure.rawText.finish .cdata cs := by
  rw [between?, Option.map_eq_bind, Option.bind_assoc]
  rfl

theorem delimited?_eq (start finish cs : List Char) :
    delimited? start finish cs = between? start finish (fun _ => .ignored) cs := by
  rw [between?, Option.map_eq_bind, Option.bind_assoc]
  rfl

/-! ## The first event -/

/-- Is the event something that was read? -/
def isRead : Event → Bool
  | .malformed _ => false
  | _ => true

/-- Behind `<`, the forms are tried one after the other. -/
theorem first_open (cs : List Char) :
    first '<' cs =
      ((between? Enclosure.rawText.start Enclosure.rawText.finish .cdata ('<' :: cs)).or
        ((between? Enclosure.comment.start Enclosure.comment.finish (fun _ => .ignored)
          ('<' :: cs)).or
        ((between? "<?".toList "?>".toList (fun _ => .ignored) ('<' :: cs)).or
        ((between? "<!".toList ">".toList (fun _ => .ignored) ('<' :: cs)).or
          (tag? ('<' :: cs)))))).getD (.malformed ('<' :: cs), []) := by
  rw [first, if_neg (by simp), cdata?_eq, ignored?, delimited?_eq, delimited?_eq, delimited?_eq,
    Option.or_assoc, Option.or_assoc]
  rfl

/-- A letter behind `<` leads to a start tag, because all marks start otherwise. -/
theorem first_of_isAlpha (hc : c.isAlpha = true) (cs : List Char) :
    first '<' (c :: cs) = (startTag? (c :: cs)).getD (.malformed ('<' :: c :: cs), []) := by
  have hother : ∀ d : Char, d.isAlpha = false → (d == c) = false := by
    intro d hd
    rw [beq_eq_false_iff_ne]
    rintro rfl
    exact Bool.noConfusion (hd.symm.trans hc)
  have hslash : c ≠ '/' := by
    rintro rfl
    exact absurd hc (by decide)
  simp [first, cdata?, ignored?, delimited?, Text.afterStart?, List.isPrefixOf,
    hother '!' (by decide), hother '?' (by decide), tag?, hslash]

theorem endsOnce_finish (kind : Enclosure) : Text.EndsOnce kind.finish := by
  cases kind with
  | comment => exact ⟨['-', '-'], '>', rfl, by decide⟩
  | rawText => exact ⟨[']', ']'], '>', rfl, by decide⟩

theorem endsOnce_question : Text.EndsOnce "?>".toList := ⟨['?'], '>', rfl, by decide⟩

theorem endsOnce_greater : Text.EndsOnce ">".toList := ⟨[], '>', rfl, by decide⟩

theorem greater_infix_iff : ">".toList <:+: cs ↔ '>' ∈ cs := by
  constructor
  · intro h
    exact h.subset (by decide)
  · intro h
    obtain ⟨front, rest, rfl⟩ := List.append_of_mem h
    exact ⟨front, rest, by simp⟩

/-- What the grammar says is read. -/
theorem Reads.first_eq {piece : List Char} {event : Event} (h : Reads piece event rest) :
    ∃ c cs, piece = c :: cs ∧ first c (cs ++ rest) = (event, rest) ∧ event.isRead = true := by
  cases h with
  | @text c cs _ hcs hrest =>
    rw [List.mem_cons, not_or] at hcs
    have hfront : ∀ d ∈ cs, decide (d ≠ '<') = true := by
      intro d hd
      have hne : d ≠ '<' := fun heq => hcs.2 (heq ▸ hd)
      simpa using hne
    obtain ⟨htake, hdrop⟩ := Text.takeWhile_dropWhile_append hfront (by simpa using hrest)
    refine ⟨c, cs, rfl, ?_, rfl⟩
    rw [first, if_pos (Ne.symm hcs.1), htake, hdrop]
  | @enclosed kind cs _ hcs =>
    refine ⟨'<', '!' :: (kind.label ++ (cs ++ kind.finish)), rfl, ?_, by cases kind <;> rfl⟩
    have hread : ∀ event : List Char → Event, between? kind.start kind.finish event
        ('<' :: ('!' :: (kind.label ++ (cs ++ kind.finish)) ++ rest)) = some (event cs, rest) :=
      fun event => (between?_eq_some_iff (endsOnce_finish kind)).mpr ⟨cs, rfl, rfl, hcs⟩
    rw [first_open]
    cases kind with
    | comment =>
      rw [hread]
      rfl
    | rawText =>
      rw [hread]
      rfl
  | @instruction cs _ hcs =>
    refine ⟨'<', '?' :: (cs ++ "?>".toList), rfl, ?_, rfl⟩
    have hread : between? "<?".toList "?>".toList (fun _ => .ignored)
        ('<' :: ('?' :: (cs ++ "?>".toList) ++ rest)) = some (.ignored, rest) :=
      (between?_eq_some_iff endsOnce_question).mpr ⟨cs, rfl, rfl, hcs⟩
    rw [first_open, hread]
    rfl
  | @declaration cs _ hcs hopen =>
    refine ⟨'<', '!' :: (cs ++ ['>']), rfl, ?_, rfl⟩
    -- an opening whose end comes would be read first
    have hnone : ∀ (kind : Enclosure) (event : List Char → Event),
        between? kind.start kind.finish event ('<' :: ('!' :: (cs ++ ['>']) ++ rest)) = none := by
      intro kind event
      refine between?_eq_none_iff.mpr fun behind heq => hopen kind behind ?_
      simpa [Enclosure.start] using heq
    have hread : between? "<!".toList ">".toList (fun _ => .ignored)
        ('<' :: ('!' :: (cs ++ ['>']) ++ rest)) = some (.ignored, rest) :=
      (between?_eq_some_iff endsOnce_greater).mpr ⟨cs, rfl, rfl, mt greater_infix_iff.mp hcs⟩
    rw [first_open, hnone, hnone, hread]
    rfl
  | @startTag name attributes space _ selfClosing hattributes hspace =>
    refine ⟨'<', _, rfl, ?_, rfl⟩
    have hread := startTag?_eq_some_iff.mpr
      ⟨name, attributes, space, selfClosing, rfl, rfl, hattributes, hspace⟩
    simp only [Name.chars, List.append_assoc, List.cons_append] at hread ⊢
    rw [first_of_isAlpha name.isAlpha_first, hread, Option.getD_some]
  | @endTag name space _ hspace =>
    refine ⟨'<', _, rfl, ?_, rfl⟩
    have htag : tag? ('<' :: '/' :: (name.chars ++ (space ++ '>' :: rest))) =
        some (.endTag name.chars, rest) :=
      endTag?_eq_some_iff.mpr ⟨name, space, rfl, rfl, hspace⟩
    simp only [List.append_assoc, List.cons_append, List.nil_append]
    rw [first_open, htag]
    rfl

theorem reads_text (hc : c ≠ '<') (cs : List Char) :
    Reads (c :: cs.takeWhile (· ≠ '<')) (.text (c :: cs.takeWhile (· ≠ '<')))
      (cs.dropWhile (· ≠ '<')) := by
  obtain ⟨-, -, -, hrest⟩ := Text.dropWhile_eq_iff.mp (Eq.refl (cs.dropWhile (· ≠ '<')))
  refine .text ?_ (by simpa using hrest)
  rw [List.mem_cons, not_or]
  refine ⟨Ne.symm hc, fun hmem => ?_⟩
  simpa using List.all_eq_true.mp List.all_takeWhile '<' hmem

/-- What is read behind `<` as a tag is one. -/
theorem exists_reads_of_tag? {event : Event} (h : tag? cs = some (event, rest)) :
    ∃ piece, cs = piece ++ rest ∧ Reads piece event rest := by
  unfold tag? at h
  split at h
  · obtain ⟨name, space, rfl, rfl, hspace⟩ := endTag?_eq_some_iff.mp h
    exact ⟨_, by simp, .endTag name hspace⟩
  · obtain ⟨name, attributes, space, selfClosing, rfl, rfl, hattributes, hspace⟩ :=
      startTag?_eq_some_iff.mp h
    exact ⟨_, by simp, .startTag name hattributes hspace⟩
  · cases h

/-- What is read is what the grammar says, or nothing can be read. -/
theorem exists_reads_or_malformed (c : Char) (cs : List Char) :
    (∃ piece event rest, c :: cs = piece ++ rest ∧ first c cs = (event, rest) ∧
      Reads piece event rest) ∨ first c cs = (.malformed (c :: cs), []) := by
  by_cases hc : c = '<'
  · subst hc
    rw [first_open]
    generalize hread : Option.or _ _ = read
    cases read with
    | none => exact .inr rfl
    | some found =>
      obtain ⟨event, rest⟩ := found
      suffices hpiece : ∃ piece, '<' :: cs = piece ++ rest ∧ Reads piece event rest by
        obtain ⟨piece, heq, hreads⟩ := hpiece
        exact .inl ⟨piece, event, rest, heq, rfl, hreads⟩
      -- the readers are tried in order; that those before it failed is what a declaration needs to
      -- know
      rcases Option.or_eq_some_iff.mp hread with hread | ⟨hraw, hread⟩
      · obtain ⟨raw, rfl, heq, hfinish⟩ :=
          (between?_eq_some_iff (endsOnce_finish .rawText)).mp hread
        exact ⟨_, heq, .enclosed .rawText hfinish⟩
      rcases Option.or_eq_some_iff.mp hread with hread | ⟨hcomment, hread⟩
      · obtain ⟨raw, rfl, heq, hfinish⟩ :=
          (between?_eq_some_iff (endsOnce_finish .comment)).mp hread
        exact ⟨_, heq, .enclosed .comment hfinish⟩
      rcases Option.or_eq_some_iff.mp hread with hread | ⟨-, hread⟩
      · obtain ⟨raw, rfl, heq, hfinish⟩ := (between?_eq_some_iff endsOnce_question).mp hread
        exact ⟨_, heq, .instruction hfinish⟩
      rcases Option.or_eq_some_iff.mp hread with hread | ⟨-, hread⟩
      · obtain ⟨raw, rfl, heq, hfinish⟩ := (between?_eq_some_iff endsOnce_greater).mp hread
        refine ⟨_, heq, .declaration (mt greater_infix_iff.mpr hfinish) ?_⟩
        intro kind behind hbehind
        have hstart : '<' :: cs = kind.start ++ behind := by
          rw [heq, Enclosure.start, List.cons_append, List.cons_append, ← hbehind]
          simp
        cases kind with
        | comment => exact between?_eq_none_iff.mp hcomment behind hstart
        | rawText => exact between?_eq_none_iff.mp hraw behind hstart
      · exact exists_reads_of_tag? hread
  · refine .inl ⟨_, _, _, ?_, by rw [first, if_pos hc], reads_text hc cs⟩
    rw [List.cons_append, List.takeWhile_append_dropWhile]

/-- **The reader meets the grammar.** -/
theorem reads_iff {piece : List Char} {event : Event} :
    Reads piece event rest ↔
      ∃ c cs, piece = c :: cs ∧ first c (cs ++ rest) = (event, rest) ∧ event.isRead = true := by
  refine ⟨Reads.first_eq, ?_⟩
  rintro ⟨c, cs, rfl, hfirst, hread⟩
  rcases exists_reads_or_malformed c (cs ++ rest) with
    ⟨piece, other, behind, heq, hfound, hreads⟩ | hmalformed
  · obtain ⟨rfl, rfl⟩ := Prod.mk.inj (hfound.symm.trans hfirst)
    rw [← List.cons_append] at heq
    rwa [List.append_cancel_right heq]
  · obtain ⟨rfl, -⟩ := Prod.mk.inj (hmalformed.symm.trans hfirst)
    cases hread

/-- A tag, a comment or a declaration ends in `>`. -/
theorem Reads.greater_mem {piece : List Char} {event : Event} (h : Reads piece event rest)
    (hpiece : piece.head? = some '<') : '>' ∈ piece := by
  cases h with
  | text hcs hrest =>
    cases hpiece
    exact absurd List.mem_cons_self hcs
  | enclosed kind hcs => cases kind <;> simp [Enclosure.finish]
  | instruction hcs => simp
  | declaration hcs hopen => simp
  | @startTag name attributes space _ selfClosing hattributes hspace =>
    cases selfClosing <;> simp [closing]
  | endTag name hspace => simp

/-- Anything else is text. -/
theorem Reads.eq_text {piece : List Char} {event : Event} (h : Reads piece event rest)
    (hpiece : piece.head? ≠ some '<') :
    event = .text piece ∧ '<' ∉ piece ∧ ∀ d ∈ rest.head?, d = '<' := by
  cases h with
  | text hcs hrest => exact ⟨rfl, hcs, hrest⟩
  | enclosed kind hcs => exact absurd rfl hpiece
  | instruction hcs => exact absurd rfl hpiece
  | declaration hcs hopen => exact absurd rfl hpiece
  | startTag name hattributes hspace => exact absurd rfl hpiece
  | endTag name hspace => exact absurd rfl hpiece

theorem first_of_stuck (h : Stuck (c :: cs)) : first c cs = (.malformed (c :: cs), []) := by
  rcases exists_reads_or_malformed c cs with ⟨piece, event, rest, heq, -, hreads⟩ | hmalformed
  · exact absurd hreads (h.2 piece event rest heq)
  · exact hmalformed

theorem exists_reads_or_stuck (hcs : cs ≠ []) :
    (∃ piece event rest, cs = piece ++ rest ∧ Reads piece event rest) ∨ Stuck cs := by
  by_cases h : ∃ piece event rest, cs = piece ++ rest ∧ Reads piece event rest
  · exact .inl h
  · exact .inr ⟨hcs, fun piece event rest heq hreads => h ⟨piece, event, rest, heq, hreads⟩⟩

/-- The first event of a text, and the events behind it. -/
theorem readFrom_cons {event : Event} (offset : Nat) (h : first c (cs ++ rest) = (event, rest)) :
    readFrom offset (c :: (cs ++ rest)) =
      (offset, event) :: readFrom (offset + byteLength (c :: cs)) rest := by
  have hused : (c :: (cs ++ rest)).length - rest.length = cs.length + 1 := by
    simp
    omega
  rw [readFrom]
  simp only [h, hused]
  simp

end Event

/-! ## All events -/

/-- A piece of a text with the event that it is read as. -/
structure Piece where
  chars : List Char
  event : Event

/-- The text of pieces. -/
def Piece.text (pieces : List Piece) : List Char := pieces.flatMap Piece.chars

/-- `cs` starts with `pieces`, each of which is read as its event, and `rest` is behind them. -/
inductive Splits : (cs : List Char) → (pieces : List Piece) → (rest : List Char) → Prop
  | none (rest : List Char) : Splits rest [] rest
  | piece (piece : Piece) {cs : List Char} {pieces : List Piece} {rest : List Char} :
      Event.Reads piece.chars piece.event cs → Splits cs pieces rest →
        Splits (piece.chars ++ cs) (piece :: pieces) rest

namespace Splits

variable {cs rest : List Char} {pieces : List Piece}

theorem eq_append (h : Splits cs pieces rest) : cs = Piece.text pieces ++ rest := by
  induction h with
  | none rest => rfl
  | piece piece hreads hsplits ih =>
    rw [Piece.text, List.flatMap_cons, List.append_assoc]
    exact congrArg _ ih

/-- Further pieces can be split off what is left. -/
theorem append {more : List Piece} {rest' : List Char} (h : Splits cs pieces rest)
    (hmore : Splits rest more rest') : Splits cs (pieces ++ more) rest' := by
  induction h with
  | none rest => exact hmore
  | piece piece hreads _ ih => exact .piece piece hreads (ih hmore)

theorem concat {piece : Piece} (h : Splits cs pieces (piece.chars ++ rest))
    (hreads : Event.Reads piece.chars piece.event rest) : Splits cs (pieces ++ [piece]) rest :=
  h.append (.piece piece hreads (.none rest))

end Splits

/-- A text splits into events up to its end, or up to where it is stuck. -/
theorem exists_splits (cs : List Char) :
    ∃ pieces rest, Splits cs pieces rest ∧ (rest = [] ∨ Event.Stuck rest) := by
  induction hlength : cs.length using Nat.strongRecOn generalizing cs with
  | ind n ih =>
    by_cases hcs : cs = []
    · exact ⟨[], [], hcs ▸ .none [], .inl rfl⟩
    · rcases Event.exists_reads_or_stuck hcs with ⟨piece, event, behind, rfl, hreads⟩ | hstuck
      · have hshorter : behind.length < n := by
          obtain ⟨c, piece, rfl, -⟩ := hreads.first_eq
          simp only [List.length_append, List.length_cons] at hlength
          omega
        obtain ⟨pieces, rest, hsplits, hend⟩ := ih behind.length hshorter behind rfl
        exact ⟨_, rest, .piece ⟨piece, event⟩ hreads hsplits, hend⟩
      · exact ⟨[], cs, .none cs, .inr hstuck⟩

end ApiDoc.Markup
