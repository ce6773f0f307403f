import ApiDoc.Proofs.Syntax.Lexeme

/-!
# What a lexeme looks ahead at

The rules of `Starts` decide which lexeme a text starts with (`Starts.first_eq`): no two of them
apply to one text. A lexeme that is a token looks at two characters behind it
at most, and never past a blank. So it is read in the same way before any text that agrees with the
one it was read before up to the next blank: `Starts.of_agrees`. `Splits` puts the rules together
to the lexemes of a text (`split_eq_ok_iff`).
-/

namespace ApiDoc.Syntax.Lexeme

variable {rest rest' text : List Char} {c quote : Char} {kind : LexemeKind} {p : Char → Bool}
  {l : Lexeme}

/-! ## Rules -/

/-- The characters that the rules for gaps, comments and literals are about. -/
def reserved : List Char := [' ', '\t', '\r', '\x0c', '\n', '/', '"', '\'']

theorem not_mem_reserved_of_isWordStart (h : isWordStart c = true) : c ∉ reserved := by
  have hnone : reserved.all (fun d => !isWordStart d) = true := by decide +kernel
  intro hmem
  simpa [h] using List.all_eq_true.mp hnone c hmem

theorem mem_digits_of_isDigit (h : c.isDigit = true) :
    c ∈ ['0', '1', '2', '3', '4', '5', '6', '7', '8', '9'] := by
  simp only [Char.isDigit, Bool.and_eq_true, decide_eq_true_eq] at h
  have hlow : 48 ≤ c.toNat := h.1
  have hhigh : c.toNat ≤ 57 := h.2
  rw [← Char.ofNat_toNat c]
  generalize c.toNat = n at hlow hhigh
  have hn : n = 48 ∨ n = 49 ∨ n = 50 ∨ n = 51 ∨ n = 52 ∨ n = 53 ∨ n = 54 ∨ n = 55 ∨ n = 56 ∨
      n = 57 := by omega
  rcases hn with rfl | rfl | rfl | rfl | rfl | rfl | rfl | rfl | rfl | rfl <;> decide

theorem not_reserved_of_isDigit (h : c.isDigit = true) : c ∉ reserved ∧ isWordStart c = false := by
  have hall : ['0', '1', '2', '3', '4', '5', '6', '7', '8', '9'].all
      (fun d => !reserved.contains d && !isWordStart d) = true := by decide +kernel
  simpa using List.all_eq_true.mp hall c (mem_digits_of_isDigit h)

theorem not_reserved_of_mem_punctuation (h : c ∈ punctuation) :
    (c ∉ reserved ∨ c = '/') ∧ isWordStart c = false ∧ c.isDigit = false := by
  have hall : punctuation.all (fun d => (!reserved.contains d || d = '/') && !isWordStart d &&
      !d.isDigit) = true := by decide +kernel
  have hc := List.all_eq_true.mp hall c h
  simpa [and_assoc] using hc

theorem not_reserved (h : c ∉ reserved) :
    isGap c = false ∧ c ≠ '\n' ∧ c ≠ '/' ∧ c ≠ '"' ∧ c ≠ '\'' := by
  simp only [reserved, List.mem_cons, List.not_mem_nil, not_or] at h
  simp [isGap, h]

/-- No two rules apply to one text, so the order in which they are tried does not matter. -/
theorem Starts.first_eq {cs : List Char} (h : Starts c cs kind text) :
    first c cs = .ok (kind, text) := by
  cases h with
  | blank hc => rw [first, if_pos hc]
  | lineFeed hc =>
    subst hc
    rfl
  | lineComment hc hcs =>
    subst hc
    simp [first, isGap, hcs]
  | comment hc hcs hbody =>
    subst hc
    simp [first, isGap, hcs, hbody]
  | literal hc htext => rcases hc with rfl | rfl <;> simp [first, isGap, htext]
  -- A letter is none of the characters that the rules before ask for.
  | word hc =>
    have hc' := not_reserved (not_mem_reserved_of_isWordStart hc)
    simp [first, hc', hc]
  | number hc =>
    obtain ⟨hreserved, hword⟩ := not_reserved_of_isDigit hc
    have hc' := not_reserved hreserved
    simp [first, hc', hc, hword]
  | ellipsis hc hcs =>
    subst hc
    have hword : isWordStart '.' = false := by decide +kernel
    simp [first, isGap, hcs, hword]
  | punct hc hslash hdot =>
    obtain ⟨hreserved, hword, hdigit⟩ := not_reserved_of_mem_punctuation hc
    rcases hreserved with hreserved | rfl
    · have hc' := not_reserved hreserved
      simpa [first, hc', hc, hword, hdigit] using hdot
    · simp [first, isGap, hslash, hc, hword, hdigit]

/-! ## Texts that agree up to a blank -/

/-- Up to its first blank, the second text reads as the first one does. -/
inductive Agrees : List Char → List Char → Prop
  | nil {cs : List Char} : Agrees cs []
  | blank {cs ds : List Char} : Agrees cs (' ' :: ds)
  | cons {cs ds : List Char} (c : Char) (h : Agrees cs ds) : Agrees (c :: cs) (c :: ds)

namespace Agrees

variable {cs ds : List Char}

theorem append (h : Agrees cs ds) (text : List Char) : Agrees (text ++ cs) (text ++ ds) := by
  induction text with
  | nil => exact h
  | cons c text ih => exact .cons c ih

/-- A character other than a blank is the same in both. -/
theorem head? (h : Agrees cs ds) (hc : ds.head? = some c) (hne : c ≠ ' ') : cs.head? = some c := by
  cases h with
  | nil => cases hc
  | blank =>
    cases hc
    exact absurd rfl hne
  | cons d h => exact hc

theorem take_two {d : Char} (h : Agrees cs ds) (hds : ds.take 2 = [c, d]) (hc : c ≠ ' ')
    (hd : d ≠ ' ') : cs.take 2 = [c, d] := by
  cases h with
  | nil => cases hds
  | blank => exact absurd (List.cons.inj hds).1.symm hc
  | cons c' h =>
    cases h with
    | nil => cases hds
    | blank => exact absurd (List.cons.inj (List.cons.inj hds).2).1.symm hd
    | cons d' h => exact hds

/-- A run that blanks end stops where it stopped. -/
theorem takeWhile_eq_nil (hp : p ' ' = false) (h : Agrees cs ds) (hcs : cs.takeWhile p = []) :
    ds.takeWhile p = [] := by
  cases h with
  | nil => rfl
  | blank => rw [List.takeWhile_cons, hp, if_neg Bool.false_ne_true]
  | cons c h =>
    cases hc : p c with
    | true => simp [hc] at hcs
    | false => simp [hc]

end Agrees

/-- A run that is taken whole goes on to where the text behind it stops it. -/
theorem takeWhile_append_eq_iff :
    (text ++ rest).takeWhile p = text ↔ (∀ c ∈ text, p c = true) ∧ rest.takeWhile p = [] := by
  constructor
  · intro h
    have hall : ∀ c ∈ text, p c = true := fun c hc =>
      List.all_eq_true.mp List.all_takeWhile c (h.symm ▸ hc)
    refine ⟨hall, ?_⟩
    rw [List.takeWhile_append_of_pos hall] at h
    exact List.append_cancel_left (h.trans (List.append_nil text).symm)
  · rintro ⟨hall, hrest⟩
    rw [List.takeWhile_append_of_pos hall, hrest, List.append_nil]

theorem Agrees.takeWhile_append (hp : p ' ' = false) (h : Agrees rest rest')
    (htext : (text ++ rest).takeWhile p = text) : (text ++ rest').takeWhile p = text := by
  rw [takeWhile_append_eq_iff] at htext ⊢
  exact ⟨htext.1, h.takeWhile_eq_nil hp htext.2⟩

/-! ## Comments and literals end by themselves -/

theorem throughCommentEnd_ne_nil {cs : List Char} : throughCommentEnd cs ≠ some [] := by
  fun_cases throughCommentEnd cs with
  | case1 => simp
  | case2 => simp
  | case3 => simp

theorem throughQuote_ne_nil {cs : List Char} : throughQuote quote cs ≠ some [] := by
  fun_cases throughQuote quote cs <;> simp_all

theorem three_le_length_of_throughTripleQuote {cs : List Char}
    (h : throughTripleQuote quote cs = some text) : 3 ≤ text.length := by
  fun_induction throughTripleQuote quote cs generalizing text with
  | case1 => cases h
  | case2 c => cases h
  | case3 d cs ih =>
    obtain ⟨body, hbody, rfl⟩ := Option.map_eq_some_iff.mp h
    exact Nat.le_trans (ih hbody) (by simp +arith)
  | case4 c d cs hescape hquotes =>
    cases h
    exact Nat.le_refl 3
  | case5 c d cs hescape hquotes ih =>
    obtain ⟨body, hbody, rfl⟩ := Option.map_eq_some_iff.mp h
    exact Nat.le_trans (ih hbody) (by simp)

theorem throughCommentEnd_append {cs : List Char} (h : throughCommentEnd cs = some text)
    (rest : List Char) : throughCommentEnd (text ++ rest) = some text := by
  fun_induction throughCommentEnd cs generalizing text with
  | case1 => cases h
  | case2 behind =>
    cases h
    rfl
  | case3 c cs hend ih =>
    obtain ⟨body, hbody, rfl⟩ := Option.map_eq_some_iff.mp h
    have hother : ∀ behind, c = '*' → body ++ rest ≠ '/' :: behind := by
      intro behind hc heq
      obtain ⟨more, rfl⟩ := throughCommentEnd_isPrefix hbody
      cases body with
      | nil => exact throughCommentEnd_ne_nil hbody
      | cons d body =>
        obtain ⟨rfl, -⟩ := List.cons.inj heq
        exact hend _ hc rfl
    rw [List.cons_append, throughCommentEnd, ih hbody, Option.map_some]
    exact hother

theorem throughQuote_append {cs : List Char} (h : throughQuote quote cs = some text)
    (rest : List Char) : throughQuote quote (text ++ rest) = some text := by
  have hclosing : throughQuote quote ([quote] ++ rest) = some [quote] := by
    cases rest <;> simp [throughQuote]
  fun_induction throughQuote quote cs generalizing text with
  | case1 => cases h
  | case2 =>
    cases h
    exact hclosing
  | case3 c hquote => cases h
  | case4 d cs =>
    cases h
    exact hclosing
  | case5 d cs hquote ih =>
    obtain ⟨body, hbody, rfl⟩ := Option.map_eq_some_iff.mp h
    simp [throughQuote, hquote, ih hbody]
  | case6 d cs hquote hescape => cases h
  -- The character behind this one is read again, so it has to be the same: the text is not empty.
  | case7 c d cs hquote hescape hline ih =>
    obtain ⟨body, hbody, rfl⟩ := Option.map_eq_some_iff.mp h
    obtain ⟨more, hmore⟩ := throughQuote_isPrefix hbody
    have hrest := ih hbody
    cases body with
    | nil => exact absurd hbody throughQuote_ne_nil
    | cons e body => simp_all [throughQuote]

theorem throughTripleQuote_append {cs : List Char} (h : throughTripleQuote quote cs = some text)
    (rest : List Char) : throughTripleQuote quote (text ++ rest) = some text := by
  fun_induction throughTripleQuote quote cs generalizing text with
  | case1 => cases h
  | case2 c => cases h
  | case3 d cs ih =>
    obtain ⟨body, hbody, rfl⟩ := Option.map_eq_some_iff.mp h
    simp [throughTripleQuote, ih hbody]
  | case4 c d cs hescape hquotes =>
    cases h
    obtain ⟨rfl, rfl, -⟩ := hquotes
    simp [throughTripleQuote, hescape]
  | case5 c d cs hescape hquotes ih =>
    obtain ⟨body, hbody, rfl⟩ := Option.map_eq_some_iff.mp h
    obtain ⟨more, hmore⟩ := throughTripleQuote_isPrefix hbody
    have hrest := ih hbody
    have hlength := three_le_length_of_throughTripleQuote hbody
    -- the quotes at the end come behind the two characters that are looked at here
    match body, hlength with
    | e :: f :: body, _ =>
      obtain ⟨rfl, rfl⟩ := List.cons.inj hmore
      have hquotes' : ¬(c = quote ∧ e = quote ∧ f = quote) := by simpa using hquotes
      simp_all [throughTripleQuote]

theorem literal?_eq (quote : Char) (cs : List Char) :
    literal? quote cs =
      if cs.take 2 = [quote, quote] then
        (throughTripleQuote quote (cs.drop 2)).map fun text => quote :: quote :: quote :: text
      else (throughQuote quote cs).map (quote :: ·) := by
  match cs with
  | [] => rfl
  | [c] => simp [literal?]
  | c :: d :: cs => simp [literal?]

/-- Only behind two quotes does a literal look ahead: a third one would open a longer literal. -/
theorem Agrees.literal?_append {tail : List Char} (hquote : quote ≠ ' ') (h : Agrees rest rest')
    (htext : literal? quote (tail ++ rest) = some (quote :: tail)) :
    literal? quote (tail ++ rest') = some (quote :: tail) := by
  rw [literal?_eq] at htext ⊢
  split at htext
  · obtain ⟨text, hbody, htext⟩ := Option.map_eq_some_iff.mp htext
    cases htext
    have htwo : (quote :: quote :: text ++ rest').take 2 = [quote, quote] := rfl
    rw [if_pos htwo]
    exact congrArg (Option.map _) (throughTripleQuote_append hbody rest')
  · next htwo =>
    obtain ⟨text, hbody, htext⟩ := Option.map_eq_some_iff.mp htext
    cases htext
    rw [if_neg fun htwo' => htwo ((h.append _).take_two htwo' hquote hquote),
      throughQuote_append hbody]
    rfl

/-! ## Numbers -/

theorem takeWhile_dropWhile (p : Char → Bool) (cs : List Char) :
    (cs.dropWhile p).takeWhile p = [] := by
  induction cs with
  | nil => rfl
  | cons c cs ih =>
    rw [List.dropWhile_cons]
    split
    · exact ih
    · next hc => rw [List.takeWhile_cons, if_neg hc]

/-- `IsNumber text rest`: before `rest`, the number `text` ends. A point belongs to it only if a
digit follows. -/
inductive IsNumber (text rest : List Char) : Prop
  | whole (htext : ∀ c ∈ text, isNumberPart c = true) (hrest : rest.takeWhile isNumberPart = [])
      (hpoint : ∀ d more, rest = '.' :: d :: more → d.isDigit = false)
  | point {whole fraction : List Char} {d : Char} (htext : text = whole ++ '.' :: d :: fraction)
      (hwhole : ∀ c ∈ whole, isNumberPart c = true) (hd : d.isDigit = true)
      (hfraction : ∀ c ∈ fraction, isNumberPart c = true)
      (hrest : rest.takeWhile isNumberPart = [])

theorem IsNumber.numberOf_eq (h : IsNumber text rest) : numberOf (text ++ rest) = text := by
  cases h with
  | whole htext hrest hpoint =>
    have hdrop : rest.dropWhile isNumberPart = rest := by
      simpa [hrest] using List.takeWhile_append_dropWhile (p := isNumberPart) (l := rest)
    rw [numberOf, takeWhile_append_eq_iff.mpr ⟨htext, hrest⟩, List.dropWhile_append_of_pos htext,
      hdrop]
    split
    · next d more => rw [if_neg (by simp [hpoint d more rfl])]
    · rfl
  | @point whole fraction d htext hwhole hd hfraction hrest =>
    have hpoint : ('.' :: d :: (fraction ++ rest)).takeWhile isNumberPart = [] := rfl
    have hdrop : ('.' :: d :: (fraction ++ rest)).dropWhile isNumberPart =
        '.' :: d :: (fraction ++ rest) := rfl
    rw [htext, List.append_assoc, List.cons_append, List.cons_append, numberOf,
      takeWhile_append_eq_iff.mpr ⟨hwhole, hpoint⟩, List.dropWhile_append_of_pos hwhole, hdrop]
    simp only [hd, if_true, takeWhile_append_eq_iff.mpr ⟨hfraction, hrest⟩]

theorem isNumber_of_numberOf (h : numberOf (text ++ rest) = text) : IsNumber text rest := by
  generalize hcs : text ++ rest = cs at h
  have hstop := takeWhile_dropWhile isNumberPart cs
  have hsplit := List.takeWhile_append_dropWhile (p := isNumberPart) (l := cs)
  have hwhole : ∀ c ∈ cs.takeWhile isNumberPart, isNumberPart c = true := fun c hc =>
    List.all_eq_true.mp List.all_takeWhile c hc
  -- a point belongs to the number exactly if a digit stands behind it
  unfold numberOf at h
  dsimp only at h
  split at h
  · next d more hmore =>
    rw [hmore] at hsplit hstop
    split at h
    · next hd =>
      subst h
      refine .point rfl hwhole hd (fun c hc => List.all_eq_true.mp List.all_takeWhile c hc) ?_
      have hrest : more.takeWhile isNumberPart ++ rest = more := by
        simpa using hcs.trans hsplit.symm
      have hdrop := hrest.trans (List.takeWhile_append_dropWhile (p := isNumberPart)).symm
      rw [List.append_cancel_left hdrop]
      exact takeWhile_dropWhile _ _
    · next hd =>
      subst h
      obtain rfl := List.append_cancel_left (hcs.trans hsplit.symm)
      refine .whole hwhole hstop ?_
      rintro d' more' ⟨⟩
      simpa using hd
  · next hother =>
    subst h
    obtain rfl := List.append_cancel_left (hcs.trans hsplit.symm)
    exact .whole hwhole hstop fun d more hmore => absurd hmore (hother d more)

theorem IsNumber.of_agrees (h : IsNumber text rest) (hagrees : Agrees rest rest') :
    IsNumber text rest' := by
  have hblank : isNumberPart ' ' = false := by decide
  cases h with
  | whole htext hrest hpoint =>
    refine .whole htext (hagrees.takeWhile_eq_nil hblank hrest) fun d more hmore => ?_
    by_cases hd : d = ' '
    · rw [hd]
      decide
    · have htwo : rest.take 2 = ['.', d] := hagrees.take_two (by rw [hmore]; rfl) (by decide) hd
      match rest, htwo with
      | _ :: _ :: more, rfl => exact hpoint d more rfl
  | point htext hwhole hd hfraction hrest =>
    exact .point htext hwhole hd hfraction (hagrees.takeWhile_eq_nil hblank hrest)

/-! ## Tokens -/

/-- Is a lexeme of the class a token, and no comment? -/
def isToken : LexemeKind → Bool
  | .stringLit | .charLit | .word | .number | .ellipsis | .punct => true
  | _ => false

/-- No token starts with a blank. -/
theorem Starts.isGap_eq_false {cs : List Char} (h : Starts c cs kind text)
    (hkind : isToken kind = true) : isGap c = false := by
  cases h with
  | blank hc => cases hkind
  | lineFeed hc => cases hkind
  | lineComment hc hcs => cases hkind
  | comment hc hcs hbody => split at hkind <;> cases hkind
  | literal hc htext => rcases hc with rfl | rfl <;> rfl
  | word hc => exact (not_reserved (not_mem_reserved_of_isWordStart hc)).1
  | number hc => exact (not_reserved (not_reserved_of_isDigit hc).1).1
  | ellipsis hc hcs =>
    subst hc
    rfl
  | punct hc hslash hdot =>
    rcases (not_reserved_of_mem_punctuation hc).1 with hreserved | rfl
    · exact (not_reserved hreserved).1
    · rfl

/-- A token is read in the same way before texts that agree up to a blank. -/
theorem Starts.of_agrees {tail : List Char} (h : Starts c (tail ++ rest) kind (c :: tail))
    (hagrees : Agrees rest rest') (hkind : isToken kind = true) :
    Starts c (tail ++ rest') kind (c :: tail) := by
  generalize hcs : tail ++ rest = cs at h
  generalize htext : c :: tail = text at h
  cases h with
  | blank hc => cases hkind
  | lineFeed hc => cases hkind
  | lineComment hc hcs => cases hkind
  | @comment body hc hcs hbody => split at hkind <;> cases hkind
  | literal hc hliteral =>
    subst htext hcs
    refine .literal hc (hagrees.literal?_append ?_ hliteral)
    rcases hc with rfl | rfl <;> decide
  | word hc =>
    obtain ⟨-, htail⟩ := List.cons.inj htext
    subst hcs
    -- a word ends at the same place, since a blank goes on with no word
    have htail' := hagrees.takeWhile_append (by decide +kernel) htail.symm
    have hword : Starts c (tail ++ rest') .word _ := .word hc
    rw [htail'] at hword
    rwa [← htail]
  | number hc =>
    subst hcs
    have hnumber : IsNumber (c :: tail) rest := isNumber_of_numberOf htext.symm
    have hstarts : Starts c (tail ++ rest') .number _ := .number hc
    rw [← List.cons_append, (hnumber.of_agrees hagrees).numberOf_eq] at hstarts
    rwa [← htext]
  | ellipsis hc htwo =>
    subst hc
    obtain ⟨-, rfl⟩ := List.cons.inj htext
    exact .ellipsis rfl rfl
  | punct hc hslash hdot =>
    obtain ⟨-, rfl⟩ := List.cons.inj htext
    subst hcs
    refine .punct hc (fun hc => ⟨fun hhead => ?_, fun hhead => ?_⟩) (fun hc htwo => ?_)
    · exact (hslash hc).1 (hagrees.head? hhead (by decide))
    · exact (hslash hc).2 (hagrees.head? hhead (by decide))
    · exact hdot hc (hagrees.take_two htwo (by decide) (by decide))

/-! ## Cutting -/

/-- Before `rest`, the lexeme is read. -/
def Begins (l : Lexeme) (rest : List Char) : Prop :=
  ∃ c tail, l.text = c :: tail ∧ Starts c (tail ++ rest) l.kind l.text

/-- Lexemes are read from a text, one after the other. -/
inductive Splits : List Char → List Lexeme → Prop
  | nil : Splits [] []
  | cons {l : Lexeme} {rest : List Char} {ls : List Lexeme} (hl : l.Begins rest)
      (h : Splits rest ls) : Splits (l.text ++ rest) (l :: ls)

theorem Begins.ne_nil (h : l.Begins rest) : l.text ≠ [] := by
  obtain ⟨c, tail, htext, -⟩ := h
  rw [htext]
  exact List.cons_ne_nil c tail

theorem Begins.of_agrees (h : l.Begins rest) (hkind : isToken l.kind = true)
    (hagrees : Agrees rest rest') : l.Begins rest' := by
  obtain ⟨c, tail, htext, hstarts⟩ := h
  rw [htext] at hstarts
  exact ⟨c, tail, htext, htext ▸ hstarts.of_agrees hagrees hkind⟩

theorem split_append (h : l.Begins rest) :
    split (l.text ++ rest) =
      match split rest with
      | .error e => .error { e with before := l.text ++ e.before }
      | .ok ls => .ok (l :: ls) := by
  obtain ⟨kind, text⟩ := l
  obtain ⟨c, tail, rfl, hstarts⟩ := h
  have hcut : (tail ++ rest).drop ((c :: tail).length - 1) = rest := by simp
  rw [List.cons_append, split, hstarts.first_eq]
  cases hrest : split rest with
  | error e => simp only [hcut, hrest]
  | ok ls => simp only [hcut, hrest]

theorem split_eq_ok_iff {ls : List Lexeme} : split text = .ok ls ↔ Splits text ls := by
  constructor
  · intro h
    refine split_induction .nil ?_ h
    intro c tail behind kind rest hfirst ih
    exact .cons (l := ⟨kind, c :: tail⟩) ⟨c, tail, rfl, starts_of_first hfirst⟩ ih
  · intro h
    induction h with
    | nil => rw [split]
    | cons hl h ih => rw [split_append hl, ih]

end ApiDoc.Syntax.Lexeme
