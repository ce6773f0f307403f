import ApiDoc.Proofs.Comment.Grammar
import ApiDoc.Proofs.Syntax.Rendering

/-!
# Doc comments are comments

Making every doc comment of a Java source a plain comment of the same extent takes the doc comments
from the tree and leaves the rest (`Java.parse_plainComments`), but for one thing: a doc comment
directly before a token leaves no gap in a text that is written out, and a plain comment does
(`Loosened`).
-/

namespace ApiDoc.Syntax

/-! ## Blanks in texts -/

/-- The second text is the first one with blanks put in. -/
inductive Spread : List Char → List Char → Prop
  | nil : Spread [] []
  | cons {cs ds : List Char} (c : Char) (h : Spread cs ds) : Spread (c :: cs) (c :: ds)
  | blank {cs ds : List Char} (h : Spread cs ds) : Spread cs (' ' :: ds)

namespace Spread

variable {cs ds cs' ds' : List Char}

theorem refl (cs : List Char) : Spread cs cs := by
  induction cs with
  | nil => exact .nil
  | cons c cs ih => exact .cons c ih

theorem append (h : Spread cs ds) (h' : Spread cs' ds') : Spread (cs ++ cs') (ds ++ ds') := by
  induction h with
  | nil => exact h'
  | cons c h ih => exact .cons c ih
  | blank h ih => exact .blank ih

theorem reverse (h : Spread cs ds) : Spread cs.reverse ds.reverse := by
  induction h with
  | nil => exact .nil
  | cons c h ih =>
    rw [List.reverse_cons, List.reverse_cons]
    exact ih.append (.refl [c])
  | @blank cs ds h ih =>
    rw [List.reverse_cons, ← List.append_nil cs.reverse]
    exact ih.append (.blank .nil)

theorem cutStart (h : Spread cs ds) :
    Spread (Text.cutStart Text.isBlank cs) (Text.cutStart Text.isBlank ds) := by
  unfold Text.cutStart
  induction h with
  | nil => exact .nil
  | cons c h ih =>
    rw [List.dropWhile_cons, List.dropWhile_cons]
    split
    · exact ih
    · exact .cons c h
  | blank h ih =>
    rw [List.dropWhile_cons_of_pos (by decide)]
    exact ih

theorem trim (h : Spread cs ds) : Spread (Text.trim cs) (Text.trim ds) :=
  h.cutStart.reverse.cutStart.reverse

theorem tail {c : Char} (h : Spread (c :: cs) (c :: ds)) (hc : c ≠ ' ') : Spread cs ds := by
  cases h with
  | cons _ h => exact h
  | blank h => exact absurd rfl hc

theorem dropLast {c : Char} (h : Spread (cs ++ [c]) (ds ++ [c])) (hc : c ≠ ' ') : Spread cs ds := by
  have hreverse := h.reverse
  rw [List.reverse_concat, List.reverse_concat] at hreverse
  have htail := (hreverse.tail hc).reverse
  rwa [List.reverse_reverse, List.reverse_reverse] at htail

/-- Blanks inside a text leave its parentheses where they are. -/
theorem inner (h : Spread cs ds) (hhead : ds.head? = cs.head?)
    (hlast : ds.getLast? = cs.getLast?) :
    Spread (Grammar.parenthesized.inner cs) (Grammar.parenthesized.inner ds) := by
  by_cases hopen : cs.head? = some '('
  · obtain ⟨rest, rfl⟩ := List.head?_eq_some_iff.mp hopen
    obtain ⟨rest', rfl⟩ := List.head?_eq_some_iff.mp (hhead.trans hopen)
    have htail := h.tail (by decide)
    rw [List.getLast?_cons, List.getLast?_cons] at hlast
    -- With nothing behind the parenthesis, it is itself the last character, and not a closing one.
    have hclose : rest'.getLast? = some ')' ↔ rest.getLast? = some ')' := by grind
    show Spread (if rest.getLast? = some ')' then rest.dropLast else '(' :: rest)
      (if rest'.getLast? = some ')' then rest'.dropLast else '(' :: rest')
    by_cases hend : rest.getLast? = some ')'
    · rw [if_pos hend, if_pos (hclose.mpr hend)]
      obtain ⟨body, rfl⟩ := List.getLast?_eq_some_iff.mp hend
      obtain ⟨body', rfl⟩ := List.getLast?_eq_some_iff.mp (hclose.mpr hend)
      rw [List.dropLast_concat, List.dropLast_concat]
      exact htail.dropLast (by decide)
    · rw [if_neg hend, if_neg fun hend' => hend (hclose.mp hend')]
      exact h
  · have hself : ∀ es : List Char, es.head? ≠ some '(' → Grammar.parenthesized.inner es = es := by
      intro es hes
      unfold Grammar.parenthesized.inner
      split
      · exact absurd rfl hes
      · rfl
    rw [hself cs hopen, hself ds (hhead ▸ hopen)]
    exact h

end Spread

/-! ## Texts that are written out -/

/-- Does the doc comment of the slot stand directly before the token? -/
def Slot.Abuts (s : Slot) : Prop := s.doc.isSome = true ∧ s.token.spaced = false

theorem Slot.token_plain {s : Slot} (h : ¬s.Abuts) : s.plain.token = s.token := by
  obtain ⟨⟨kind, text, pos, spaced⟩, doc⟩ := s
  cases spaced with
  | true => rfl
  | false =>
    cases doc with
    | none => rfl
    | some doc => exact absurd ⟨rfl, rfl⟩ h

/-- One text is the other with more blanks inside. -/
structure Loose (text text' : String) : Prop where
  spread : Spread text.toList text'.toList
  head? : text'.toList.head? = text.toList.head?
  getLast? : text'.toList.getLast? = text.toList.getLast?

theorem Loose.refl (text : String) : Loose text text := ⟨.refl _, rfl, rfl⟩

theorem Loose.eq_empty_iff {text text' : String} (h : Loose text text') :
    text' = "" ↔ text = "" := by
  rw [← String.toList_eq_nil_iff, ← List.head?_eq_none_iff, h.head?, List.head?_eq_none_iff,
    String.toList_eq_nil_iff]

/-- Does a slot leave something in a text? -/
def Slot.Shows (s : Slot) : Prop := s.token.isNewline = true ∨ s.token.text ≠ ""

theorem Slot.appendTo_empty_plain (s : Slot) :
    Token.appendTo "" s.plain.token = Token.appendTo "" s.token :=
  s.plain.token.appendTo_empty.trans s.token.appendTo_empty.symm

theorem Slot.spread_gapped (s : Slot) : Spread s.token.gapped s.plain.token.gapped := by
  obtain ⟨⟨kind, text, pos, spaced⟩, doc⟩ := s
  cases spaced with
  | true => exact .refl _
  | false =>
    cases doc with
    | none => exact .refl _
    | some doc => exact .blank (.refl _)

theorem Token.getLast?_gapped {t : Token} (h : t.text ≠ "") (cs : List Char) :
    (cs ++ t.gapped).getLast? = t.text.toList.getLast? := by
  have hne : t.text.toList ≠ [] := by simpa using h
  rw [gapped, ← List.append_assoc]
  exact List.getLast?_append_of_ne_nil _ hne

theorem Loose.appendTo {out out' : String} (h : Loose out out') {s : Slot} (hs : s.Shows) :
    Loose (Token.appendTo out s.token) (Token.appendTo out' s.plain.token) := by
  -- A line end adds nothing; any other token adds its text behind a gap that may be wider.
  cases hline : s.token.isNewline with
  | true =>
    have hline' : s.plain.token.isNewline = true := hline
    rw [Token.appendTo, Token.appendTo, if_pos hline, if_pos hline']
    exact h
  | false =>
    have hline' : s.plain.token.isNewline = false := hline
    have htext : s.token.text ≠ "" := hs.resolve_left (by simp [hline])
    by_cases hout : out = ""
    · rw [hout, h.eq_empty_iff.mpr hout, s.appendTo_empty_plain]
      exact .refl _
    · have hout' : out' ≠ "" := fun hempty => hout (h.eq_empty_iff.mp hempty)
      have hne : out.toList ≠ [] := by simpa using hout
      have hne' : out'.toList ≠ [] := by simpa using hout'
      constructor
      · rw [Token.toList_appendTo hline hout, Token.toList_appendTo hline' hout']
        exact h.spread.append s.spread_gapped
      · rw [Token.toList_appendTo hline hout, Token.toList_appendTo hline' hout',
          List.head?_append_of_ne_nil _ hne, List.head?_append_of_ne_nil _ hne', h.head?]
      · rw [Token.toList_appendTo hline hout, Token.toList_appendTo hline' hout',
          Token.getLast?_gapped htext]
        exact Token.getLast?_gapped (t := s.plain.token) htext _

theorem loose_joined {run : List Slot} (hrun : ∀ s ∈ run, s.Shows) :
    Loose (Token.joined (run.map Slot.token)) (Token.joined (run.map fun s => s.plain.token)) := by
  have hfold : ∀ {out out' : String}, Loose out out' →
      Loose ((run.map Slot.token).foldl Token.appendTo out)
        ((run.map fun s => s.plain.token).foldl Token.appendTo out') := by
    induction run with
    | nil => exact id
    | cons s run ih =>
      obtain ⟨hs, hrun⟩ := List.forall_mem_cons.mp hrun
      exact fun h => ih hrun (h.appendTo hs)
  exact hfold (.refl "")

/-- The gap before the first token of a text does not show. -/
theorem joined_plain {run : List Slot} (hrun : ∀ s ∈ run.tail, ¬s.Abuts) :
    Token.joined (run.map fun s => s.plain.token) = Token.joined (run.map Slot.token) := by
  cases run with
  | nil => rfl
  | cons s run =>
    have hrest : (run.map fun s => s.plain.token) = run.map Slot.token :=
      List.map_congr_left fun s hs => Slot.token_plain (hrun s hs)
    rw [List.map_cons, List.map_cons, hrest, Token.joined, List.foldl_cons,
      s.appendTo_empty_plain]
    rfl

/-- Beside plain comments, a text has more blanks at most. It is the same, or it is written out from
a run of slots, and inside the run a doc comment stands directly before a token. -/
structure Loosened (slots : List Slot) (text text' : String) : Prop where
  spread : Spread text.toList text'.toList
  same_or_abuts : text' = text ∨ ∃ run, run <:+: slots.dropLast ∧ (∃ s ∈ run.tail, s.Abuts) ∧
    ∃ view, (view = id ∨ view = inParentheses) ∧ text = view (Token.joined (run.map Slot.token)) ∧
      text' = view (Token.joined (run.map fun s => s.plain.token))

theorem Rendered.loosened {slots : List Slot} (hslots : ∀ s ∈ slots.dropLast, s.Shows)
    {text text' : String} (h : Rendered slots text text') : Loosened slots text text' := by
  cases h with
  | same => exact ⟨.refl _, .inl rfl⟩
  | written h =>
    obtain ⟨run, hrun, rfl, rfl⟩ := h
    refine ⟨(loose_joined fun s hs => hslots s (hrun.subset hs)).spread, ?_⟩
    by_cases habuts : ∃ s ∈ run.tail, s.Abuts
    · exact .inr ⟨run, hrun, habuts, id, .inl rfl, rfl, rfl⟩
    · exact .inl (joined_plain fun s hs ha => habuts ⟨s, hs, ha⟩)
  | inside h =>
    obtain ⟨run, hrun, rfl, rfl⟩ := h
    have hloose := loose_joined fun s hs => hslots s (hrun.subset hs)
    refine ⟨?_, ?_⟩
    · rw [inParentheses, inParentheses, String.toList_ofList, String.toList_ofList]
      exact (hloose.spread.inner hloose.head? hloose.getLast?).trim
    by_cases habuts : ∃ s ∈ run.tail, s.Abuts
    · exact .inr ⟨run, hrun, habuts, inParentheses, .inr rfl, rfl, rfl⟩
    · rw [joined_plain fun s hs ha => habuts ⟨s, hs, ha⟩]
      exact .inl rfl

theorem Loosened.eq {slots : List Slot} (hslots : ∀ s ∈ slots.dropLast, ¬s.Abuts)
    {text text' : String} (h : Loosened slots text text') : text' = text := by
  refine h.same_or_abuts.resolve_right ?_
  rintro ⟨run, hrun, ⟨s, hs, habuts⟩, -⟩
  exact hslots s (hrun.subset (List.mem_of_mem_tail hs)) habuts

/-! ## Trees -/

namespace Tree

variable {κ : Type}

mutual

/-- The tree without its doc comments. -/
def withoutDocs : Tree κ → Tree κ
  | ⟨kind, text, pos, _, children⟩ => ⟨kind, text, pos, none, withoutDocsAll children⟩

/-- Trees without their doc comments. -/
def withoutDocsAll : List (Tree κ) → List (Tree κ)
  | [] => []
  | t :: ts => withoutDocs t :: withoutDocsAll ts

end

mutual

theorem Echoes.mono {R Q : String → String → Prop}
    (hR : ∀ text text', R text text' → Q text text') :
    (t : Tree κ) → {t' : Tree κ} → t.Echoes R t' → t.Echoes Q t'
  | ⟨_, _, _, _, children⟩, _, .node htext hchildren =>
    .node (hR _ _ htext) (Echoes.monoAll hR children hchildren)

theorem Echoes.monoAll {R Q : String → String → Prop}
    (hR : ∀ text text', R text text' → Q text text') :
    (ts : List (Tree κ)) → {ts' : List (Tree κ)} →
      List.Forall₂ (Tree.Echoes R) ts ts' → List.Forall₂ (Tree.Echoes Q) ts ts'
  | [], _, .nil => .nil
  | t :: ts, _, .cons ht hts => .cons (Echoes.mono hR t ht) (Echoes.monoAll hR ts hts)

end

mutual

/-- With the same texts, nothing but the doc comments has changed. -/
theorem Echoes.eq_withoutDocs : (t : Tree κ) → {t' : Tree κ} →
    t.Echoes (fun text text' => text' = text) t' → t' = t.withoutDocs
  | ⟨_, _, _, _, children⟩, _, .node rfl hchildren => by
    rw [withoutDocs, Echoes.all_eq_withoutDocs children hchildren]

theorem Echoes.all_eq_withoutDocs : (ts : List (Tree κ)) → {ts' : List (Tree κ)} →
    List.Forall₂ (Tree.Echoes fun text text' => text' = text) ts ts' → ts' = withoutDocsAll ts
  | [], _, .nil => rfl
  | t :: ts, _, .cons ht hts => by
    rw [withoutDocsAll, Echoes.eq_withoutDocs t ht, Echoes.all_eq_withoutDocs ts hts]

end

end Tree

/-! ## Files -/

theorem Lexicon.Reads.text_ne_empty {lexicon : Lexicon} {text : List Char} {ts : List Token}
    (h : lexicon.Reads text ts) : ∀ t ∈ ts, t.kind ≠ .eof → t.text ≠ "" := by
  induction h with
  | eof hkind => exact fun t ht hne => absurd (List.mem_singleton.mp ht ▸ hkind) hne
  | token hgap hface hl h ih =>
    refine List.forall_mem_cons.mpr ⟨fun _ => ?_, ih⟩
    rw [(face?_eq_some hface).2]
    simpa using hl.ne_nil

/-- All slots of a source but the last leave something in a text. -/
theorem Lexicon.shows_of_tokenize {lexicon : Lexicon} {source : String} {tokens : List Token}
    (h : lexicon.tokenize source = .ok tokens) : ∀ s ∈ (Slot.attach tokens).dropLast, s.Shows := by
  have htexts := (reads_of_tokenize h).text_ne_empty
  obtain ⟨body, last, rfl, hlast, hothers⟩ := eof_of_tokenize h
  obtain ⟨front, s, hslots, -, hfront⟩ := Slot.attachFrom_append_last hlast none
  rw [Slot.attach, hslots, List.dropLast_concat]
  intro s hs
  have hmem := hfront s hs
  cases hline : s.token.isNewline with
  | true => exact .inl hline
  | false =>
    refine .inr (htexts s.token (List.mem_filter.mpr ⟨?_, by simp [hline]⟩) (hothers _ hmem))
    exact List.mem_append_left _ hmem

namespace Java

open ApiDoc.Syntax.Parser

theorem parse_eq {source : String} {tokens : List Token}
    (h : Language.java.lexicon.tokenize source = .ok tokens) :
    parse source = file.read (Cursor.ofTokens tokens) := by
  rw [parse, h]
  rfl

/-- **Doc comments are comments.** A Java source where every doc comment is made a plain comment is
read if and only if the source is, and has the same error if it is not. Its tree is the tree of the
source without doc comments; only, a text has a blank for a doc comment inside it that stands
directly before a token. -/
theorem parse_plainComments {source : String} (hescape : ¬['\\', 'u'] <:+: source.toList) :
    (∀ e, parse source = .error e →
      ∃ e', parse (plainComments source) = .error e' ∧ e.Same e') ∧
    ∀ t, parse source = .ok t → ∃ tokens t',
      Language.java.lexicon.tokenize source = .ok tokens ∧
      parse (plainComments source) = .ok t' ∧
      t.Echoes (Loosened (Slot.attach tokens)) t' ∧
      ((∀ s ∈ (Slot.attach tokens).dropLast, ¬s.Abuts) → t' = t.withoutDocs) := by
  obtain ⟨herror, hok⟩ :=
    @Lexicon.tokenize_plainComments Language.java.lexicon rfl rfl source hescape
  cases htokens : Language.java.lexicon.tokenize source with
  | error e =>
    have hparse : ∀ {source}, Language.java.lexicon.tokenize source = .error e →
        parse source = .error e := fun h => by rw [parse, h]; rfl
    rw [hparse htokens, hparse (herror e htokens)]
    refine ⟨fun e' he => ⟨e, rfl, ?_⟩, fun t ht => by cases ht⟩
    cases he
    exact .refl e
  | ok tokens =>
    obtain ⟨tokens', htokens', hslots⟩ := hok tokens htokens
    -- both sources are read from cursors that differ in their doc comments only
    have hbeside : Cursor.ofTokens tokens' = (Cursor.ofTokens tokens).plain := by
      rw [Cursor.ofTokens_eq_facing htokens', Cursor.ofTokens_eq_facing htokens, hslots,
        Cursor.facing_plain]
    have hends := echoes_file (Cursor.ofTokens tokens) (Lexicon.slots_eq_attach htokens)
    rw [parse_eq htokens, parse_eq htokens', hbeside]
    unfold Parser.read
    generalize file (Cursor.ofTokens tokens) = r at hends ⊢
    generalize file (Cursor.ofTokens tokens).plain = r' at hends ⊢
    cases hends with
    | error he =>
      refine ⟨fun e he' => ⟨_, rfl, ?_⟩, fun t ht => by cases ht⟩
      cases he'
      exact he
    | @ok t t' d ht hd =>
      have hshows := Lexicon.shows_of_tokenize htokens
      have hloose := ht.mono (fun _ _ => Rendered.loosened hshows) t
      refine ⟨fun e he => (by cases he), fun u hu => ⟨tokens, t', rfl, rfl, ?_⟩⟩
      cases hu
      exact ⟨hloose, fun habuts =>
        (hloose.mono (fun _ _ => Loosened.eq habuts) t).eq_withoutDocs t⟩

/-- A class whose doc comments all have a gap behind them. -/
def spacedDocs : String :=
  "/** d */ class A \x7b /** e */\nB x = new/** f */ B( /** g */ 1); \x7d"

theorem parse_plainComments_spacedDocs :
    ¬['\\', 'u'] <:+: spacedDocs.toList ∧
    plainComments spacedDocs =
      "/*  d */ class A \x7b /*  e */\nB x = new/*  f */ B( /*  g */ 1); \x7d" ∧
    ∃ t, parse spacedDocs = .ok t ∧ t.preorder.filterMap Tree.doc = ["/** d */", "/** e */"] ∧
      parse (plainComments spacedDocs) = .ok t.withoutDocs := by
  have hescape : ¬['\\', 'u'] <:+: spacedDocs.toList := by decide +kernel
  refine ⟨hescape, by decide +kernel, ?_⟩
  have hdocs : (parse spacedDocs).toOption.map (fun t => t.preorder.filterMap Tree.doc) =
      some ["/** d */", "/** e */"] := by
    decide +kernel
  -- A token with a doc comment has a gap in front of it in any case.
  have hgaps : (Language.java.lexicon.tokenize spacedDocs).toOption.map (fun tokens =>
      (Slot.attach tokens).dropLast.all fun s => s.doc.isNone || s.token.spaced) = some true := by
    decide +kernel
  cases hparse : parse spacedDocs with
  | error e =>
    rw [hparse] at hdocs
    cases hdocs
  | ok t =>
    rw [hparse] at hdocs
    obtain ⟨tokens, t', htokens, hplain, -, hsame⟩ := (parse_plainComments hescape).2 t hparse
    rw [htokens] at hgaps
    have hall := List.all_eq_true.mp (Option.some.inj hgaps)
    refine ⟨t, rfl, Option.some.inj hdocs, ?_⟩
    rw [hplain, hsame]
    rintro s hs ⟨hdoc, hspaced⟩
    have hnone : s.doc = none := by simpa [hspaced] using hall s hs
    rw [hnone] at hdoc
    cases hdoc

/-- A doc comment directly before a token leaves no gap in a text. -/
theorem abutting_doc_comment_joins_words :
    (parse "class A \x7b B x = new/** e */B(); \x7d").toOption.map (fun t =>
      (t.preorder.filter fun n => n.kind = .expr).map Tree.text) = some ["newB()"] ∧
    plainComments "class A \x7b B x = new/** e */B(); \x7d" =
      "class A \x7b B x = new/*  e */B(); \x7d" ∧
    (parse "class A \x7b B x = new/*  e */B(); \x7d").toOption.map (fun t =>
      (t.preorder.filter fun n => n.kind = .expr).map Tree.text) = some ["new B()"] := by
  decide +kernel

end Java

end ApiDoc.Syntax
