import ApiDoc.Proofs.Dialect.Token
import ApiDoc.Proofs.Syntax.Progress
import ApiDoc.Proofs.Syntax.Tree
import ApiDoc.Syntax.Java

/-!
# Groovy reads what Java reads: names, types and modifiers

A source that stands on one line and has no word that only Groovy reserves has the same tokens in
both languages. At a cursor in such a source (`Cursor.Shared`) what sets the languages apart makes
no difference: there is no line end to pass over or to stop at, and no word that would be a
modifier, a type declaration or an alias in Groovy alone.

There, where the Java grammar reads a construct, the Groovy grammar reads the same construct up to
the same place, and builds the same tree in the normalized vocabulary. A lemma `f_groovy` says so of
the construct `f`, and of one round of it where `f` is a repetition. Where Groovy could still go
another way, the lemma asks for what stands behind the construct, which the parser that comes next
knows.
-/

namespace ApiDoc.Syntax

variable {c d : Cursor}

/-! ## Shared sources -/

/-- The slot has the same token in both languages: no line end, and no word that only Groovy
reserves. -/
def Slot.Shared (s : Slot) : Prop :=
  s.token.isNewline = false ∧
    (s.token.kind = .keyword → s.token.text ∉ Language.groovyOnlyWords)

theorem Cursor.significant?_eq {slots : List Slot} (h : ∀ s ∈ slots, s.token.isNewline = false)
    (n : Nat) : significant? n slots = slots[n]? := by
  induction slots generalizing n with
  | nil => cases n <;> rfl
  | cons s slots ih =>
    obtain ⟨hs, hslots⟩ := List.forall_mem_cons.mp h
    cases n with
    | zero => simp [significant?, hs]
    | succ n => simp [significant?, hs, ih hslots]

/-- Only the tokens ahead tell how far a cursor goes. -/
theorem Cursor.skipWhile_congr {p q : Token → Bool} (h : ∀ s ∈ c.slots, p s.token = q s.token) :
    c.skipWhile p = c.skipWhile q := by
  have hhere : p c.token = q c.token := h c.here (List.mem_append_right _ List.mem_cons_self)
  fun_induction skipWhile p c with
  | case1 c hp hnext => rw [skipWhile, ← hhere, if_pos hp, hnext]
  | case2 c hp e hnext ih =>
    have hslots := (onward_next? hnext).slots_eq
    rw [skipWhile.eq_1 q c, ← hhere, if_pos hp, hnext]
    exact ih (hslots ▸ h) (h e.here (hslots ▸ List.mem_append_right _ List.mem_cons_self))
  | case3 c hp => rw [skipWhile, ← hhere, if_neg hp]

/-- A cursor in a source that has the same tokens in both languages. -/
def Cursor.Shared (c : Cursor) : Prop :=
  ∃ track : Track, c.slots = track.slots ∧ ∀ s ∈ track.slots, s.Shared

namespace Cursor.Shared

open Grammar (java groovy)

variable (hc : c.Shared)
include hc

/-- What the Java grammar reads leaves the cursor in its source. -/
theorem of_ok {α : Type} {p : Parser α} {reach : α → Nat} {a : α}
    (hp : ∀ track, p.Runs track 0 reach) (h : p c = .ok a d) : d.Shared := by
  obtain ⟨track, hslots, hshared⟩ := hc
  exact ⟨track, (hp track).slots_eq h hslots, hshared⟩

theorem onward (h : c.Onward d) : d.Shared := by
  obtain ⟨track, hslots, hshared⟩ := hc
  exact ⟨track, h.slots_eq.trans hslots, hshared⟩

theorem slot {s : Slot} (hs : s ∈ c.slots) : s.Shared := by
  obtain ⟨track, hslots, hshared⟩ := hc
  exact hshared s (hslots ▸ hs)

theorem here : c.here.Shared := hc.slot (List.mem_append_right _ List.mem_cons_self)

theorem isNewline : c.token.isNewline = false := hc.here.1

theorem isKeyword {word : String} (hword : word ∈ Language.groovyOnlyWords) :
    c.token.isKeyword word = false := by
  rw [Bool.eq_false_iff]
  intro h
  simp only [Token.isKeyword, Bool.and_eq_true, decide_eq_true_eq] at h
  exact hc.here.2 h.1 (h.2 ▸ hword)

theorem pastLines : groovy.pastLines c = c := skipNewlines_of_not hc.isNewline

theorem pastSeparators : groovy.pastSeparators c = java.pastSeparators c :=
  skipWhile_congr fun s hs => by rw [(hc.slot hs).1, Bool.false_or]

theorem peek (n : Nat) : groovy.peek c n = java.peek c n := by
  show ((significant? n c.rest).getD c.last).token = (c.rest[n]?.getD c.last).token
  rw [significant?_eq fun s hs => (hc.slot (List.mem_append_right _ hs)).1]

end Cursor.Shared

/-! ## Names and types -/

namespace Parser

variable {soft : List String} {text : String}

theorem expectName_soft {t : Token} (h : expectName [] c = .ok t d) :
    expectName soft c = .ok t d := by
  rw [expectName_ok] at h ⊢
  refine ⟨?_, h.2⟩
  simp only [Token.isName, List.contains_nil, Bool.and_false, Bool.or_false] at h
  simp only [Token.isName, h.1, Bool.true_or]

theorem qualifiedName_soft (h : qualifiedName [] c = .ok text d) :
    qualifiedName soft c = .ok text d := by
  unfold qualifiedName at h ⊢
  obtain ⟨first, e, hfirst, hrest⟩ := bind_ok.mp h
  rw [bind_of_ok (expectName_soft hfirst)]
  exact hrest

theorem skipClassType_soft (h : skipClassType [] c = .ok () d) :
    skipClassType soft c = .ok () d := by
  unfold skipClassType at h ⊢
  obtain ⟨first, e, hfirst, hrest⟩ := bind_ok.mp h
  rw [bind_of_ok (expectName_soft hfirst)]
  exact hrest

theorem typeText_soft {primitives : List String} (h : typeText primitives [] c = .ok text d) :
    typeText primitives soft c = .ok text d := by
  simp only [typeText, get_bind, peek_bind, ite_run, ite_ok, bump_bind] at h ⊢
  rcases h with ⟨hprimitive, hrest⟩ | ⟨hclass, hrest⟩
  · exact .inl ⟨hprimitive, hrest⟩
  · obtain ⟨_, e, hname, hdims⟩ := bind_ok.mp hrest
    exact .inr ⟨hclass, (bind_of_ok (skipClassType_soft hname)).trans hdims⟩

end Parser

namespace Grammar

open ApiDoc.Syntax.Parser

variable {t : Tree JavaKind} {text : String}

theorem java_pastLines (c : Cursor) : java.pastLines c = c := rfl

theorem name_groovy (h : java.name c = .ok text d) : groovy.name c = .ok text d := by
  unfold name at h ⊢
  obtain ⟨t, e, ht, hpure⟩ := bind_ok.mp h
  exact (bind_of_ok (expectName_soft ht)).trans hpure

/-- In Java, a name is an identifier. -/
theorem kind_of_name (h : java.name c = .ok text d) : c.token.kind = .ident := by
  unfold name at h
  obtain ⟨t, e, ht, hpure⟩ := bind_ok.mp h
  have hname : c.token.isName [] = true := (expectName_ok.mp ht).1
  simpa [Token.isName] using hname

theorem typeText_groovy (h : java.typeText c = .ok text d) : groovy.typeText c = .ok text d :=
  typeText_soft h

theorem normalized_leaf (kind : JavaKind) (text : String) (pos : Text.Position) :
    (java.leaf kind text pos).normalized = groovy.leaf kind text pos :=
  Tree.normalized_mk ..

theorem normalized_node (kind : JavaKind) (text : String) (pos : Text.Position)
    (children : List (Tree JavaKind)) :
    ((java.leaf kind text pos).withChildren children).normalized =
      (groovy.leaf kind text pos).withChildren (children.map Tree.normalized) :=
  Tree.normalized_mk ..

theorem typeNode_ok {κ : Type} {g : Grammar κ} {t : Tree κ} :
    g.typeNode c = .ok t d ↔ ∃ text, g.typeText c = .ok text d ∧ g.leaf .type text c.pos = t := by
  simp only [typeNode, pos_bind, bind_ok, pure_ok]
  constructor
  · rintro ⟨text, e, htext, hleaf, rfl⟩
    exact ⟨text, htext, hleaf⟩
  · rintro ⟨text, htext, hleaf⟩
    exact ⟨text, d, htext, hleaf, rfl⟩

theorem typeNode_groovy (h : java.typeNode c = .ok t d) :
    groovy.typeNode c = .ok t.normalized d := by
  obtain ⟨text, htext, rfl⟩ := typeNode_ok.mp h
  exact typeNode_ok.mpr ⟨text, typeText_groovy htext, (normalized_leaf ..).symm⟩

/-- A part that may be missing. -/
theorem optional_groovy {p : Parser (Tree JavaKind)} {q : Parser (Tree NodeKind)} {b : Bool}
    {ts : List (Tree JavaKind)}
    (h : (if b then p >>= fun t => pure [t] else pure []) c = .ok ts d)
    (hpart : ∀ t ∈ ts, p c = .ok t d → q c = .ok t.normalized d) :
    (if b then q >>= fun t => pure [t] else pure []) c = .ok (ts.map Tree.normalized) d := by
  cases b with
  | true =>
    obtain ⟨t, e, ht, hpure⟩ := bind_ok.mp (show (p >>= fun t => pure [t]) c = .ok ts d from h)
    cases hpure
    exact bind_of_ok (hpart t List.mem_cons_self ht)
  | false =>
    cases h
    rfl

theorem shared_of_optional {p : Parser (Tree JavaKind)} {reach : Tree JavaKind → Nat} {b : Bool}
    {ts : List (Tree JavaKind)} (hc : c.Shared) (hp : ∀ track, p.Runs track 0 reach)
    (h : (if b then p >>= fun t => pure [t] else pure []) c = .ok ts d) : d.Shared := by
  cases b with
  | true =>
    obtain ⟨t, e, ht, hpure⟩ := bind_ok.mp (show (p >>= fun t => pure [t]) c = .ok ts d from h)
    cases hpure
    exact hc.of_ok hp ht
  | false =>
    cases h
    exact hc

/-- A type starts with a reserved word that is a type, or with an identifier. -/
theorem kind_of_typeText (h : java.typeText c = .ok text d) :
    c.token.kind = .keyword ∧ c.token.text ∈ primitives ∨ c.token.kind = .ident := by
  simp only [typeText, Parser.typeText, get_bind, peek_bind, ite_run, ite_ok] at h
  rcases h with ⟨hprimitive, -⟩ | ⟨-, hrest⟩
  · simp only [Bool.and_eq_true, decide_eq_true_eq, List.contains_iff_mem] at hprimitive
    exact .inl hprimitive
  · obtain ⟨_, e, hclass, -⟩ := bind_ok.mp hrest
    unfold skipClassType at hclass
    obtain ⟨first, f, hname, -⟩ := bind_ok.mp hclass
    have hname : c.token.isName [] = true := (expectName_ok.mp hname).1
    exact .inr (by simpa [Token.isName] using hname)

/-! ## Unread text -/

theorem skipUntil_groovy {stop stop' : Cursor → Bool} (hc : c.Shared)
    (hstop : ∀ c : Cursor, c.Shared → stop' c = stop c) (h : skipUntil stop c = .ok () d) :
    skipUntil stop' c = .ok () d := by
  refine iterate_maps id id Cursor.Shared
    (fun s _ _ _ hc => hc.of_ok fun _ => runs_untilRound stop s)
    (fun _ c r d hc hround => ?_) hc h
  have hsame : untilRound stop' () c = untilRound stop () c := by
    simp only [untilRound, get_bind, hstop c hc]
  rw [hsame, hround]
  cases r <;> rfl

/-- Without line ends, an expression of Groovy has one round, and ends where one of Java does. -/
theorem skipExpression_groovy {atComma : Bool} (hc : c.Shared)
    (h : java.skipExpression atComma c = .ok () d) :
    groovy.skipExpression atComma c = .ok () d := by
  have hd : d.Shared := hc.of_ok (fun _ => java.runs_skipExpression atComma) h
  refine iterate_of_done ?_
  refine (bind_of_ok (skipUntil_groovy hc (fun c hc => ?_) h)).trans ?_
  · rw [hc.isNewline, Bool.or_false]
  · rw [get_bind, hd.isNewline]
    rfl

theorem expression_groovy {atComma : Bool} (hc : c.Shared)
    (h : java.expression atComma c = .ok t d) :
    groovy.expression atComma c = .ok t.normalized d := by
  simp only [expression, get_bind, bind_ok, pure_ok] at h ⊢
  obtain ⟨_, e, hskip, text, f, htext, rfl, rfl⟩ := h
  exact ⟨(), e, skipExpression_groovy hc hskip, text, f, htext, (normalized_leaf ..).symm, rfl⟩

theorem parenthesized_groovy (h : java.parenthesized c = .ok t d) :
    groovy.parenthesized c = .ok t.normalized d := by
  simp only [parenthesized, get_bind, bind_ok, pure_ok] at h ⊢
  obtain ⟨_, e, hskip, text, f, htext, rfl, rfl⟩ := h
  exact ⟨(), e, hskip, text, f, htext, (normalized_leaf ..).symm, rfl⟩

theorem block_groovy (h : java.block c = .ok t d) : groovy.block c = .ok t.normalized d := by
  simp only [block, pos_bind, bind_ok, pure_ok] at h ⊢
  obtain ⟨_, e, hskip, rfl, rfl⟩ := h
  exact ⟨(), e, hskip, (normalized_leaf ..).symm, rfl⟩

/-! ## Modifiers -/

theorem annotationMark_groovy (h : java.annotationMark c = .ok t d) :
    groovy.annotationMark c = .ok t.normalized d := by
  simp only [annotationMark, atPunct_bind, ite_run, ite_ok, bind_ok, pure_ok] at h ⊢
  obtain ⟨sign, e, hsign, name, f, hname, ⟨hparen, arguments, g, harguments, rfl, rfl⟩ |
    ⟨hparen, rfl, rfl⟩⟩ := h
  · exact ⟨sign, e, hsign, name, f, qualifiedName_soft hname, .inl ⟨hparen, arguments.normalized, g,
      parenthesized_groovy harguments, (normalized_node _ _ _ [arguments]).symm, rfl⟩⟩
  · exact ⟨sign, e, hsign, name, f, qualifiedName_soft hname,
      .inr ⟨hparen, (normalized_leaf ..).symm, rfl⟩⟩

/-- Where neither an annotation nor a modifier stands, there are no modifiers to read. -/
theorem modifiers_of_none {κ : Type} {g : Grammar κ} (hsign : c.token.isPunct '@' = false)
    (hmodifier : g.atModifier c = false) :
    g.modifiers c = .ok ((g.leaf .modifiers "" c.pos).withChildren []) c := by
  simp only [modifiers, pos_bind, bind_ok, pure_ok]
  refine ⟨[], c, iterate_of_done ?_, rfl, rfl⟩
  simp only [modifiersRound, get_bind, hsign, hmodifier, Bool.false_and, Bool.false_eq_true,
    if_false, pure_apply]

/-- A Java modifier is one in Groovy too, unless a dot comes behind it. -/
theorem atModifier_groovy (h : java.atModifier c = true) (hdot : (c.peek 1).isPunct '.' = false) :
    groovy.atModifier c = true := by
  have hwords : ∀ word ∈ Language.java.modifierWords, word ∈ Language.groovy.modifierWords := by
    decide
  simp only [atModifier, Bool.and_eq_true, List.contains_iff_mem] at h ⊢
  exact ⟨⟨h.1.1, hwords _ h.1.2⟩, by simp [hdot]⟩

/-- Of the words that modify a declaration, only Groovy's own one is none in Java. -/
theorem atModifier_java (hc : c.Shared) (h : groovy.atModifier c = true) :
    java.atModifier c = true := by
  have hwords : ∀ word ∈ Language.groovy.modifierWords,
      word ∈ Language.groovyOnlyWords ∨ word ∈ Language.java.modifierWords := by
    decide
  simp only [atModifier, Bool.and_eq_true, List.contains_iff_mem] at h ⊢
  have hnotOwn := hc.here.2 (of_decide_eq_true h.1.1)
  exact ⟨⟨h.1.1, (hwords _ h.1.2).resolve_left hnotOwn⟩, by simp [java]⟩

section

variable {found all : List (Tree JavaKind)} {r : Step (List (Tree JavaKind)) (List (Tree JavaKind))}

/-- Groovy would stop at a modifier with a dot behind it, and Java does not. So where no dot stands
behind a round, none stands in front of it. -/
theorem modifiersRound_groovy (hc : c.Shared) (h : java.modifiersRound found c = .ok r d)
    (hdot : d.token.isPunct '.' = false) :
    groovy.modifiersRound (found.map Tree.normalized) c =
        .ok (r.map (List.map Tree.normalized) (List.map Tree.normalized)) d ∧
      c.token.isPunct '.' = false := by
  simp only [modifiersRound, get_bind, ite_run, ite_ok, bump_bind, passLines_bind, bind_ok, pure_ok]
    at h ⊢
  rcases h with ⟨hsign, mark, e, hmark, rfl, rfl⟩ |
    ⟨hsign, ⟨hmodifier, rfl, rfl⟩ | ⟨hmodifier, rfl, rfl⟩⟩
  · have he : e.Shared := hc.of_ok (fun _ => java.runs_annotationMark) hmark
    refine ⟨.inl ⟨hsign, mark.normalized, e, annotationMark_groovy hmark, ?_, he.pastLines⟩, ?_⟩
    · simp [Step.map]
    · simp only [Bool.and_eq_true] at hsign
      exact Token.isPunct_ne hsign.1 (by decide)
  · -- The modifier is read on its own, so what Groovy peeks at is where the round ends.
    have hkeyword : c.token.kind = .keyword := by
      simp only [atModifier, Bool.and_eq_true, decide_eq_true_eq] at hmodifier
      exact hmodifier.1.1
    have hnext : c.next.token = c.peek 1 :=
      Cursor.token_next (Token.isEof_of_kind (by simp [hkeyword]))
    have hpeek : (c.peek 1).isPunct '.' = false := hnext ▸ hdot
    refine ⟨.inr ⟨hsign, .inl ⟨atModifier_groovy hmodifier hpeek, ?_,
      (hc.onward c.onward_next).pastLines⟩⟩, Token.isPunct_of_kind (by simp [hkeyword])⟩
    simp [Step.map, normalized_leaf]
  · refine ⟨.inr ⟨hsign, .inr ⟨?_, rfl, rfl⟩⟩, hdot⟩
    exact fun hgroovy => hmodifier (atModifier_java hc hgroovy)

theorem modifiers_groovy (hc : c.Shared) (h : java.modifiers c = .ok t d)
    (hdot : d.token.isPunct '.' = false) : groovy.modifiers c = .ok t.normalized d := by
  simp only [modifiers, pos_bind, bind_ok, pure_ok] at h ⊢
  obtain ⟨found, e, hfound, rfl, rfl⟩ := h
  refine ⟨found.map Tree.normalized, e, ?_, (normalized_node ..).symm, rfl⟩
  exact (iterate_follows _ _ Cursor.Shared (fun _ d => d.token.isPunct '.' = false)
    (fun found _ _ _ hc => hc.of_ok fun _ => java.runs_modifiersRound found)
    (fun _ _ _ _ => modifiersRound_groovy) hc hfound hdot).1

/-! ## Clauses of types and type parameters -/

theorem typesRound_groovy (hc : c.Shared) (h : java.typesRound found c = .ok r d) :
    groovy.typesRound (found.map Tree.normalized) c =
      .ok (r.map (List.map Tree.normalized) (List.map Tree.normalized)) d := by
  simp only [typesRound, passLines_bind, get_bind, ite_run, ite_ok, bump_bind, bind_ok, pure_ok,
    java_pastLines, hc.pastLines] at h ⊢
  obtain ⟨type, e, htype, hrest⟩ := h
  have he : e.Shared := hc.of_ok (fun _ => java.runs_typeNode) htype
  refine ⟨type.normalized, e, typeNode_groovy htype, ?_⟩
  rw [he.peek, he.pastLines]
  rcases hrest with ⟨hcomma, rfl, rfl⟩ | ⟨hcomma, rfl, rfl⟩
  · exact .inl ⟨hcomma, by simp [Step.map], rfl⟩
  · exact .inr ⟨hcomma, by simp [Step.map], rfl⟩

theorem typeList_groovy {kind : JavaKind} {keyword : String} (hc : c.Shared)
    (h : java.typeList kind keyword c = .ok t d) :
    groovy.typeList kind keyword c = .ok t.normalized d := by
  simp only [typeList, bind_ok, pure_ok] at h ⊢
  obtain ⟨word, e, hword, types, f, htypes, rfl, rfl⟩ := h
  have he : e.Shared := hc.of_ok (fun _ => runs_expectKeyword keyword) hword
  refine ⟨word, e, hword, types.map Tree.normalized, f, ?_, (normalized_node ..).symm, rfl⟩
  exact iterate_maps _ _ Cursor.Shared
    (fun found _ _ _ hc => hc.of_ok fun _ => java.runs_typesRound found)
    (fun _ _ _ _ => typesRound_groovy) he htypes

theorem bounds_groovy (h : java.bounds c = .ok () d) : groovy.bounds c = .ok () d := by
  refine iterate_maps id id (fun _ => True) (fun _ _ _ _ _ _ => trivial)
    (fun _ c r d _ hround => ?_) trivial h
  simp only [eatPunct_bind, ite_ok, bind_ok] at hround ⊢
  obtain ⟨text, e, htext, ⟨hand, hnext⟩ | ⟨hand, hdone⟩⟩ := hround
  · cases hnext
    exact ⟨text, e, typeText_groovy htext, .inl ⟨hand, rfl⟩⟩
  · cases hdone
    exact ⟨text, d, typeText_groovy htext, .inr ⟨hand, rfl⟩⟩

theorem typeParametersRound_groovy (hc : c.Shared)
    (h : java.typeParametersRound found c = .ok r d) :
    groovy.typeParametersRound (found.map Tree.normalized) c =
      .ok (r.map (List.map Tree.normalized) (List.map Tree.normalized)) d := by
  simp only [typeParametersRound, passLines_bind, get_bind, eatKeyword_bind, eatPunct_bind, ite_run,
    ite_ok, bind_ok, pure_ok, Bool.false_eq_true, if_true, if_false, java_pastLines, hc.pastLines]
    at h ⊢
  obtain ⟨name, e, hname, hrest⟩ := h
  have he : e.Shared := hc.of_ok (fun _ => java.runs_name) hname
  refine ⟨name, e, name_groovy hname, ?_⟩
  -- With bounds and without: the text since the start ends at another place, all else is alike.
  rcases hrest with ⟨hextends, _, f, hbounds, text, f', htext, hrest⟩ |
    ⟨hextends, text, f', htext, hrest⟩
  · have hf : f.Shared := (he.onward e.onward_next).of_ok (fun _ => java.runs_bounds) hbounds
    have hf' : f'.Shared := hf.onward ((forward_textSince _).onward htext)
    refine .inl ⟨hextends, (), f, bounds_groovy hbounds, text, f', htext, ?_⟩
    rw [hf'.pastLines]
    rcases hrest with ⟨hcomma, rfl, rfl⟩ | ⟨hcomma, close, g, hclose, rfl, rfl⟩
    · exact .inl ⟨hcomma, by simp [Step.map, normalized_leaf], rfl⟩
    · exact .inr ⟨hcomma, close, g, hclose, by simp [Step.map, normalized_leaf], rfl⟩
  · have hf' : f'.Shared := he.onward ((forward_textSince _).onward htext)
    refine .inr ⟨hextends, text, f', htext, ?_⟩
    rw [hf'.pastLines]
    rcases hrest with ⟨hcomma, rfl, rfl⟩ | ⟨hcomma, close, g, hclose, rfl, rfl⟩
    · exact .inl ⟨hcomma, by simp [Step.map, normalized_leaf], rfl⟩
    · exact .inr ⟨hcomma, close, g, hclose, by simp [Step.map, normalized_leaf], rfl⟩

theorem typeParameters_groovy (hc : c.Shared) (h : java.typeParameters c = .ok t d) :
    groovy.typeParameters c = .ok t.normalized d := by
  simp only [typeParameters, bind_ok, pure_ok] at h ⊢
  obtain ⟨start, e, hstart, found, f, hfound, rfl, rfl⟩ := h
  have he : e.Shared := hc.of_ok (fun _ => runs_expectPunct '<') hstart
  refine ⟨start, e, hstart, found.map Tree.normalized, f, ?_, (normalized_node ..).symm, rfl⟩
  exact iterate_maps _ _ Cursor.Shared
    (fun found _ _ _ hc => hc.of_ok fun _ => java.runs_typeParametersRound found)
    (fun _ _ _ _ => typeParametersRound_groovy) he hfound

end

end Grammar

end ApiDoc.Syntax
