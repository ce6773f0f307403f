import ApiDoc.Proofs.Syntax.Identifier
import ApiDoc.Proofs.Syntax.Total

/-!
# Members of bodies

What stands in the bodies of a file. `Grammar.MemberOf` is one level of a declaration, with a
predicate for the bodies in it; `Grammar.TopOf` says the same of what stands at the top of a file. A
type and a constructor bear the text of a word token, so their names are identifiers. That depends
on the tokens and not only on the grammar, so it is carried by `Parser.Finds`, which follows a
parser through the places of one source.

Bodies are read one level of nesting at a time. A predicate that a body has as soon as the bodies
one level below have it is one that every body has (`finds_body`), and the bodies of a file have it
in particular: `Java.topOf_parse`, `Groovy.isTop_parse`. Whatever is said of whole files below, on
their names, their nesting or their dimensions, is said by such a predicate.
-/

namespace ApiDoc.Syntax

/-! ## Values of parsers over a source -/

namespace Parser

/-- In the source `track`, a parser returns what satisfies `P`, and stays in the source. -/
def Finds {α : Type} (track : Track) (p : Parser α) (P : α → Prop) : Prop :=
  ∀ ⦃c a d⦄, c.slots = track.slots → p c = .ok a d → P a ∧ d.slots = track.slots

namespace Finds

variable {σ α β γ : Type} {track : Track} {p q : Parser α} {P : α → Prop} {Q : β → Prop}
  {reach : α → Nat}

theorem of_yields (h : p.Yields P) (hruns : Runs track 0 p reach) : p.Finds track P :=
  fun _ _ _ hc hrun => ⟨h hrun, hruns.slots_eq hrun hc⟩

theorem pure {a : α} (h : P a) : (Pure.pure a : Parser α).Finds track P := by
  intro c b d hc hrun
  cases hrun
  exact ⟨h, hc⟩

theorem throw (e : ParseError) : (MonadExcept.throw e : Parser α).Finds track P := by
  intro c a d _ hrun
  cases hrun

theorem bind {k : α → Parser β} (hp : p.Finds track P) (hk : ∀ a, P a → (k a).Finds track Q) :
    (p >>= k).Finds track Q := by
  intro c b d hc hrun
  obtain ⟨a, e, ha, hb⟩ := bind_ok.mp hrun
  obtain ⟨hP, he⟩ := hp hc ha
  exact hk a hP he hb

/-- Nothing needs to be known of the first of two parts. -/
theorem seq {k : α → Parser β} (hruns : Runs track 0 p reach) (hk : ∀ a, (k a).Finds track Q) :
    (p >>= k).Finds track Q :=
  (of_yields (.any p) hruns).bind fun a _ => hk a

theorem get {k : Cursor → Parser β} (hk : ∀ c, (k c).Finds track Q) :
    (MonadState.get >>= k).Finds track Q :=
  fun c _ _ hc hrun => hk c hc hrun

theorem ite {b : Prop} [Decidable b] (hp : p.Finds track P) (hq : q.Finds track P) :
    (if b then p else q).Finds track P := by
  split
  · exact hp
  · exact hq

/-- A step that is left out at times, and what comes behind it. -/
theorem guarded {b : Prop} [Decidable b] {p : Parser Unit} {k : Unit → Parser β}
    (hruns : Runs track 0 p fun _ => 0) (hk : ∀ u, (k u).Finds track Q) :
    (if b then p >>= k else k ()).Finds track Q :=
  .ite (.seq hruns hk) (hk ())

/-- A tree that may be missing, and what comes behind it. -/
theorem optional {κ : Type} {b : Prop} [Decidable b] {p : Parser (Tree κ)} {P : Tree κ → Prop}
    {k : List (Tree κ) → Parser γ} {R : γ → Prop} (hp : p.Finds track P)
    (hk : ∀ ts, AtMostOne P ts → (k ts).Finds track R) :
    (if b then p >>= fun t => Pure.pure [t] >>= k else Pure.pure [] >>= k).Finds track R :=
  .ite (hp.bind fun t ht => .bind (.pure (.inr ⟨t, ht, rfl⟩)) hk) (.bind (.pure (.inl rfl)) hk)

/-- A repetition keeps what its rounds keep of all that is found. -/
theorem collect {body : List α → Parser (Step (List α) (List α))}
    (hbody : ∀ found, (∀ x ∈ found, P x) → (body found).Finds track (Step.AllOf P))
    {found : List α} (hfound : ∀ x ∈ found, P x) :
    (Parser.iterate found body).Finds track fun found => ∀ x ∈ found, P x := by
  intro c a d hc hrun
  revert hfound hc
  refine iterate_induction (motive := fun found c all d => (∀ x ∈ found, P x) →
    c.slots = track.slots → (∀ x ∈ all, P x) ∧ d.slots = track.slots) ?_ ?_ hrun
  · intro found c all d hround hfound hc
    exact hbody found hfound hc hround
  · intro found c found' e all d hround _ ih hfound hc
    obtain ⟨hfound', he⟩ := hbody found hfound hc hround
    exact ih hfound' he

/-- One value as a list of values. -/
theorem single {P' : α → Prop} (hp : p.Finds track P) (hP : ∀ a, P a → P' a) :
    (do return [← p] : Parser (List α)).Finds track fun xs => ∀ x ∈ xs, P' x :=
  hp.bind fun a ha => .pure (List.forall_mem_singleton.mpr (hP a ha))

/-- What is found in every source whose words are identifiers is found in every text. -/
theorem of_source {lexicon : Lexicon} {source : String} {a : α}
    (hp : ∀ track : Track, track.Worded → p.Finds track P)
    (h : (lexicon.tokenize source >>= fun tokens => p.read (Cursor.ofTokens tokens)) = .ok a) :
    P a := by
  cases htokens : lexicon.tokenize source with
  | error e =>
    rw [htokens] at h
    cases h
  | ok tokens =>
    rw [htokens] at h
    obtain ⟨d, hrun⟩ := read_ok.mp (show p.read (Cursor.ofTokens tokens) = .ok a from h)
    have hworded := Track.worded_ofTokens (Lexicon.worded_of_tokenize htokens)
    exact (hp _ hworded (Cursor.slots_ofTokens tokens) hrun).1

end Finds

end Parser

/-! ## Levels of declarations -/

namespace Grammar

open ApiDoc.Syntax.Parser

variable {κ : Type}

section

variable (g : Grammar κ) (B : String → Tree κ → Prop)

/-- An enum constant. `B` says what its body is like, given the name of the class whose constructors
may stand there: none has an empty name. -/
def IsConstant (t : Tree κ) : Prop :=
  t.kind = g.kind .enumConstantDef ∧ ∃ annotations arguments body,
    t.children = annotations ++ arguments ++ body ∧ (∀ a ∈ annotations, g.IsAnnotationMark a) ∧
      AtMostOne (g.IsLeaf .expr) arguments ∧ AtMostOne (B "") body

/-- A type. `B` says what its body is like. -/
def IsTypeDef (t : Tree κ) : Prop :=
  g.IsTypeKind t.kind ∧ IsIdentifier t.text ∧ ∃ modifiers parameters extended implemented body,
    t.children = [modifiers] ++ parameters ++ extended ++ implemented ++ [body] ∧
      g.IsModifiers modifiers ∧
      AtMostOne (g.IsListOf .typeParameters .typeParameter) parameters ∧
      AtMostOne (g.IsListOf .extendsClause .type) extended ∧
      AtMostOne (g.IsListOf .implementsClause .type) implemented ∧ B t.text body

/-- A member of a body, where the constructors of `className` may stand; `B` says what the bodies in
it are like. A constructor has no type; a value makes it an annotation element all the same. -/
inductive MemberOf : (className : Option String) → Tree κ → Prop
  | field {className : Option String} {t : Tree κ} (h : g.IsField t) : MemberOf className t
  | method {className : Option String} {t : Tree κ} (h : g.IsMethod t) : MemberOf className t
  | constructor {t : Tree κ} (hname : IsIdentifier t.text) (h : g.IsConstructor t) :
      MemberOf (some t.text) t
  | initializer {className : Option String} {t : Tree κ} (h : g.IsInitializer t) :
      MemberOf className t
  | constant {className : Option String} {t : Tree κ} (h : g.IsConstant B t) :
      MemberOf className t
  | typeDef {className : Option String} {t : Tree κ} (h : g.IsTypeDef B t) : MemberOf className t

/-- A body; `B` says what the bodies in its members are like. -/
def BodyOf (className : String) (t : Tree κ) : Prop :=
  t.kind = g.kind .objBlock ∧ ∀ m ∈ t.children, g.MemberOf B (some className) m

/-- What stands at the top of a file of either language: a package clause, an import or a type. -/
def TopOf (t : Tree κ) : Prop :=
  g.IsLeaf .packageDef t ∨ g.IsLeaf .importDef t ∨ g.IsLeaf .staticImport t ∨ g.IsTypeDef B t

end

variable {g : Grammar κ} {track : Track} {B : String → Tree κ → Prop} (hwords : track.Worded)

include hwords in
theorem finds_name : g.name.Finds track IsIdentifier := by
  intro c name d hc hrun
  refine ⟨?_, g.runs_name.slots_eq hrun hc⟩
  obtain ⟨t, e, hexpect, hpure⟩ := bind_ok.mp hrun
  cases hpure
  obtain ⟨hname, rfl, -⟩ := expectName_ok.mp hexpect
  apply hwords.here hc
  simp only [Token.isName, Bool.or_eq_true, Bool.and_eq_true, decide_eq_true_eq] at hname
  exact hname.imp id And.left

include hwords in
theorem finds_methodOrFields (start : Cursor) {modifiers : Tree κ}
    (hmodifiers : g.IsModifiers modifiers) (className : Option String) :
    (g.methodOrFields start modifiers className).Finds track
      fun ms => ∀ m ∈ ms, g.MemberOf B className m := by
  intro c ms d hc hrun
  refine ⟨?_, (g.runs_methodOrFields _ _ _).slots_eq hrun hc⟩
  rcases g.methodOrFields_ok hmodifiers hrun with ⟨e, m, hslots, hident, rfl, hname, hm, rfl⟩ | hms
  · have hidentifier : IsIdentifier m.text := by
      rw [hname]
      exact hwords.here (hslots track hc) (.inl hident)
    rw [← hname]
    exact List.forall_mem_singleton.mpr (.constructor hidentifier hm)
  · exact fun m hm => (hms m hm).elim .method .field

section

variable {inside : BodyParser κ}
  (h : ∀ className isEnum, (inside className isEnum).Finds track (B className))
include h

include hwords in
theorem finds_typeDef (start : Cursor) {modifiers : Tree κ} (hmodifiers : g.IsModifiers modifiers) :
    (g.typeDef inside start modifiers).Finds track (g.IsTypeDef B) := by
  unfold typeDef
  simp only [monadLift_eq]
  refine .bind (.of_yields g.yields_typeKeyword g.runs_typeKeyword) fun keyword hkeyword => ?_
  refine (finds_name hwords).bind fun name hname => ?_
  refine .seq (runs_atPunct _) fun _ => ?_
  refine .optional (.of_yields g.yields_typeParameters g.runs_typeParameters)
    fun parameters hparameters => ?_
  refine .seq g.runs_passLines fun _ => ?_
  refine .bind (.of_yields (g.yields_clause _ _) (g.runs_clause _ _)) fun extended hextended => ?_
  refine .bind (.of_yields (g.yields_clause _ _) (g.runs_clause _ _))
    fun implemented himplemented => ?_
  refine (h name keyword.2).bind fun body hbody => ?_
  exact .pure ⟨hkeyword, hname, modifiers, parameters, extended, implemented, body, rfl, hmodifiers,
    hparameters, hextended, himplemented, hbody⟩

theorem finds_enumConstant : (g.enumConstant inside).Finds track (g.IsConstant B) := by
  unfold enumConstant
  simp only [monadLift_eq]
  refine .get fun start => ?_
  refine .bind (.of_yields g.yields_annotations g.runs_annotations)
    fun annotations hannotations => ?_
  refine .seq g.runs_name fun name => ?_
  refine .seq (runs_atPunct _) fun _ => ?_
  refine .optional (.of_yields g.yields_parenthesized g.runs_parenthesized)
    fun arguments harguments => ?_
  refine .seq (runs_atPunct _) fun _ => ?_
  refine .optional (h "" false) fun body hbody => ?_
  exact .pure ⟨rfl, annotations, arguments, body, rfl, hannotations, harguments, hbody⟩

theorem finds_constantsRound (found : List (Tree κ)) (hfound : ∀ c ∈ found, g.IsConstant B c) :
    (g.constantsRound inside found).Finds track (Step.AllOf (g.IsConstant B)) := by
  unfold constantsRound
  simp only [monadLift_eq]
  refine .seq g.runs_passLines fun _ => ?_
  refine .seq (runs_atPunct _) fun _ => ?_
  apply Finds.ite
  · exact .pure hfound
  refine .seq (runs_eatPunct _) fun _ => ?_
  apply Finds.ite
  · exact .pure hfound
  refine (finds_enumConstant h).bind fun c hc => ?_
  have hmore := forall_mem_concat hfound hc
  refine .seq g.runs_passLines fun _ => ?_
  refine .seq (runs_eatPunct _) fun _ => ?_
  apply Finds.ite
  · exact .pure hmore
  · refine .seq g.runs_endOfConstants fun _ => ?_
    exact .pure hmore

theorem finds_enumConstants :
    (g.enumConstants inside).Finds track fun cs => ∀ c ∈ cs, g.IsConstant B c :=
  .collect (finds_constantsRound h) nofun

include hwords in
theorem finds_member (className : String) :
    (g.member inside className).Finds track
      fun ms => ∀ m ∈ ms, g.MemberOf B (some className) m := by
  have hinitializer : ∀ {kind : JavaKind} {pos : Text.Position},
      kind = .instanceInit ∨ kind = .staticInit →
      (g.initializer kind pos).Finds track g.IsInitializer := fun hkind =>
    .of_yields (g.yields_initializer hkind _) (g.runs_initializer _ _)
  unfold member
  simp only [monadLift_eq]
  refine .get fun start => ?_
  apply Finds.ite
  · exact (hinitializer (.inl rfl)).single fun _ => .initializer
  apply Finds.ite
  · refine .seq runs_take fun _ => ?_
    refine .seq g.runs_passLines fun _ => ?_
    exact (hinitializer (.inr rfl)).single fun _ => .initializer
  refine .bind (.of_yields g.yields_modifiers g.runs_modifiers) fun modifiers hmodifiers => ?_
  refine .get fun _ => ?_
  apply Finds.ite
  · exact (finds_typeDef hwords h start hmodifiers).single fun _ => .typeDef
  · exact finds_methodOrFields hwords start hmodifiers _

include hwords in
theorem finds_membersRound (className : String) (found : List (Tree κ))
    (hfound : ∀ m ∈ found, g.MemberOf B (some className) m) :
    (g.membersRound inside className found).Finds track
      (Step.AllOf (g.MemberOf B (some className))) := by
  unfold membersRound
  simp only [monadLift_eq]
  refine .seq g.runs_passSeparators fun _ => ?_
  refine .seq (runs_eatPunct _) fun _ => ?_
  apply Finds.ite
  · exact .pure hfound
  refine .seq runs_peek fun _ => ?_
  refine .guarded (runs_unexpected _) fun _ => ?_
  refine (finds_member hwords h className).bind fun more hmore => .pure fun m hm => ?_
  exact (List.mem_append.mp hm).elim (hfound m) (hmore m)

include hwords in
theorem finds_members (className : String) (isEnum : Bool) :
    (g.members inside className isEnum).Finds track (g.BodyOf B className) := by
  have hrounds : ∀ constants, (∀ c ∈ constants, g.MemberOf B (some className) c) →
      (iterate constants (g.membersRound inside className)).Finds track
        fun found => ∀ m ∈ found, g.MemberOf B (some className) m := fun _ =>
    .collect (finds_membersRound hwords h className)
  unfold members
  simp only [monadLift_eq, iterate_eq]
  refine .seq (runs_expectPunct _) fun start => ?_
  cases isEnum with
  | true =>
    refine (finds_enumConstants h).bind fun constants hconstants => ?_
    refine (hrounds constants fun c hc => .constant (hconstants c hc)).bind fun found hfound => ?_
    exact .pure ⟨rfl, hfound⟩
  | false =>
    refine .bind (.pure rfl) fun constants (hnone : [] = constants) => ?_
    refine (hrounds constants (hnone ▸ nofun)).bind fun found hfound => ?_
    exact .pure ⟨rfl, hfound⟩

end

include hwords in
/-- What a body has if the bodies one level below have it, every body has. -/
theorem finds_body {B : Nat → String → Tree κ → Prop}
    (hB : ∀ levels name b, g.BodyOf (B levels) name b → B (levels + 1) name b) (levels : Nat)
    (className : String) (isEnum : Bool) :
    (g.body levels className isEnum).Finds track (B levels className) := by
  induction levels generalizing className isEnum with
  | zero => exact .seq runs_pos fun _ => .throw _
  | succ levels ih =>
    intro c b d hc hrun
    obtain ⟨hbody, hd⟩ := finds_members hwords ih className isEnum hc hrun
    exact ⟨hB levels className b hbody, hd⟩

/-! ## Files -/

theorem yields_packageDef_top : g.packageDef.Yields (g.TopOf B) :=
  fun _ _ _ hrun => .inl (g.yields_packageDef hrun)

theorem yields_importDef_top : g.importDef.Yields (g.TopOf B) :=
  fun _ _ _ hrun => .inr ((g.yields_importDef hrun).imp_right .inl)

end Grammar

open ApiDoc.Syntax.Parser ApiDoc.Syntax.Grammar

variable {source : String}

namespace Java

variable {track : Track} (hwords : track.Worded)

section

variable {B : String → Tree JavaKind → Prop}
  (h : ∀ className isEnum, (java.body maxNesting className isEnum).Finds track (B className))
include hwords h

theorem finds_declaration : declaration.Finds track (java.TopOf B) := by
  refine .get fun start => ?_
  refine .bind (.of_yields java.yields_modifiers java.runs_modifiers) fun modifiers hmodifiers => ?_
  refine .get fun _ => ?_
  apply Finds.ite
  · exact .of_yields yields_packageDef_top java.runs_packageDef
  apply Finds.ite
  · exact .of_yields yields_importDef_top java.runs_importDef
  apply Finds.ite
  · intro c t d hc hrun
    obtain ⟨ht, hd⟩ := finds_typeDef hwords h start hmodifiers hc hrun
    exact ⟨.inr (.inr (.inr ht)), hd⟩
  · exact .get fun _ => .throw _

theorem finds_fileRound (found : List (Tree JavaKind)) (hfound : ∀ s ∈ found, java.TopOf B s) :
    (fileRound found).Finds track (Step.AllOf (java.TopOf B)) := by
  refine .seq java.runs_passSeparators fun _ => ?_
  refine .seq runs_peek fun _ => ?_
  apply Finds.ite
  · exact .pure hfound
  · exact (finds_declaration hwords h).bind fun t ht => .pure (forall_mem_concat hfound ht)

theorem finds_file :
    file.Finds track fun t => t.kind = .compilationUnit ∧ ∀ s ∈ t.children, java.TopOf B s := by
  refine .bind (.collect (finds_fileRound hwords h) nofun) fun found hfound => ?_
  exact .pure ⟨rfl, hfound⟩

end

/-- A Java file is a list of package clauses, imports and types. -/
theorem topOf_parse {t : Tree JavaKind} {B : Nat → String → Tree JavaKind → Prop}
    (hB : ∀ levels name b, java.BodyOf (B levels) name b → B (levels + 1) name b)
    (h : parse source = .ok t) :
    t.kind = .compilationUnit ∧ ∀ s ∈ t.children, java.TopOf (B maxNesting) s := by
  refine Finds.of_source (P := fun t => t.kind = .compilationUnit ∧ ∀ s ∈ t.children,
    java.TopOf (B maxNesting) s) (fun _ hwords => ?_) h
  exact finds_file hwords (finds_body hwords hB maxNesting)

end Java

namespace Groovy

variable {track : Track} (hwords : track.Worded)

section

variable {B : String → Tree NodeKind → Prop}

variable (B) in
/-- What stands at the top of a Groovy file: what stands there in both languages, a script method or
a statement. -/
def IsTop (t : Tree NodeKind) : Prop :=
  groovy.TopOf B t ∨ groovy.IsMethod t ∨ t.kind = .statement ∧ t.children = []

variable
  (h : ∀ className isEnum, (groovy.body maxNesting className isEnum).Finds track (B className))
include hwords h

theorem finds_declaration : declaration.Finds track (IsTop B) := by
  intro c t d hc hrun
  refine ⟨?_, runs_declaration.slots_eq hrun hc⟩
  rw [declaration, get_bind] at hrun
  obtain ⟨modifiers, e, hmodifiers, hrun⟩ := bind_ok.mp hrun
  have hshape := groovy.yields_modifiers hmodifiers
  rw [get_bind, ite_run, ite_ok] at hrun
  rcases hrun with ⟨-, hrun⟩ | ⟨-, hrun⟩
  · have he : e.slots = track.slots := groovy.runs_modifiers.slots_eq hmodifiers hc
    exact .inl (.inr (.inr (.inr (finds_typeDef hwords h c hshape he hrun).1)))
  obtain ⟨found, f, hlook, hrun⟩ := bind_ok.mp hrun
  obtain ⟨rfl, f, hhead⟩ := lookahead_ok forward_methodHead hlook
  cases found with
  | true =>
    obtain ⟨ms, g, hms, hlast⟩ := bind_ok.mp hrun
    obtain ⟨m, rfl, hkind⟩ := eq_single_of_methodHead hhead hms
    cases hlast
    -- constructors stand in classes, and what was looked for is no field
    rcases groovy.methodOrFields_ok hshape hms with ⟨_, _, _, _, hclass, _⟩ | hmember
    · cases hclass
    · refine .inr (.inl ((hmember m List.mem_cons_self).resolve_right fun hfield => ?_))
      have hvariable : m.kind = .variableDef := hfield.1
      rw [hvariable] at hkind
      simp at hkind
  | false =>
    obtain ⟨_, g, -, hrun⟩ := bind_ok.mp hrun
    exact .inr (.inr (yields_statement hrun))

theorem finds_fileRound (found : List (Tree NodeKind)) (hfound : ∀ s ∈ found, IsTop B s) :
    (fileRound found).Finds track (Step.AllOf (IsTop B)) := by
  intro c r d hc hrun
  refine ⟨?_, (runs_fileRound found).slots_eq hrun hc⟩
  rcases fileRound_ok hrun with ⟨-, rfl, -⟩ | ⟨n, rfl, hn⟩
  · exact hfound
  · apply forall_mem_concat hfound
    rcases hn with hn | hn | hn
    · exact .inl (yields_packageDef_top hn)
    · exact .inl (yields_importDef_top hn)
    · exact (finds_declaration hwords h ((groovy.onward_pastSeparators c).slots_eq.trans hc) hn).1

theorem finds_file :
    file.Finds track fun t => t.kind = .compilationUnit ∧ ∀ s ∈ t.children, IsTop B s := by
  refine .bind (.collect (finds_fileRound hwords h) nofun) fun found hfound => ?_
  exact .pure ⟨rfl, hfound⟩

end

/-- A Groovy file is a list of such declarations. -/
theorem isTop_parse {t : Tree NodeKind} {B : Nat → String → Tree NodeKind → Prop}
    (hB : ∀ levels name b, groovy.BodyOf (B levels) name b → B (levels + 1) name b)
    (h : parse source = .ok t) :
    t.kind = .compilationUnit ∧ ∀ s ∈ t.children, IsTop (B maxNesting) s := by
  refine Finds.of_source (P := fun t => t.kind = .compilationUnit ∧ ∀ s ∈ t.children,
    IsTop (B maxNesting) s) (fun _ hwords => ?_) h
  exact finds_file hwords (finds_body hwords hB maxNesting)

end Groovy

end ApiDoc.Syntax
