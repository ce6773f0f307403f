import ApiDoc.Proofs.Syntax.Progress
import ApiDoc.Syntax.Java

/-!
# The shape of declarations

Which children the nodes of a tree have, and in which order: those of modifiers, types and
parameters, and of the members of a body that have no body of their own. Whatever the grammar reads
has its shape: `Parser.Yields` says what the values of a parser satisfy, and it passes through
sequences, choices and repetitions.
-/

namespace ApiDoc.Syntax

/-! ## Shapes -/

/-- At most one tree, which satisfies `P`. -/
def AtMostOne {κ : Type} (P : Tree κ → Prop) (ts : List (Tree κ)) : Prop :=
  ts = [] ∨ ∃ t, P t ∧ ts = [t]

theorem AtMostOne.forall_mem {κ : Type} {P Q : Tree κ → Prop} {ts : List (Tree κ)}
    (h : AtMostOne P ts) (hPQ : ∀ t, P t → Q t) : ∀ t ∈ ts, Q t := by
  rcases h with rfl | ⟨t, ht, rfl⟩
  · exact nofun
  · exact List.forall_mem_singleton.mpr (hPQ t ht)

namespace Grammar

variable {κ : Type} (g : Grammar κ)

/-- A node of a kind, without children. -/
def IsLeaf (kind : JavaKind) (t : Tree κ) : Prop := t.kind = g.kind kind ∧ t.children = []

/-- An annotation, with its arguments unread. -/
def IsAnnotationMark (t : Tree κ) : Prop :=
  t.kind = g.kind .annotationMark ∧ AtMostOne (g.IsLeaf .expr) t.children

/-- A list of modifiers and annotations. -/
def IsModifiers (t : Tree κ) : Prop :=
  t.kind = g.kind .modifiers ∧ ∀ m ∈ t.children, g.IsLeaf .modifier m ∨ g.IsAnnotationMark m

/-- A list of nodes without children. -/
def IsListOf (kind item : JavaKind) (t : Tree κ) : Prop :=
  t.kind = g.kind kind ∧ ∀ c ∈ t.children, g.IsLeaf item c

/-- What a field or a parameter has: modifiers, a type, dimensions and a value. -/
def IsDeclarator (ts : List (Tree κ)) : Prop :=
  ∃ modifiers type dims value, ts = [modifiers, type] ++ dims ++ value ∧
    g.IsModifiers modifiers ∧ g.IsLeaf .type type ∧
    AtMostOne (g.IsLeaf .arrayDeclarator) dims ∧ AtMostOne (g.IsLeaf .expr) value

/-- A parameter. -/
def IsParameter (t : Tree κ) : Prop :=
  (t.kind = g.kind .parameterDef ∨ t.kind = g.kind .variableParameterDef) ∧
    g.IsDeclarator t.children

/-- A list of parameters. -/
def IsParameters (t : Tree κ) : Prop :=
  t.kind = g.kind .parameters ∧ ∀ p ∈ t.children, g.IsParameter p

/-- What a method has behind its type: parameters, dimensions, thrown types, and a body or a
value. -/
def IsMethodRest (ts : List (Tree κ)) : Prop :=
  ∃ parameters dims throws last, ts = [parameters] ++ dims ++ throws ++ last ∧
    g.IsParameters parameters ∧ AtMostOne (g.IsLeaf .arrayDeclarator) dims ∧
    AtMostOne (g.IsListOf .throws .type) throws ∧
    AtMostOne (fun t => g.IsLeaf .slist t ∨ g.IsLeaf .expr t) last

/-- A field. -/
def IsField (t : Tree κ) : Prop := t.kind = g.kind .variableDef ∧ g.IsDeclarator t.children

/-- A method, or what a value makes of it: an annotation element. -/
def IsMethod (t : Tree κ) : Prop :=
  (t.kind = g.kind .methodDef ∨ t.kind = g.kind .annotationFieldDef) ∧
    ∃ modifiers parameters type rest, t.children = [modifiers] ++ parameters ++ [type] ++ rest ∧
      g.IsModifiers modifiers ∧
      AtMostOne (g.IsListOf .typeParameters .typeParameter) parameters ∧
      g.IsLeaf .type type ∧ g.IsMethodRest rest

/-- A constructor, or what a value makes of it: an annotation element without a type. -/
def IsConstructor (t : Tree κ) : Prop :=
  (t.kind = g.kind .ctorDef ∨ t.kind = g.kind .annotationFieldDef) ∧
    ∃ modifiers parameters rest, t.children = [modifiers] ++ parameters ++ rest ∧
      g.IsModifiers modifiers ∧
      AtMostOne (g.IsListOf .typeParameters .typeParameter) parameters ∧ g.IsMethodRest rest

/-- Is it a kind of type? -/
def IsTypeKind (kind : κ) : Prop := kind = g.kind .annotationDef ∨ ∃ word, kind = g.typeKind word

/-- An initializer. -/
def IsInitializer (t : Tree κ) : Prop :=
  (t.kind = g.kind .instanceInit ∨ t.kind = g.kind .staticInit) ∧
    ∃ body, g.IsLeaf .slist body ∧ t.children = [body]

end Grammar

/-! ## Values of parsers -/

namespace Parser

/-- Whatever a parser returns satisfies `P`. -/
def Yields {α : Type} (p : Parser α) (P : α → Prop) : Prop :=
  ∀ ⦃c a d⦄, p c = .ok a d → P a

/-- What the state of a next round or the result of a last one satisfies. -/
def Step.All {σ α : Type} (I : σ → Prop) (P : α → Prop) : Step σ α → Prop
  | .next s => I s
  | .done a => P a

/-- `P` holds of all that is found, in a next round or at the end. -/
abbrev Step.AllOf {α : Type} (P : α → Prop) : Step (List α) (List α) → Prop :=
  Step.All (fun found => ∀ x ∈ found, P x) fun found => ∀ x ∈ found, P x

namespace Yields

variable {σ α β : Type} {p q : Parser α} {P : α → Prop} {Q : β → Prop}

theorem pure {a : α} (h : P a) : (Pure.pure a : Parser α).Yields P := by
  intro c b d hrun
  exact (pure_ok.mp hrun).1 ▸ h

theorem throw (error : ParseError) : (MonadExcept.throw error : Parser α).Yields P := by
  intro c a d hrun
  cases hrun

theorem any (p : Parser α) : p.Yields fun _ => True := fun _ _ _ _ => trivial

theorem bind {k : α → Parser β} (hp : p.Yields P) (hk : ∀ a, P a → (k a).Yields Q) :
    (p >>= k).Yields Q := by
  intro c b d hrun
  obtain ⟨a, e, ha, hb⟩ := bind_ok.mp hrun
  exact hk a (hp ha) hb

/-- Nothing needs to be known of the first of two parts. -/
theorem seq {k : α → Parser β} (hk : ∀ a, (k a).Yields Q) : (p >>= k).Yields Q :=
  (any p).bind fun a _ => hk a

theorem ite {b : Prop} [Decidable b] (hp : p.Yields P) (hq : q.Yields P) :
    (if b then p else q).Yields P := by
  split
  · exact hp
  · exact hq

/-- A part that may be missing and gives nothing, and what comes behind it. -/
theorem guarded {b : Prop} [Decidable b] {p : Parser Unit} {k : Unit → Parser β}
    (hk : ∀ u, (k u).Yields Q) : (if b then p >>= k else k ()).Yields Q :=
  .ite (.seq hk) (hk ())

/-- Where the cursor matters, follow the parser from the cursor it starts at. -/
theorem get {k : Cursor → Parser β} (h : ∀ c b d, k c c = .ok b d → Q b) :
    (MonadState.get >>= k).Yields Q :=
  h

/-- A repetition keeps what its rounds keep. -/
theorem iterate {body : σ → Parser (Step σ α)} (I : σ → Prop)
    (hbody : ∀ s, I s → (body s).Yields (Step.All I P)) {s : σ} (hs : I s) :
    (Parser.iterate s body).Yields P := by
  intro c a d hrun
  revert hs
  refine iterate_induction (motive := fun s _ a _ => I s → P a) ?_ ?_ hrun
  · exact fun s c a d hround hs => hbody s hs hround
  · exact fun s c s' e a d hround _ ih hs => ih (hbody s hs hround)

/-- A list that is found round by round. -/
theorem collect {body : List α → Parser (Step (List α) (List α))} {found : List α}
    (hbody : ∀ found, (∀ x ∈ found, P x) → (body found).Yields (Step.AllOf P))
    (hfound : ∀ x ∈ found, P x) :
    (Parser.iterate found body).Yields fun found => ∀ x ∈ found, P x :=
  .iterate _ hbody hfound

end Yields

end Parser

theorem forall_mem_concat {α : Type} {P : α → Prop} {l : List α} {a : α} (h : ∀ x ∈ l, P x)
    (ha : P a) : ∀ x ∈ l ++ [a], P x := by
  simpa [or_imp, forall_and] using ⟨h, ha⟩

/-! ## What the grammar reads -/

namespace Grammar

open ApiDoc.Syntax.Parser

variable {κ : Type} (g : Grammar κ)

theorem isLeaf_leaf (kind : JavaKind) (text : String) (pos : Text.Position) :
    g.IsLeaf kind (g.leaf kind text pos) := ⟨rfl, rfl⟩

theorem yields_expression (atComma : Bool) : (g.expression atComma).Yields (g.IsLeaf .expr) :=
  .seq fun _ => .seq fun _ => .seq fun _ => .pure (g.isLeaf_leaf ..)

theorem yields_parenthesized : g.parenthesized.Yields (g.IsLeaf .expr) :=
  .seq fun _ => .seq fun _ => .seq fun _ => .pure (g.isLeaf_leaf ..)

theorem yields_block : g.block.Yields (g.IsLeaf .slist) :=
  .seq fun _ => .seq fun _ => .pure (g.isLeaf_leaf ..)

theorem yields_annotationMark : g.annotationMark.Yields g.IsAnnotationMark := by
  refine .seq fun _ => .seq fun _ => .seq fun _ => ?_
  apply Yields.ite
  · refine g.yields_parenthesized.bind fun arguments h => ?_
    exact .pure ⟨rfl, .inr ⟨arguments, h, rfl⟩⟩
  · exact .pure ⟨rfl, .inl rfl⟩

theorem yields_modifiersRound (found : List (Tree κ))
    (hfound : ∀ m ∈ found, g.IsLeaf .modifier m ∨ g.IsAnnotationMark m) :
    (g.modifiersRound found).Yields
      (Step.AllOf fun m => g.IsLeaf .modifier m ∨ g.IsAnnotationMark m) := by
  refine .seq fun c => ?_
  apply Yields.ite
  · refine g.yields_annotationMark.bind fun a ha => ?_
    refine .seq fun _ => ?_
    exact .pure (forall_mem_concat hfound (.inr ha))
  apply Yields.ite
  · refine .seq fun t => ?_
    refine .seq fun _ => ?_
    exact .pure (forall_mem_concat hfound (.inl (g.isLeaf_leaf ..)))
  · exact .pure hfound

theorem yields_modifiers : g.modifiers.Yields g.IsModifiers := by
  refine .seq fun _ => ?_
  refine .bind (.collect g.yields_modifiersRound nofun) fun found hfound => ?_
  exact .pure ⟨rfl, hfound⟩

theorem yields_typeNode : g.typeNode.Yields (g.IsLeaf .type) :=
  .seq fun _ => .seq fun _ => .pure (g.isLeaf_leaf ..)

theorem yields_typesRound (types : List (Tree κ)) (htypes : ∀ t ∈ types, g.IsLeaf .type t) :
    (g.typesRound types).Yields (Step.AllOf (g.IsLeaf .type)) := by
  refine .seq fun _ => ?_
  refine g.yields_typeNode.bind fun type htype => ?_
  have hmore := forall_mem_concat htypes htype
  refine .seq fun _ => ?_
  apply Yields.ite
  · refine .seq fun _ => ?_
    refine .seq fun _ => ?_
    exact .pure hmore
  · exact .pure hmore

theorem yields_typeList (kind : JavaKind) (keyword : String) :
    (g.typeList kind keyword).Yields (g.IsListOf kind .type) := by
  refine .seq fun _ => ?_
  refine .bind (.collect g.yields_typesRound nofun) fun types htypes => ?_
  exact .pure ⟨rfl, htypes⟩

theorem yields_typeParametersRound (found : List (Tree κ))
    (hfound : ∀ t ∈ found, g.IsLeaf .typeParameter t) :
    (g.typeParametersRound found).Yields (Step.AllOf (g.IsLeaf .typeParameter)) := by
  refine .seq fun _ => ?_
  refine .seq fun start => ?_
  refine .seq fun _ => ?_
  refine .seq fun _ => ?_
  refine .guarded fun _ => ?_
  refine .seq fun text => ?_
  have hmore := forall_mem_concat hfound (g.isLeaf_leaf .typeParameter text start.pos)
  refine .seq fun _ => ?_
  refine .seq fun _ => ?_
  apply Yields.ite
  · exact .pure hmore
  · refine .seq fun _ => ?_
    exact .pure hmore

theorem yields_typeParameters :
    g.typeParameters.Yields (g.IsListOf .typeParameters .typeParameter) := by
  refine .seq fun _ => ?_
  refine .bind (.collect g.yields_typeParametersRound nofun) fun found hfound => ?_
  exact .pure ⟨rfl, hfound⟩

/-! ### Members -/

theorem yields_declaredType (follows : Token → Bool) :
    (g.declaredType follows).Yields (g.IsLeaf .type) := by
  unfold declaredType
  cases g.language with
  | java => exact g.yields_typeNode
  | groovy =>
    exact .seq fun _ => .seq fun _ => .ite (.pure (g.isLeaf_leaf ..))
      (.ite (.pure (g.isLeaf_leaf ..)) g.yields_typeNode)

theorem yields_nameDimensions :
    g.nameDimensions.Yields (AtMostOne (g.IsLeaf .arrayDeclarator)) := by
  unfold nameDimensions
  cases g.language with
  | java =>
    refine .seq fun _ => .seq fun dims => .pure ?_
    split
    · exact .inl rfl
    · exact .inr ⟨_, g.isLeaf_leaf .., rfl⟩
  | groovy => exact .pure (.inl rfl)

theorem yields_defaultValue : g.defaultValue.Yields (AtMostOne (g.IsLeaf .expr)) := by
  unfold defaultValue
  cases g.language with
  | java => exact .pure (.inl rfl)
  | groovy =>
    exact .seq fun _ => .ite (.seq fun _ => .seq fun _ => .seq fun _ =>
      .pure (.inr ⟨_, g.isLeaf_leaf .., rfl⟩)) (.pure (.inl rfl))

theorem yields_parameter : g.parameter.Yields g.IsParameter := by
  refine .seq fun _ => ?_
  refine g.yields_modifiers.bind fun modifiers hmodifiers => ?_
  refine (g.yields_declaredType _).bind fun type htype => ?_
  refine .seq fun variadic => ?_
  refine .seq fun _ => ?_
  refine g.yields_nameDimensions.bind fun dims hdims => ?_
  refine g.yields_defaultValue.bind fun value hvalue => .pure ⟨?_, ?_⟩
  · cases variadic with
    | true => exact .inr rfl
    | false => exact .inl rfl
  · exact ⟨modifiers, type, dims, value, rfl, hmodifiers, htype, hdims, hvalue⟩

theorem yields_parametersRound (found : List (Tree κ)) (hfound : ∀ p ∈ found, g.IsParameter p) :
    (g.parametersRound found).Yields (Step.AllOf g.IsParameter) := by
  refine .seq fun _ => ?_
  refine .seq fun _ => ?_
  apply Yields.ite
  · exact .pure hfound
  refine g.yields_parameter.bind fun p hp => ?_
  have hmore := forall_mem_concat hfound hp
  refine .seq fun _ => ?_
  refine .seq fun _ => ?_
  apply Yields.ite
  · exact .pure hmore
  · refine .seq fun _ => ?_
    exact .pure hmore

theorem yields_parameters : g.parameters.Yields g.IsParameters := by
  refine .seq fun _ => ?_
  refine .bind (.collect g.yields_parametersRound nofun) fun found hfound => ?_
  exact .pure ⟨rfl, hfound⟩

theorem yields_throwsClause : g.throwsClause.Yields (AtMostOne (g.IsListOf .throws .type)) := by
  refine .seq fun _ => ?_
  apply Yields.ite
  · refine .seq fun _ => ?_
    refine (g.yields_typeList .throws "throws").bind fun throws hthrows => ?_
    exact .pure (.inr ⟨throws, hthrows, rfl⟩)
  · exact .pure (.inl rfl)

/-- A value makes an annotation element of any declaration. -/
theorem yields_methodEnd (kind : JavaKind) (found : List (Tree κ)) :
    (g.methodEnd kind found).Yields fun r => (r.1 = kind ∨ r.1 = .annotationFieldDef) ∧
      ∃ last, AtMostOne (fun t => g.IsLeaf .slist t ∨ g.IsLeaf .expr t) last ∧
        r.2 = found ++ last := by
  refine .seq fun _ => ?_
  apply Yields.ite
  · refine (g.yields_expression false).bind fun value hvalue => ?_
    refine .seq fun _ => ?_
    exact .pure ⟨.inr rfl, [value], .inr ⟨value, .inr hvalue, rfl⟩, rfl⟩
  refine .seq fun _ => ?_
  apply Yields.ite
  · refine g.yields_block.bind fun body hbody => ?_
    exact .pure ⟨.inl rfl, [body], .inr ⟨body, .inl hbody, rfl⟩, rfl⟩
  · refine .seq fun _ => ?_
    exact .pure ⟨.inl rfl, [], .inl rfl, (List.append_nil found).symm⟩

theorem yields_methodRest (kind : JavaKind) : (g.methodRest kind).Yields fun r =>
    (r.1 = kind ∨ r.1 = .annotationFieldDef) ∧ g.IsMethodRest r.2 := by
  refine g.yields_parameters.bind fun parameters hparameters => ?_
  refine g.yields_nameDimensions.bind fun dims hdims => ?_
  refine g.yields_throwsClause.bind fun throws hthrows => ?_
  refine .seq fun _ => ?_
  rintro c r d hrun
  obtain ⟨hkind, last, hlast, hchildren⟩ := g.yields_methodEnd _ _ hrun
  exact ⟨hkind, parameters, dims, throws, last, hchildren, hparameters, hdims, hthrows, hlast⟩

theorem yields_initialValue : g.initialValue.Yields (AtMostOne (g.IsLeaf .expr)) := by
  refine .seq fun _ => ?_
  apply Yields.ite
  · refine (g.yields_expression true).bind fun value hvalue => ?_
    exact .pure (.inr ⟨value, hvalue, rfl⟩)
  · exact .pure (.inl rfl)

theorem yields_fieldsRound (start : Cursor) {modifiers type : Tree κ}
    (hmodifiers : g.IsModifiers modifiers) (htype : g.IsLeaf .type type)
    (s : List (Tree κ) × String × Text.Position) (hs : ∀ f ∈ s.1, g.IsField f) :
    (g.fieldsRound start modifiers type s).Yields
      (Step.All (fun s => ∀ f ∈ s.1, g.IsField f) fun fs => ∀ f ∈ fs, g.IsField f) := by
  refine g.yields_nameDimensions.bind fun dims hdims => ?_
  refine g.yields_initialValue.bind fun value hvalue => ?_
  have hfield : g.IsField {
      kind := g.kind .variableDef, text := s.2.1, pos := s.2.2, doc := start.doc,
      children := [modifiers, type] ++ dims ++ value } :=
    ⟨rfl, modifiers, type, dims, value, rfl, hmodifiers, htype, hdims, hvalue⟩
  have hmore := forall_mem_concat hs hfield
  refine .seq fun _ => ?_
  apply Yields.ite
  · refine .seq fun _ => ?_
    refine .seq fun _ => ?_
    refine .seq fun _ => ?_
    exact .pure hmore
  · exact .pure hmore

theorem yields_fields (first : String) (start : Cursor) {modifiers type : Tree κ}
    (hmodifiers : g.IsModifiers modifiers) (htype : g.IsLeaf .type type) :
    (g.fields first start modifiers type).Yields fun fs => ∀ f ∈ fs, g.IsField f := by
  refine .bind (.iterate _ (g.yields_fieldsRound start hmodifiers htype) nofun)
    fun found hfound => ?_
  refine .seq fun _ => ?_
  exact .pure hfound

theorem yields_method (kind : JavaKind) (name : String) (start : Cursor) (head : List (Tree κ)) :
    (g.method kind name start head).Yields fun t => t.text = name ∧
      (t.kind = g.kind kind ∨ t.kind = g.kind .annotationFieldDef) ∧
      ∃ rest, t.children = head ++ rest ∧ g.IsMethodRest rest := by
  refine (g.yields_methodRest kind).bind fun r hr => .pure ⟨rfl, ?_, r.2, rfl, hr.2⟩
  exact hr.1.imp (congrArg g.kind) (congrArg g.kind)

theorem name_of_atConstructor {className : Option String} {c : Cursor}
    (h : atConstructor className c = true) :
    c.token.kind = .ident ∧ className = some c.token.text := by
  cases className with
  | none => cases h
  | some name =>
    simp only [atConstructor, Bool.and_eq_true, decide_eq_true_eq] at h
    exact ⟨h.1.1, by rw [h.1.2]⟩

/-- Behind modifiers stands a constructor that is named by a token of the source, or a method, or
fields. -/
theorem methodOrFields_ok {start c d : Cursor} {modifiers : Tree κ} {className : Option String}
    {ms : List (Tree κ)} (hmodifiers : g.IsModifiers modifiers)
    (h : g.methodOrFields start modifiers className c = .ok ms d) :
    (∃ (e : Cursor) (m : Tree κ),
      (∀ track : Track, c.slots = track.slots → e.slots = track.slots) ∧
      e.token.kind = .ident ∧ className = some e.token.text ∧ m.text = e.token.text ∧
      g.IsConstructor m ∧ ms = [m]) ∨
      ∀ m ∈ ms, g.IsMethod m ∨ g.IsField m := by
  rw [methodOrFields, atPunct_bind, optional_bind] at h
  obtain ⟨parameters, e, hparameters, h⟩ := bind_ok.mp h
  have hlist : AtMostOne (g.IsListOf .typeParameters .typeParameter) parameters :=
    Yields.ite (g.yields_typeParameters.bind fun p hp => .pure (.inr ⟨p, hp, rfl⟩))
      (.pure (.inl rfl)) hparameters
  have hslots : ∀ track : Track, c.slots = track.slots → e.slots = track.slots := by
    intro track hc
    have hruns : Runs track 0 (if c.token.isPunct '<' then do return [← g.typeParameters]
        else pure []) fun _ => 0 := by
      apply Runs.ite
      · exact .bind g.runs_typeParameters fun _ => .pure (Nat.zero_le _)
      · exact .pure (Nat.le_refl _)
    exact hruns.slots_eq hparameters hc
  simp only [get_bind, ite_run, ite_ok, bump_bind] at h
  rcases h with ⟨hctor, h⟩ | ⟨-, h⟩
  · -- the name at the cursor is that of the class
    obtain ⟨m, f, hm, hpure⟩ := bind_ok.mp h
    cases hpure
    obtain ⟨hname, hkind, rest, hchildren, hrest⟩ := g.yields_method _ _ _ _ hm
    obtain ⟨hident, hclass⟩ := name_of_atConstructor hctor
    exact .inl ⟨e, m, hslots, hident, hclass, hname,
      ⟨hkind, modifiers, parameters, rest, hchildren, hmodifiers, hlist, hrest⟩, rfl⟩
  · refine .inr ?_
    refine Yields.bind (Q := fun ms => ∀ m ∈ ms, g.IsMethod m ∨ g.IsField m)
      (g.yields_declaredType _) (fun type htype => ?_) h
    have hmethod : ∀ name, (do
        return [← g.method .methodDef name start ([modifiers] ++ parameters ++ [type])]
          : Parser (List (Tree κ))).Yields fun ms => ∀ m ∈ ms, g.IsMethod m ∨ g.IsField m := by
      refine fun name => (g.yields_method _ _ _ _).bind fun t ht => .pure ?_
      obtain ⟨-, hkind, rest, hchildren, hrest⟩ := ht
      exact List.forall_mem_singleton.mpr (.inl ⟨hkind, modifiers, parameters, type, rest,
        hchildren, hmodifiers, hlist, htype, hrest⟩)
    refine .seq fun quoted => ?_
    cases quoted with
    | some name => exact hmethod name
    | none =>
      refine .seq fun name => .seq fun _ => .ite (hmethod name) ?_
      cases parameters with
      | nil =>
        intro c fs d hrun m hm
        exact .inr (g.yields_fields name start hmodifiers htype hrun m hm)
      | cons first rest => exact .throw _

theorem yields_initializer {kind : JavaKind} (hkind : kind = .instanceInit ∨ kind = .staticInit)
    (pos : Text.Position) : (g.initializer kind pos).Yields g.IsInitializer := by
  refine g.yields_block.bind fun body hbody => ?_
  exact .pure ⟨hkind.imp (congrArg g.kind) (congrArg g.kind), body, hbody, rfl⟩

/-! ### Types -/

theorem yields_typeKeyword : g.typeKeyword.Yields fun k => g.IsTypeKind k.1 := by
  refine .seq fun _ => ?_
  apply Yields.ite
  · refine .seq fun _ => ?_
    exact .pure (.inl rfl)
  · refine .seq fun t => ?_
    exact .pure (.inr ⟨t.text, rfl⟩)

theorem yields_clause (kind : JavaKind) (keyword : String) :
    (g.clause kind keyword).Yields (AtMostOne (g.IsListOf kind .type)) := by
  refine .seq fun _ => ?_
  apply Yields.ite
  · refine (g.yields_typeList kind keyword).bind fun types htypes => ?_
    refine .seq fun _ => ?_
    exact .pure (.inr ⟨types, htypes, rfl⟩)
  · exact .pure (.inl rfl)

theorem yields_annotations : g.annotations.Yields fun as => ∀ a ∈ as, g.IsAnnotationMark a := by
  refine .collect (fun found hfound => ?_) nofun
  refine .seq fun _ => ?_
  apply Yields.ite
  · refine g.yields_annotationMark.bind fun a ha => ?_
    refine .seq fun _ => ?_
    exact .pure (forall_mem_concat hfound ha)
  · exact .pure hfound

/-! ### Files -/

theorem yields_packageDef : g.packageDef.Yields (g.IsLeaf .packageDef) :=
  .seq fun _ => .seq fun _ => .seq fun _ => .pure (g.isLeaf_leaf ..)

theorem yields_importDef :
    g.importDef.Yields fun t => g.IsLeaf .importDef t ∨ g.IsLeaf .staticImport t := by
  refine .seq fun _ => ?_
  refine .seq fun isStatic => ?_
  refine .seq fun _ => ?_
  refine .seq fun _ => ?_
  refine .seq fun _ => .pure ?_
  cases isStatic with
  | true => exact .inr (g.isLeaf_leaf ..)
  | false => exact .inl (g.isLeaf_leaf ..)

end Grammar

end ApiDoc.Syntax
