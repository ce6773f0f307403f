import ApiDoc.Proofs.Syntax.Normalized

/-!
# Conforming trees

What the nodes of a tree have by their kind: which children, how many of each, and where
constructors stand. A tree conforms if all its nodes do. A member of the shape that the grammar
gives it conforms if the bodies in it do (`fits_of_memberOf`), and so do whole files.
-/

namespace ApiDoc.Syntax

namespace Tree

/-! ## Children by kind -/

/-- The number of trees of a kind in a list. -/
def numberIn (kind : NodeKind) (ts : List (Tree NodeKind)) : Nat :=
  (ts.filter fun t => t.kind = kind).length

/-- The number of children of a kind. -/
def number (t : Tree NodeKind) (kind : NodeKind) : Nat := (t.childrenOf kind).length

variable {kind : NodeKind} {t : Tree NodeKind} {ts us : List (Tree NodeKind)}

theorem number_eq (h : t.children = ts) (kind : NodeKind) : t.number kind = numberIn kind ts := by
  rw [← h]
  rfl

@[simp] theorem numberIn_nil (kind : NodeKind) : numberIn kind [] = 0 := rfl

@[simp] theorem numberIn_cons (kind : NodeKind) (t : Tree NodeKind) (ts : List (Tree NodeKind)) :
    numberIn kind (t :: ts) = (if t.kind = kind then 1 else 0) + numberIn kind ts := by
  unfold numberIn
  split
  · next h => simp [h, Nat.add_comm]
  · next h => simp [h]

@[simp] theorem numberIn_append (kind : NodeKind) (ts us : List (Tree NodeKind)) :
    numberIn kind (ts ++ us) = numberIn kind ts + numberIn kind us := by
  simp [numberIn]

theorem numberIn_eq_zero (h : ∀ t ∈ ts, t.kind ≠ kind) : numberIn kind ts = 0 := by
  rw [numberIn, List.length_eq_zero_iff, List.filter_eq_nil_iff]
  simpa using h

/-- A list of trees of one other kind has none of the kind. -/
theorem numberIn_of_kind {other : NodeKind} (h : ∀ t ∈ ts, t.kind = other) (hne : other ≠ kind) :
    numberIn kind ts = 0 :=
  numberIn_eq_zero fun t ht => h t ht ▸ hne

theorem numberIn_le_one {P : Tree NodeKind → Prop} (h : AtMostOne P ts) (kind : NodeKind) :
    numberIn kind ts ≤ 1 := by
  apply Nat.le_trans (List.length_filter_le _ _)
  rcases h with rfl | ⟨t, -, rfl⟩
  · exact Nat.zero_le _
  · exact Nat.le_refl _

/-! ## Conforming nodes -/

/-- What a node has, by its kind. -/
structure Conforms (t : Tree NodeKind) : Prop where
  /-- A type has a name without dots, modifiers and a body. -/
  typeDef : t.kind.isTypeDef = true → t.text ≠ "" ∧ '.' ∉ t.text.toList ∧
    t.number .modifiers = 1 ∧ t.number .objBlock = 1 ∧ t.number .typeParameters ≤ 1 ∧
    t.number .extendsClause ≤ 1 ∧ t.number .implementsClause ≤ 1
  /-- A field or a parameter has modifiers and a type, and may have a value. -/
  variableDef : t.kind = .variableDef ∨ t.kind = .parameterDef ∨ t.kind = .variableParameterDef →
    t.number .modifiers = 1 ∧ t.number .type = 1 ∧ t.number .expr ≤ 1
  methodDef : t.kind = .methodDef →
    t.number .modifiers = 1 ∧ t.number .type = 1 ∧ t.number .parameters = 1
  constructorDef : t.kind = .ctorIdent →
    t.number .modifiers = 1 ∧ t.number .parameters = 1 ∧ t.number .type = 0
  /-- Constructors stand in the body of the type that they are named for. -/
  constructors : ∀ b ∈ t.children, ∀ m ∈ b.children, m.kind = .ctorIdent →
    b.kind = .objBlock ∧ t.kind.isTypeDef = true ∧ t.text = m.text

/-- All nodes of the tree conform. -/
def Conforming (t : Tree NodeKind) : Prop := ∀ n ∈ t.preorder, n.Conforms

theorem conforming_iff : t.Conforming ↔ t.Conforms ∧ ∀ s ∈ t.children, s.Conforming :=
  forall_mem_preorder

/-- The kinds of node that have to have something. -/
def demanding (kind : NodeKind) : Bool :=
  kind.isTypeDef || [NodeKind.variableDef, .parameterDef, .variableParameterDef, .methodDef,
    .ctorIdent].contains kind

/-- A node of another kind conforms if no constructors stand in its children. -/
theorem conforms_of_not_demanding (hkind : demanding t.kind = false)
    (h : ∀ b ∈ t.children, ∀ m ∈ b.children, m.kind ≠ .ctorIdent) : t.Conforms := by
  simp only [demanding, Bool.or_eq_false_iff] at hkind
  refine ⟨?_, ?_, ?_, ?_, fun b hb m hm hctor => absurd hctor (h b hb m hm)⟩
  · intro htype
    exact absurd (hkind.1.symm.trans htype) (by simp)
  · rintro (hk | hk | hk) <;> simp [hk] at hkind
  · intro hk
    simp [hk] at hkind
  · intro hk
    simp [hk] at hkind

/-- A conforming tree that is no constructor and has none in it directly. -/
structure Inert (t : Tree NodeKind) : Prop where
  conforming : t.Conforming
  kind_ne : t.kind ≠ .ctorIdent
  children_ne : ∀ m ∈ t.children, m.kind ≠ .ctorIdent

theorem inert_of_conforms (hkind : t.kind ≠ .ctorIdent) (h : t.Conforms)
    (hchildren : ∀ s ∈ t.children, s.Inert) : t.Inert where
  conforming := conforming_iff.mpr ⟨h, fun s hs => (hchildren s hs).conforming⟩
  kind_ne := hkind
  children_ne := fun m hm => (hchildren m hm).kind_ne

theorem inert_of_not_demanding (hkind : demanding t.kind = false)
    (h : ∀ s ∈ t.children, s.Inert) : t.Inert := by
  refine inert_of_conforms ?_ (conforms_of_not_demanding hkind fun b hb => (h b hb).children_ne) h
  intro hctor
  rw [hctor] at hkind
  cases hkind

end Tree

/-! ## Shapes of the grammar -/

namespace Grammar

open ApiDoc.Syntax.Tree

variable {t : Tree NodeKind} {ts : List (Tree NodeKind)}

theorem IsLeaf.inert {kind : JavaKind} (h : groovy.IsLeaf kind t)
    (hkind : demanding kind.normalized = false) : t.Inert := by
  refine inert_of_not_demanding ?_ (by simp [h.2])
  rw [h.1]
  exact hkind

theorem IsAnnotationMark.inert (h : groovy.IsAnnotationMark t) : t.Inert := by
  refine inert_of_not_demanding ?_ (h.2.forall_mem fun s hs => hs.inert rfl)
  rw [h.1]
  rfl

theorem IsModifiers.inert (h : groovy.IsModifiers t) : t.Inert := by
  refine inert_of_not_demanding ?_ fun m hm => ?_
  · rw [h.1]
    rfl
  · exact (h.2 m hm).elim (fun hm => hm.inert rfl) fun hm => hm.inert

theorem IsListOf.inert {kind item : JavaKind} (h : groovy.IsListOf kind item t)
    (hkind : demanding kind.normalized = false) (hitem : demanding item.normalized = false) :
    t.Inert := by
  refine inert_of_not_demanding ?_ fun s hs => (h.2 s hs).inert hitem
  rw [h.1]
  exact hkind

theorem IsDeclarator.inert (h : groovy.IsDeclarator ts) : ∀ s ∈ ts, s.Inert := by
  obtain ⟨modifiers, type, dims, value, rfl, hmodifiers, htype, hdims, hvalue⟩ := h
  have hd := hdims.forall_mem fun s hs => hs.inert rfl
  have hv := hvalue.forall_mem fun s hs => hs.inert rfl
  simpa [or_imp, forall_and] using ⟨hmodifiers.inert, htype.inert rfl, hd, hv⟩

theorem IsDeclarator.number (h : groovy.IsDeclarator ts) :
    numberIn .modifiers ts = 1 ∧ numberIn .type ts = 1 ∧ numberIn .expr ts ≤ 1 := by
  obtain ⟨modifiers, type, dims, value, rfl, hmodifiers, htype, hdims, hvalue⟩ := h
  have hm : modifiers.kind = .modifiers := hmodifiers.1
  have ht : type.kind = .type := htype.1
  have hd : ∀ s ∈ dims, s.kind = .arrayDeclarator := hdims.forall_mem fun s hs => hs.1
  have hv : ∀ s ∈ value, s.kind = .expr := hvalue.forall_mem fun s hs => hs.1
  simp [hm, ht, numberIn_of_kind hd, numberIn_of_kind hv, numberIn_le_one hvalue]

/-- Fields and parameters conform. -/
theorem IsDeclarator.conforms (h : groovy.IsDeclarator t.children)
    (hkind : t.kind = .variableDef ∨ t.kind = .parameterDef ∨ t.kind = .variableParameterDef) :
    t.Conforms where
  typeDef := by
    intro htype
    rcases hkind with hk | hk | hk <;> simp [hk, NodeKind.isTypeDef] at htype
  variableDef := fun _ => h.number
  methodDef := by
    intro hmethod
    rcases hkind with hk | hk | hk <;> simp [hk] at hmethod
  constructorDef := by
    intro hctor
    rcases hkind with hk | hk | hk <;> simp [hk] at hctor
  constructors := fun b hb m hm hctor => absurd hctor ((h.inert b hb).children_ne m hm)

theorem IsDeclarator.inert_node (h : groovy.IsDeclarator t.children)
    (hkind : t.kind = .variableDef ∨ t.kind = .parameterDef ∨ t.kind = .variableParameterDef) :
    t.Inert := by
  refine inert_of_conforms ?_ (h.conforms hkind) h.inert
  rcases hkind with hk | hk | hk <;> simp [hk]

theorem IsParameters.inert (h : groovy.IsParameters t) : t.Inert := by
  refine inert_of_not_demanding ?_ fun p hp => ?_
  · rw [h.1]
    rfl
  · exact (h.2 p hp).2.inert_node (.inr (h.2 p hp).1)

theorem IsMethodRest.inert (h : groovy.IsMethodRest ts) : ∀ s ∈ ts, s.Inert := by
  obtain ⟨parameters, dims, throws, last, rfl, hparameters, hdims, hthrows, hlast⟩ := h
  have hd := hdims.forall_mem fun s hs => hs.inert rfl
  have ht := hthrows.forall_mem fun s hs => hs.inert rfl rfl
  have hl := hlast.forall_mem fun s hs => hs.elim (fun hs => hs.inert rfl) fun hs => hs.inert rfl
  simpa [or_imp, forall_and] using ⟨hparameters.inert, hd, ht, hl⟩

theorem IsMethodRest.number (h : groovy.IsMethodRest ts) :
    numberIn .parameters ts = 1 ∧ numberIn .modifiers ts = 0 ∧ numberIn .type ts = 0 := by
  obtain ⟨parameters, dims, throws, last, rfl, hparameters, hdims, hthrows, hlast⟩ := h
  have hp : parameters.kind = .parameters := hparameters.1
  have hd : ∀ s ∈ dims, s.kind = .arrayDeclarator := hdims.forall_mem fun s hs => hs.1
  have ht : ∀ s ∈ throws, s.kind = .throws := hthrows.forall_mem fun s hs => hs.1
  have hl : ∀ s ∈ last, s.kind = .slist ∨ s.kind = .expr :=
    hlast.forall_mem fun s hs => hs.imp And.left And.left
  have hnone : ∀ kind, kind ≠ .slist → kind ≠ .expr → numberIn kind last = 0 := by
    intro kind hslist hexpr
    refine numberIn_eq_zero fun s hs => ?_
    rcases hl s hs with hk | hk
    · exact hk ▸ hslist.symm
    · exact hk ▸ hexpr.symm
  simp [hp, numberIn_of_kind hd, numberIn_of_kind ht, hnone]

/-- Methods and constructors conform: a method has a type, a constructor has none. -/
theorem conforms_of_signature {modifiers : Tree NodeKind}
    {parameters types rest : List (Tree NodeKind)}
    (hchildren : t.children = [modifiers] ++ parameters ++ types ++ rest)
    (hmodifiers : groovy.IsModifiers modifiers)
    (hlist : AtMostOne (groovy.IsListOf .typeParameters .typeParameter) parameters)
    (htypes : ∀ s ∈ types, groovy.IsLeaf .type s) (hrest : groovy.IsMethodRest rest)
    (hkind : (t.kind = .methodDef ∧ ∃ type, types = [type]) ∨ (t.kind = .ctorIdent ∧ types = []) ∨
      demanding t.kind = false) :
    t.Conforms ∧ ∀ s ∈ t.children, s.Inert := by
  have hinert : ∀ s ∈ t.children, s.Inert := by
    have hl := hlist.forall_mem fun s hs => hs.inert rfl rfl
    have ht : ∀ s ∈ types, s.Inert := fun s hs => (htypes s hs).inert rfl
    simpa [hchildren, or_imp, forall_and] using ⟨hmodifiers.inert, hl, ht, hrest.inert⟩
  have hctor : ∀ b ∈ t.children, ∀ m ∈ b.children, m.kind ≠ .ctorIdent := fun b hb =>
    (hinert b hb).children_ne
  have hm : modifiers.kind = .modifiers := hmodifiers.1
  have hl : ∀ s ∈ parameters, s.kind = .typeParameters := hlist.forall_mem fun s hs => hs.1
  obtain ⟨hp, hm', ht'⟩ := hrest.number
  refine ⟨?_, hinert⟩
  -- by its kind the node owes a type, owes none, or owes nothing
  rcases hkind with ⟨hkind, type, rfl⟩ | ⟨hkind, rfl⟩ | hkind
  · have ht : type.kind = .type := (htypes type List.mem_cons_self).1
    refine ⟨?_, ?_, fun _ => ?_, ?_, fun b hb m hm hk => absurd hk (hctor b hb m hm)⟩
    · simp [hkind, NodeKind.isTypeDef]
    · simp [hkind]
    · simp [number_eq hchildren, hm, ht, numberIn_of_kind hl, hp, hm', ht']
    · simp [hkind]
  · refine ⟨?_, ?_, ?_, fun _ => ?_, fun b hb m hm hk => absurd hk (hctor b hb m hm)⟩
    · simp [hkind, NodeKind.isTypeDef]
    · simp [hkind]
    · simp [hkind]
    · simp [number_eq hchildren, hm, numberIn_of_kind hl, hp, hm', ht']
  · exact conforms_of_not_demanding hkind hctor

theorem IsMethod.conforms (h : groovy.IsMethod t) : t.Conforms ∧ ∀ s ∈ t.children, s.Inert := by
  obtain ⟨hkind, modifiers, parameters, type, rest, hchildren, hmodifiers, hlist, htype, hrest⟩ := h
  refine conforms_of_signature hchildren hmodifiers hlist (by simpa using htype) hrest ?_
  exact hkind.imp (⟨·, type, rfl⟩) fun hkind => .inr (by rw [hkind]; rfl)

theorem IsConstructor.conforms (h : groovy.IsConstructor t) :
    t.Conforms ∧ ∀ s ∈ t.children, s.Inert := by
  obtain ⟨hkind, modifiers, parameters, rest, hchildren, hmodifiers, hlist, hrest⟩ := h
  have hnone : t.children = [modifiers] ++ parameters ++ [] ++ rest := by simpa using hchildren
  refine conforms_of_signature hnone hmodifiers hlist nofun hrest (.inr ?_)
  exact hkind.imp (⟨·, rfl⟩) fun hkind => by rw [hkind]; rfl

/-! ## Members -/

/-- A conforming member of a body where the constructors of `className` may stand. -/
structure Fits (className : Option String) (t : Tree NodeKind) : Prop where
  conforming : t.Conforming
  children_ne : ∀ m ∈ t.children, m.kind ≠ .ctorIdent
  name : t.kind = .ctorIdent → className = some t.text ∧ t.text ≠ ""

variable {className : Option String}

theorem fits_of_inert (h : t.Inert) : Fits className t :=
  ⟨h.conforming, h.children_ne, fun hctor => absurd hctor h.kind_ne⟩

theorem fits_of_conforms (h : t.Conforms ∧ ∀ s ∈ t.children, s.Inert)
    (hname : t.kind = .ctorIdent → className = some t.text ∧ t.text ≠ "") :
    Fits className t where
  conforming := conforming_iff.mpr ⟨h.1, fun s hs => (h.2 s hs).conforming⟩
  children_ne := fun m hm => (h.2 m hm).kind_ne
  name := hname

/-- A body or a file conforms if what stands in it does. -/
theorem conforming_of_fits (hkind : demanding t.kind = false)
    (h : ∀ m ∈ t.children, Fits className m) : t.Conforming := by
  refine conforming_iff.mpr ⟨?_, fun m hm => (h m hm).conforming⟩
  exact conforms_of_not_demanding hkind fun m hm => (h m hm).children_ne

/-- A body of conforming members, where the constructors of `className` may stand. -/
def FitBody (className : String) (b : Tree NodeKind) : Prop :=
  b.kind = .objBlock ∧ ∀ m ∈ b.children, Fits (some className) m

/-- A type conforms if its members do. -/
theorem fits_typeDef (h : groovy.IsTypeDef FitBody t) : Fits className t := by
  obtain ⟨hkind, hname, modifiers, parameters, extended, implemented, body, hchildren, hmodifiers,
    hlist, hextended, himplemented, hbody, hmembers⟩ := h
  have htype := isTypeDef_of_isTypeKind hkind
  have hne : ∀ {kind : NodeKind}, kind.isTypeDef = false → t.kind ≠ kind := by
    rintro kind hnot rfl
    exact absurd (hnot.symm.trans htype) (by simp)
  -- Nothing in front of the body can hold a declaration.
  have hinert : ∀ s ∈ [modifiers] ++ parameters ++ extended ++ implemented, s.Inert := by
    have hl := hlist.forall_mem fun s hs => hs.inert rfl rfl
    have he := hextended.forall_mem fun s hs => hs.inert rfl rfl
    have hi := himplemented.forall_mem fun s hs => hs.inert rfl rfl
    simpa [or_imp, forall_and] using ⟨hmodifiers.inert, hl, he, hi⟩
  have hm : modifiers.kind = .modifiers := hmodifiers.1
  have hl : ∀ s ∈ parameters, s.kind = .typeParameters := hlist.forall_mem fun s hs => hs.1
  have he : ∀ s ∈ extended, s.kind = .extendsClause := hextended.forall_mem fun s hs => hs.1
  have hi : ∀ s ∈ implemented, s.kind = .implementsClause :=
    himplemented.forall_mem fun s hs => hs.1
  have hconforms : t.Conforms := by
    refine ⟨fun _ => ⟨hname.ne_empty, hname.dot_not_mem, ?_⟩, ?_, ?_, ?_, ?_⟩
    · simp [number_eq hchildren, hm, hbody, numberIn_of_kind hl, numberIn_of_kind he,
        numberIn_of_kind hi, numberIn_le_one hlist, numberIn_le_one hextended,
        numberIn_le_one himplemented]
    · rintro (hk | hk | hk)
      all_goals exact absurd hk (hne rfl)
    · exact fun hk => absurd hk (hne rfl)
    · exact fun hk => absurd hk (hne rfl)
    · -- only the body has constructors in it, and they bear the name of the type
      intro b hb m hm hctor
      rw [hchildren, List.mem_append, List.mem_singleton] at hb
      rcases hb with hb | rfl
      · exact absurd hctor ((hinert b hb).children_ne m hm)
      · exact ⟨hbody, htype, Option.some.inj ((hmembers m hm).name hctor).1⟩
  refine ⟨conforming_iff.mpr ⟨hconforms, ?_⟩, ?_, fun hctor => absurd hctor (hne rfl)⟩
  · rw [hchildren]
    exact forall_mem_concat (fun s hs => (hinert s hs).conforming)
      (conforming_of_fits (by rw [hbody]; rfl) hmembers)
  · rw [hchildren]
    exact forall_mem_concat (fun s hs => (hinert s hs).kind_ne) (by simp [hbody])

/-- An enum constant conforms. No constructor stands in its body, since its name would be empty. -/
theorem inert_constant (h : groovy.IsConstant FitBody t) : t.Inert := by
  obtain ⟨hkind, annotations, arguments, body, hchildren, hannotations, harguments, hbody⟩ := h
  have harg := harguments.forall_mem fun s hs => hs.inert rfl
  have hblock : ∀ b ∈ body, b.Inert := by
    refine hbody.forall_mem fun b ⟨hkind, hmembers⟩ => ⟨?_, by simp [hkind], fun m hm hctor => ?_⟩
    · exact conforming_of_fits (by rw [hkind]; rfl) hmembers
    · obtain ⟨hname, hne⟩ := (hmembers m hm).name hctor
      exact hne (Option.some.inj hname).symm
  refine inert_of_not_demanding (by rw [hkind]; rfl) fun s hs => ?_
  rw [hchildren] at hs
  rcases List.mem_append.mp hs with hs | hs
  · exact (List.mem_append.mp hs).elim (fun hs => (hannotations s hs).inert) (harg s)
  · exact hblock s hs

/-- Members conform if the bodies in them do. A constructor is named for the class that it stands
in. -/
theorem fits_of_memberOf (h : groovy.MemberOf FitBody className t) : Fits className t := by
  cases h with
  | field h => exact fits_of_inert (h.2.inert_node (.inl h.1))
  | method h =>
    refine fits_of_conforms h.conforms fun hctor => ?_
    rcases h.1 with hk | hk <;> exact absurd (hctor.symm.trans hk) (by decide)
  | constructor hname h => exact fits_of_conforms h.conforms fun _ => ⟨rfl, hname.ne_empty⟩
  | initializer h =>
    obtain ⟨hkind, body, hbody, hchildren⟩ := h
    refine fits_of_inert (inert_of_not_demanding ?_ ?_)
    · rcases hkind with hk | hk <;> rw [hk] <;> rfl
    · rw [hchildren]
      exact List.forall_mem_singleton.mpr (hbody.inert rfl)
  | constant h => exact fits_of_inert (inert_constant h)
  | typeDef h => exact fits_typeDef h

theorem fitBody_of_bodyOf {className : String} (h : groovy.BodyOf FitBody className t) :
    FitBody className t :=
  ⟨h.1, fun m hm => fits_of_memberOf (h.2 m hm)⟩

theorem fitBody_normalized {className : String} {b : Tree JavaKind}
    (h : java.BodyOf (fun name b => FitBody name b.normalized) className b) :
    FitBody className b.normalized := by
  refine ⟨Tree.kind_normalized_eq h.1, ?_⟩
  rw [Tree.children_normalized]
  exact forall_mem_normalized h.2 fun m hm => fits_of_memberOf (hm.normalized fun _ _ hb => hb)

/-! ## Files -/

/-- What stands at the top of a file of either language conforms. -/
theorem fits_of_topOf (h : groovy.TopOf FitBody t) : Fits none t := by
  rcases h with h | h | h | h
  · exact fits_of_inert (h.inert rfl)
  · exact fits_of_inert (h.inert rfl)
  · exact fits_of_inert (h.inert rfl)
  · exact fits_typeDef h

theorem fits_of_isTop (h : Groovy.IsTop FitBody t) : Fits none t := by
  rcases h with h | h | ⟨hkind, hchildren⟩
  · exact fits_of_topOf h
  · exact fits_of_memberOf (.method h)
  · exact fits_of_inert (inert_of_not_demanding (by rw [hkind]; rfl) (by simp [hchildren]))

end Grammar

open ApiDoc.Syntax.Grammar

/-- A Groovy file conforms. -/
theorem Groovy.conforming_parse {source : String} {t : Tree NodeKind} (h : parse source = .ok t) :
    t.kind = .compilationUnit ∧ (∀ s ∈ t.children, IsTop FitBody s) ∧ t.Conforming := by
  obtain ⟨hkind, htop⟩ := isTop_parse (B := fun _ => FitBody) (fun _ _ _ => fitBody_of_bodyOf) h
  have hfits : ∀ s ∈ t.children, Fits none s := fun s hs => fits_of_isTop (htop s hs)
  exact ⟨hkind, htop, conforming_of_fits (by rw [hkind]; rfl) hfits⟩

/-- A Java file conforms in the normalized vocabulary. -/
theorem Java.conforming_parse {source : String} {t : Tree JavaKind} (h : parse source = .ok t) :
    t.kind = .compilationUnit ∧ (∀ s ∈ t.normalized.children, groovy.TopOf FitBody s) ∧
      t.normalized.Conforming := by
  obtain ⟨hkind, htop⟩ := topOf_parse (B := fun _ name b => FitBody name b.normalized)
    (fun _ _ _ => fitBody_normalized) h
  have htop' : ∀ s ∈ t.normalized.children, groovy.TopOf FitBody s := by
    rw [Tree.children_normalized]
    exact forall_mem_normalized htop fun s hs => hs.normalized fun _ _ hb => hb
  have hroot : Tree.demanding t.normalized.kind = false := by
    rw [Tree.kind_normalized_eq hkind]
    rfl
  exact ⟨hkind, htop', conforming_of_fits hroot fun s hs => fits_of_topOf (htop' s hs)⟩

end ApiDoc.Syntax
