import ApiDoc.Proofs.Access.Dimensions
import ApiDoc.Proofs.Syntax.Normalized
import ApiDoc.Syntax.Reading

/-!
# Java files without dimensions behind names

Giving a declaration its access moves the dimensions behind its name to its type. A constructor has
no type: dimensions behind its parameters stay where they are or, if a value makes it an annotation
element, cannot be moved. Anywhere else they are gone, at every depth, so a Java file comes out
without dimensions behind names exactly if no constructor of it has any.
-/

namespace ApiDoc.Syntax

namespace Access

open Grammar

variable {modifiers t : Tree JavaKind} {parameters rest : List (Tree JavaKind)}
  {ts : List (Tree NodeKind)}

/-! ## Members -/

/-- A declaration is given its access, and no name in it has dimensions behind it any more. -/
def Clean (x : Except ParseError (Tree NodeKind)) : Prop :=
  ∃ t, x = .ok t ∧ t.Lacks .arrayDeclarator

theorem not_clean_error {e : ParseError} : ¬Clean (.error e) := by
  rintro ⟨t, ht, -⟩
  cases ht

theorem clean_field {enclosing : Enclosing} (hkind : t.kind = .variableDef)
    (h : java.IsDeclarator t.children) : Clean (declaration enclosing t.normalized) := by
  obtain ⟨m, rest, hm, hlacks, hrest, hfold⟩ := foldDimensions_declarator h
  obtain ⟨kind, text, pos, doc, children⟩ := t
  obtain rfl : kind = .variableDef := hkind
  rw [Tree.normalized_mk] at hfold ⊢
  obtain ⟨m', -, hlacks', hscoped⟩ := exists_packageScoped enclosing .variableDef text pos
    doc rest hm hlacks
  refine ⟨⟨.variableDef, text, pos, doc, m' :: rest⟩, ?_, ?_⟩
  · unfold declaration
    show foldDimensions _ >>= packageScoped enclosing = _
    rw [hfold]
    exact hscoped
  · exact Tree.lacks_mk (by decide) (List.forall_mem_cons.mpr ⟨hlacks', hrest⟩)

/-- What a method has in front of its type. -/
theorem still_of_mem_head (hmodifiers : java.IsModifiers modifiers)
    (hparameters : AtMostOne (java.IsListOf .typeParameters .typeParameter) parameters) :
    ∀ s ∈ modifiers :: parameters, (s.kind = .modifiers ∨ s.kind = .typeParameters) ∧ s.Still := by
  refine List.forall_mem_cons.mpr ⟨⟨.inl hmodifiers.1, still_of_isModifiers hmodifiers⟩,
    hparameters.forall_mem fun p hp => ?_⟩
  exact ⟨.inr hp.1, still_of_isListOf (by decide) (by decide) hp⟩

theorem of_mem_typeParameters
    (h : AtMostOne (java.IsListOf .typeParameters .typeParameter) parameters) :
    ∀ s ∈ parameters.map Tree.normalized,
      s.kind = .typeParameters ∧ s.Lacks .arrayDeclarator := by
  refine List.forall_mem_map.mpr (h.forall_mem fun p hp => ?_)
  exact ⟨Tree.kind_normalized_eq hp.1, (still_of_isListOf (by decide) (by decide) hp).2⟩

theorem exists_foldParameterDimensions {parameters : Tree JavaKind}
    (h : java.IsParameters parameters) {front : List (Tree NodeKind)}
    (hfront : ∀ s ∈ front, s.kind ≠ .parameters) (kind : NodeKind) (text : String)
    (pos : Text.Position) (doc : Option String) (back : List (Tree NodeKind)) :
    ∃ parameters', parameters'.Lacks .arrayDeclarator ∧
      foldParameterDimensions ⟨kind, text, pos, doc, front ++ parameters.normalized :: back⟩ =
        .ok ⟨kind, text, pos, doc, front ++ parameters' :: back⟩ := by
  obtain ⟨folded, hfolded, hlacks⟩ := mapM_parameters h
  have hkind : parameters.normalized.kind = .parameters := Tree.kind_normalized_eq h.1
  refine ⟨parameters.normalized.withChildren folded, Tree.lacks_iff.mpr ⟨?_, hlacks⟩,
    foldParameterDimensions_append hfront hkind hfolded⟩
  show parameters.normalized.kind ≠ .arrayDeclarator
  rw [hkind]
  decide

/-- Behind its parameters, a method has dimensions and what is still. -/
theorem exists_of_isMethodRest (h : java.IsMethodRest rest) :
    ∃ parameters dims tail, rest = parameters :: (dims ++ tail) ∧ java.IsParameters parameters ∧
      AtMostOne (java.IsLeaf .arrayDeclarator) dims ∧ ∀ s ∈ tail, s.Still ∧ s.kind ≠ .type := by
  obtain ⟨parameters, dims, throws, last, rfl, hparameters, hdims, hthrows, hlast⟩ := h
  refine ⟨parameters, dims, throws ++ last, by simp, hparameters, hdims, List.forall_mem_append.mpr
    ⟨hthrows.forall_mem fun t ht => ?_, hlast.forall_mem fun t ht => ?_⟩⟩
  · exact ⟨still_of_isListOf (by decide) (by decide) ht, by rw [ht.1]; decide⟩
  · rcases ht with ht | ht
    · exact ⟨still_of_isLeaf (by decide) ht, by rw [ht.1]; decide⟩
    · exact ⟨still_of_isLeaf (by decide) ht, by rw [ht.1]; decide⟩

/-- What is done to a method once the dimensions behind its parameters are gone. -/
theorem clean_parameters (enclosing : Enclosing) {kind : NodeKind} (text : String)
    (pos : Text.Position) (doc : Option String) {m : Tree NodeKind}
    {more back : List (Tree NodeKind)} {parameters : Tree JavaKind}
    (hkind : kind ≠ .arrayDeclarator) (hm : m.kind = .modifiers)
    (hlacks : m.Lacks .arrayDeclarator)
    (hmore : ∀ s ∈ more, s.kind ≠ .parameters ∧ s.Lacks .arrayDeclarator)
    (hparameters : java.IsParameters parameters) (hback : ∀ s ∈ back, s.Lacks .arrayDeclarator) :
    Clean (do
      let t ← foldParameterDimensions
        ⟨kind, text, pos, doc, m :: (more ++ parameters.normalized :: back)⟩
      let t ← packageScoped enclosing t
      return onModifiers dropPublic t) := by
  have hfront : ∀ s ∈ m :: more, s.kind ≠ .parameters := by
    refine List.forall_mem_cons.mpr ⟨?_, fun s hs => (hmore s hs).1⟩
    rw [hm]
    decide
  -- folding changes the list of parameters and access the modifiers in front, and nothing else
  obtain ⟨parameters', hparameters', hfold⟩ := exists_foldParameterDimensions hparameters hfront
    kind text pos doc back
  obtain ⟨m', hm', hlacks', hscoped⟩ := exists_packageScoped enclosing kind text pos doc
    (more ++ parameters' :: back) hm hlacks
  refine ⟨⟨kind, text, pos, doc, dropPublic m' :: (more ++ parameters' :: back)⟩, ?_, ?_⟩
  · rw [List.cons_append, List.cons_append] at hfold
    rw [hfold, ← onModifiers_cons dropPublic hm']
    show packageScoped _ _ >>= _ = _
    rw [hscoped]
    rfl
  · refine Tree.lacks_mk hkind (List.forall_mem_cons.mpr ⟨lacks_dropPublic hlacks', ?_⟩)
    exact List.forall_mem_append.mpr
      ⟨fun s hs => (hmore s hs).2, List.forall_mem_cons.mpr ⟨hparameters', hback⟩⟩

theorem declaration_method {enclosing : Enclosing} {t : Tree NodeKind}
    (hkind : t.kind = .methodDef ∨ t.kind = .annotationFieldDef) :
    declaration enclosing t = method enclosing t := by
  obtain ⟨kind, text, pos, doc, children⟩ := t
  unfold declaration
  rcases hkind with rfl | rfl
  · rfl
  · rfl

/-- A method gives up all its dimensions. -/
theorem clean_method {enclosing : Enclosing} (h : java.IsMethod t) :
    Clean (declaration enclosing t.normalized) := by
  obtain ⟨hkind, modifiers, parameters, type, rest, hchildren, hmodifiers, hparameters, htype,
    hrest⟩ := h
  obtain ⟨ps, dims, tail, rfl, hps, hdims, htail⟩ := exists_of_isMethodRest hrest
  have htail := lacks_of_still fun s hs => (htail s hs).1
  have hparameters := of_mem_typeParameters hparameters
  have hm : modifiers.normalized.kind = .modifiers := Tree.kind_normalized_eq hmodifiers.1
  have hnormalized : t.normalized = ⟨t.kind.normalized, t.text, t.pos, t.doc,
      modifiers.normalized :: parameters.map Tree.normalized ++ type.normalized ::
        [ps.normalized] ++ (dims.map Tree.normalized ++ tail.map Tree.normalized)⟩ := by
    obtain ⟨kind, text, pos, doc, children⟩ := t
    rw [Tree.normalized_mk, show children = _ from hchildren]
    simp
  have hfront : ∀ s ∈ modifiers.normalized :: parameters.map Tree.normalized,
      s.kind ≠ .arrayDeclarator ∧ s.kind ≠ .type := by
    refine List.forall_mem_cons.mpr ⟨by simp [hm], fun s hs => ?_⟩
    simp [(hparameters s hs).1]
  have hpkind : ps.normalized.kind = .parameters := Tree.kind_normalized_eq hps.1
  have hmiddle : ∀ s ∈ [ps.normalized], s.kind ≠ .arrayDeclarator := by
    simp [hpkind]
  -- first the dimensions behind the parameters go to the type, then those of the parameters go to
  -- theirs
  obtain ⟨type', htype', hlacks', hfold⟩ := exists_foldDimensions t.kind.normalized t.text t.pos
    t.doc hfront (Tree.kind_normalized_eq htype.1) (still_of_isLeaf (by decide) htype).2 hmiddle
    (dims_normalized hdims) fun s hs => Tree.kind_ne_of_lacks (htail s hs)
  have hmore : ∀ s ∈ parameters.map Tree.normalized ++ [type'],
      s.kind ≠ .parameters ∧ s.Lacks .arrayDeclarator := by
    refine List.forall_mem_append.mpr ⟨fun s hs => ?_, ?_⟩
    · exact ⟨by simp [(hparameters s hs).1], (hparameters s hs).2⟩
    · simpa [htype'] using hlacks'
  have hkind' : t.kind.normalized ≠ .arrayDeclarator := by
    rcases hkind with h | h
    all_goals
      rw [h]
      decide
  have hclean := clean_parameters enclosing t.text t.pos t.doc hkind' hm
    (still_of_isModifiers hmodifiers).2 hmore hps htail
  rw [declaration_method (hkind.imp Tree.kind_normalized_eq Tree.kind_normalized_eq), method,
    hnormalized, hfold]
  show Clean (foldParameterDimensions _ >>= _)
  simpa only [List.append_assoc, List.cons_append, List.nil_append] using hclean

theorem declaration_constructor {enclosing : Enclosing} {t : Tree NodeKind}
    (hkind : t.kind = .ctorIdent) :
    declaration enclosing t = constructor enclosing t := by
  obtain ⟨kind, text, pos, doc, children⟩ := t
  unfold declaration
  obtain rfl := hkind
  rfl

/-- A constructor keeps what stands behind its parameters. -/
theorem exists_declaration_constructor (enclosing : Enclosing) (text : String)
    (pos : Text.Position) (doc : Option String) {m : Tree NodeKind}
    {more : List (Tree NodeKind)} (back : List (Tree NodeKind)) {parameters : Tree JavaKind}
    (hm : m.kind = .modifiers) (hlacks : m.Lacks .arrayDeclarator)
    (hmore : ∀ s ∈ more, s.kind ≠ .parameters) (hparameters : java.IsParameters parameters) :
    ∃ m' parameters', m'.Lacks .arrayDeclarator ∧ parameters'.Lacks .arrayDeclarator ∧
      declaration enclosing
          ⟨.ctorIdent, text, pos, doc, m :: (more ++ parameters.normalized :: back)⟩ =
        .ok ⟨.ctorIdent, text, pos, doc, m' :: (more ++ parameters' :: back)⟩ := by
  have hfront : ∀ s ∈ m :: more, s.kind ≠ .parameters := by
    refine List.forall_mem_cons.mpr ⟨?_, hmore⟩
    rw [hm]
    decide
  obtain ⟨parameters', hparameters', hfold⟩ := exists_foldParameterDimensions hparameters hfront
    .ctorIdent text pos doc back
  -- either mark leaves the modifiers where they are, in front
  have hmarked : ∃ f : Tree NodeKind → Tree NodeKind,
      (if enclosing = .enumBody then makePrivate else addPackageScope) = f ∧
        (f m).kind = .modifiers ∧ (f m).Lacks .arrayDeclarator := by
    split
    · exact ⟨_, rfl, (kind_makePrivate m).trans hm, lacks_makePrivate hlacks⟩
    · exact ⟨_, rfl, (kind_addPackageScope m).trans hm, lacks_addPackageScope hlacks⟩
  obtain ⟨f, hf, hkind, hlacks'⟩ := hmarked
  refine ⟨dropPublic (f m), parameters', lacks_dropPublic hlacks', hparameters', ?_⟩
  rw [List.cons_append, List.cons_append] at hfold
  rw [declaration_constructor rfl, constructor, hf, hfold, ← onModifiers_cons dropPublic hkind]
  show onModifiers? f _ >>= _ = _
  rw [onModifiers?_cons f hm]
  rfl

/-- A constructor is plain if there are no dimensions behind its parameters. -/
theorem constructorsPlain_constructor {ps : Tree JavaKind} {dims tail : List (Tree JavaKind)}
    (hkind : t.kind = .ctorDef ∨ t.kind = .annotationFieldDef)
    (hchildren : t.children = modifiers :: parameters ++ ps :: (dims ++ tail))
    (hmodifiers : java.IsModifiers modifiers)
    (hparameters : AtMostOne (java.IsListOf .typeParameters .typeParameter) parameters)
    (hps : java.IsParameters ps) (hdims : AtMostOne (java.IsLeaf .arrayDeclarator) dims)
    (htail : ∀ s ∈ tail, s.Still ∧ s.kind ≠ .type) : t.ConstructorsPlain ↔ dims = [] := by
  have hhead := still_of_mem_head hmodifiers hparameters
  -- no child is a type, so the tree counts as a constructor, even as an annotation element
  have hctor : t.IsConstructor := by
    refine ⟨hkind, ?_⟩
    rw [hchildren]
    refine List.forall_mem_append.mpr ⟨fun s hs => ?_, List.forall_mem_cons.mpr ⟨?_,
      List.forall_mem_append.mpr ⟨hdims.forall_mem fun d hd => ?_, fun s hs => (htail s hs).2⟩⟩⟩
    · rcases (hhead s hs).1 with h | h <;> simp [h]
    · rw [hps.1]
      decide
    · rw [hd.1]
      decide
  rw [Tree.constructorsPlain_iff]
  constructor
  · rintro ⟨hplain, -⟩
    rcases hdims with rfl | ⟨d, hd, rfl⟩
    · rfl
    · exact absurd ⟨d, by simp [hchildren], hd.1⟩ (hplain hctor)
  · rintro rfl
    have hall : ∀ s ∈ t.children, s.kind ≠ .arrayDeclarator ∧ s.ConstructorsPlain := by
      rw [hchildren]
      refine List.forall_mem_append.mpr ⟨fun s hs => ⟨(hhead s hs).2.kind_ne, (hhead s hs).2.1⟩,
        List.forall_mem_cons.mpr ⟨⟨?_, constructorsPlain_of_isParameters hps⟩,
          fun s hs => ⟨(htail s hs).1.kind_ne, (htail s hs).1.1⟩⟩⟩
      rw [hps.1]
      decide
    exact ⟨fun _ ⟨s, hs, hdims⟩ => (hall s hs).1 hdims, fun s hs => (hall s hs).2⟩

section

-- modifiers, type parameters, parameters, dimensions, and what stands behind them
variable (enclosing : Enclosing) (text : String) (pos : Text.Position) (doc : Option String)
  {m : Tree NodeKind} {ps : Tree JavaKind} {more dims back : List (Tree NodeKind)}
  (hm : m.kind = .modifiers) (hlacks : m.Lacks .arrayDeclarator)
  (hmore : ∀ s ∈ more, s.kind = .typeParameters ∧ s.Lacks .arrayDeclarator)
  (hps : java.IsParameters ps) (hdims : AtMostOne (fun d => d.kind = .arrayDeclarator) dims)
  (hback : ∀ s ∈ back, s.Lacks .arrayDeclarator)
include hm hlacks hmore hps hdims hback

/-- A constructor gives up the dimensions of its parameters, and keeps those behind them. -/
theorem clean_ctorIdent_iff :
    Clean (declaration enclosing
      ⟨.ctorIdent, text, pos, doc, m :: (more ++ ps.normalized :: (dims ++ back))⟩) ↔
        dims = [] := by
  obtain ⟨m', ps', hm', hps', hrun⟩ := exists_declaration_constructor enclosing text pos doc
    (dims ++ back) hm hlacks (fun s hs => by simp [(hmore s hs).1]) hps
  constructor
  · rintro ⟨t, ht, hall⟩
    cases hrun.symm.trans ht
    rcases hdims with rfl | ⟨d, hd, rfl⟩
    · rfl
    · exact absurd hd (Tree.kind_ne_of_lacks ((Tree.lacks_iff.mp hall).2 d (by simp)))
  · rintro rfl
    refine ⟨_, hrun, Tree.lacks_mk (by decide) (List.forall_mem_cons.mpr ⟨hm', ?_⟩)⟩
    exact List.forall_mem_append.mpr
      ⟨fun s hs => (hmore s hs).2, List.forall_mem_cons.mpr ⟨hps', hback⟩⟩

/-- An annotation element without type fails for the dimensions behind its parameters. -/
theorem clean_untyped_iff (huntyped : ∀ s ∈ back, s.kind ≠ .type) :
    Clean (declaration enclosing
      ⟨.annotationFieldDef, text, pos, doc, m :: (more ++ ps.normalized :: (dims ++ back))⟩) ↔
        dims = [] := by
  have hpkind : ps.normalized.kind = .parameters := Tree.kind_normalized_eq hps.1
  have hfront : ∀ s ∈ m :: (more ++ [ps.normalized]),
      s.kind ≠ .arrayDeclarator ∧ s.kind ≠ .type := by
    refine List.forall_mem_cons.mpr ⟨by simp [hm], List.forall_mem_append.mpr
      ⟨fun s hs => by simp [(hmore s hs).1], by simp [hpkind]⟩⟩
  -- The parameters belong to the part in front: it has neither dimensions nor a type.
  have hsplit : m :: (more ++ ps.normalized :: (dims ++ back)) =
      m :: (more ++ [ps.normalized]) ++ (dims ++ back) := by simp
  rw [declaration_method (.inr rfl), method, hsplit]
  rcases hdims with rfl | ⟨d, hd, rfl⟩
  · refine iff_of_true ?_ rfl
    have hnone : ∀ s ∈ m :: (more ++ [ps.normalized]) ++ ([] ++ back),
        s.kind ≠ .arrayDeclarator :=
      List.forall_mem_append.mpr
        ⟨fun s hs => (hfront s hs).1, fun s hs => Tree.kind_ne_of_lacks (hback s hs)⟩
    rw [foldDimensions_of_none hnone, ← hsplit]
    exact clean_parameters enclosing text pos doc (by decide) hm hlacks
      (fun s hs => ⟨by simp [(hmore s hs).1], (hmore s hs).2⟩) hps hback
  · refine iff_of_false ?_ (List.cons_ne_nil _ _)
    rintro ⟨t, ht, -⟩
    rw [List.singleton_append, foldDimensions_of_untyped _ text pos doc hfront hd huntyped] at ht
    cases ht

end

/-- A constructor comes out clean if it is plain: those dimensions behind its parameters it keeps
or, with a value, fails for. -/
theorem clean_constructor_iff {enclosing : Enclosing} (h : java.IsConstructor t) :
    Clean (declaration enclosing t.normalized) ↔ t.ConstructorsPlain := by
  obtain ⟨hkind, modifiers, parameters, rest, hchildren, hmodifiers, hparameters, hrest⟩ := h
  obtain ⟨ps, dims, tail, rfl, hps, hdims, htail⟩ := exists_of_isMethodRest hrest
  rw [constructorsPlain_constructor hkind hchildren hmodifiers hparameters hps hdims htail]
  have hm : modifiers.normalized.kind = .modifiers := Tree.kind_normalized_eq hmodifiers.1
  have hlacks := (still_of_isModifiers hmodifiers).2
  have hmore := of_mem_typeParameters hparameters
  have hback := lacks_of_still fun s hs => (htail s hs).1
  have huntyped : ∀ s ∈ tail.map Tree.normalized, s.kind ≠ .type := by
    refine List.forall_mem_map.mpr fun s hs => ?_
    rw [Tree.kind_normalized]
    exact JavaKind.normalized_injective.ne (htail s hs).2
  have hnormalized : t.normalized = ⟨t.kind.normalized, t.text, t.pos, t.doc,
      modifiers.normalized :: (parameters.map Tree.normalized ++ ps.normalized ::
        (dims.map Tree.normalized ++ tail.map Tree.normalized))⟩ := by
    obtain ⟨kind, text, pos, doc, children⟩ := t
    rw [Tree.normalized_mk, show children = _ from hchildren]
    simp
  rw [hnormalized, ← List.map_eq_nil_iff (f := Tree.normalized)]
  -- A constructor with a value is read as an annotation element, which has no type to fold into.
  rcases hkind with hkind | hkind
  · rw [hkind]
    exact clean_ctorIdent_iff enclosing _ _ _ hm hlacks hmore hps (dims_normalized hdims) hback
  · rw [hkind]
    exact clean_untyped_iff enclosing _ _ _ hm hlacks hmore hps (dims_normalized hdims) hback
      huntyped

/-! ## Bodies -/

/-- All declarations of a list are given their access, and no name in them has dimensions behind it
any more. -/
def AllClean (x : Except ParseError (List (Tree NodeKind))) : Prop :=
  ∃ ts, x = .ok ts ∧ ∀ t ∈ ts, t.Lacks .arrayDeclarator

theorem not_allClean_error {e : ParseError} : ¬AllClean (.error e) := by
  rintro ⟨ts, hts, -⟩
  cases hts

theorem allClean_declarations_iff {enclosing : Enclosing} :
    AllClean (declarations enclosing ts) ↔ ∀ t ∈ ts, Clean (declaration enclosing t) := by
  induction ts with
  | nil => exact iff_of_true ⟨[], rfl, nofun⟩ nofun
  | cons t ts ih =>
    rw [List.forall_mem_cons, ← ih]
    conv_lhs => unfold declarations
    constructor
    · rintro ⟨all, hall, hlacks⟩
      obtain ⟨t', ht', hall⟩ := bind_ok.mp hall
      obtain ⟨ts', hts', hall⟩ := bind_ok.mp hall
      obtain rfl := Except.ok.inj hall
      rw [List.forall_mem_cons] at hlacks
      exact ⟨⟨t', ht', hlacks.1⟩, ts', hts', hlacks.2⟩
    · rintro ⟨⟨t', ht', hfirst⟩, ts', hts', hrest⟩
      exact ⟨t' :: ts', by rw [ht', hts']; rfl, List.forall_mem_cons.mpr ⟨hfirst, hrest⟩⟩

/-- A child in front of the body stays as it is. -/
theorem body_cons {enclosing : Enclosing} {t : Tree NodeKind} (hkind : t.kind ≠ .objBlock) :
    body enclosing (t :: ts) = (do return t :: (← body enclosing ts)) := by
  obtain ⟨kind, text, pos, doc, children⟩ := t
  conv_lhs => unfold body
  exact if_neg hkind

theorem allClean_body_cons {enclosing : Enclosing} {t : Tree NodeKind} (hkind : t.kind ≠ .objBlock)
    (hlacks : t.Lacks .arrayDeclarator) :
    AllClean (body enclosing (t :: ts)) ↔ AllClean (body enclosing ts) := by
  rw [body_cons hkind]
  constructor
  · rintro ⟨all, hall, hall'⟩
    obtain ⟨ts', hts', hall⟩ := bind_ok.mp hall
    obtain rfl := Except.ok.inj hall
    exact ⟨ts', hts', (List.forall_mem_cons.mp hall').2⟩
  · rintro ⟨ts', hts', hrest⟩
    exact ⟨t :: ts', by rw [hts']; rfl, List.forall_mem_cons.mpr ⟨hlacks, hrest⟩⟩

theorem allClean_body_append {enclosing : Enclosing} {front back : List (Tree NodeKind)}
    (hfront : ∀ t ∈ front, t.kind ≠ .objBlock ∧ t.Lacks .arrayDeclarator) :
    AllClean (body enclosing (front ++ back)) ↔ AllClean (body enclosing back) := by
  induction front with
  | nil => rfl
  | cons t front ih =>
    obtain ⟨⟨hkind, hlacks⟩, hrest⟩ := List.forall_mem_cons.mp hfront
    rw [List.cons_append, allClean_body_cons hkind hlacks, ih hrest]

theorem allClean_body_block {enclosing : Enclosing} {block : Tree NodeKind}
    (hkind : block.kind = .objBlock) :
    AllClean (body enclosing [block]) ↔
      ∀ m ∈ block.children, Clean (declaration enclosing m) := by
  obtain ⟨kind, text, pos, doc, children⟩ := block
  obtain rfl : kind = .objBlock := hkind
  rw [← allClean_declarations_iff]
  unfold body
  rw [if_pos rfl]
  constructor
  · rintro ⟨all, hall, hlacks⟩
    obtain ⟨members, hmembers, hall⟩ := bind_ok.mp hall
    obtain rfl := Except.ok.inj hall
    exact ⟨members, hmembers, (Tree.lacks_iff.mp (hlacks _ (List.mem_singleton.mpr rfl))).2⟩
  · rintro ⟨members, hmembers, hlacks⟩
    refine ⟨[⟨.objBlock, text, pos, doc, members⟩], by rw [hmembers]; rfl, ?_⟩
    refine fun t ht => ?_
    rw [List.mem_singleton.mp ht]
    exact Tree.lacks_mk (by decide) hlacks

/-- A type comes out clean if what stands behind its modifiers does. -/
theorem clean_typeDef_iff {enclosing : Enclosing} {t m : Tree NodeKind}
    {rest : List (Tree NodeKind)} (hkind : t.kind.isTypeDef = true)
    (hchildren : t.children = m :: rest) (hm : m.kind = .modifiers)
    (hlacks : m.Lacks .arrayDeclarator) :
    Clean (declaration enclosing t) ↔ AllClean (body (.ofKind t.kind) rest) := by
  obtain ⟨kind, text, pos, doc, children⟩ := t
  obtain rfl : children = m :: rest := hchildren
  have hblock : m.kind ≠ .objBlock := by
    rw [hm]
    decide
  obtain ⟨m₀, -, -, hscoped₀⟩ := exists_packageScoped enclosing kind text pos doc rest hm hlacks
  have hne : kind ≠ .arrayDeclarator := by
    rintro rfl
    cases hkind
  -- access touches the modifiers only and the body is behind them, so either may come first
  have hstep : declaration enclosing ⟨kind, text, pos, doc, m :: rest⟩ = (do
      let rest ← body (.ofKind kind) rest
      let t ← packageScoped enclosing ⟨kind, text, pos, doc, m :: rest⟩
      return onModifiers dropPublic t) := by
    unfold declaration
    rw [if_pos hkind, hscoped₀, body_cons hblock]
    cases body (.ofKind kind) rest <;> rfl
  rw [hstep]
  cases hrest : body (.ofKind kind) rest with
  | error e => exact iff_of_false not_clean_error not_allClean_error
  | ok rest' =>
    obtain ⟨m', hm', hlacks', hscoped⟩ :=
      exists_packageScoped enclosing kind text pos doc rest' hm hlacks
    show Clean (packageScoped enclosing _ >>= _) ↔ _
    rw [hscoped]
    show Clean (.ok (onModifiers dropPublic _)) ↔ _
    rw [onModifiers_cons dropPublic hm']
    constructor
    · rintro ⟨t, ht, hall⟩
      obtain rfl := Except.ok.inj ht
      exact ⟨rest', rfl, fun s hs => (Tree.lacks_iff.mp hall).2 s (List.mem_cons_of_mem _ hs)⟩
    · rintro ⟨ts, hts, hall⟩
      obtain rfl := Except.ok.inj hts
      exact ⟨_, rfl, Tree.lacks_mk hne
        (List.forall_mem_cons.mpr ⟨lacks_dropPublic hlacks', hall⟩)⟩

theorem clean_constant_iff {enclosing : Enclosing} {t : Tree NodeKind}
    (hkind : t.kind = .enumConstantDef) :
    Clean (declaration enclosing t) ↔ AllClean (body .classBody t.children) := by
  obtain ⟨kind, text, pos, doc, children⟩ := t
  obtain rfl : kind = .enumConstantDef := hkind
  have hstep : declaration enclosing ⟨.enumConstantDef, text, pos, doc, children⟩ = (do
      return ⟨.enumConstantDef, text, pos, doc, ← body .classBody children⟩) := by
    unfold declaration
    rfl
  rw [hstep]
  cases hbody : body .classBody children with
  | error e => exact iff_of_false not_clean_error not_allClean_error
  | ok ts =>
    constructor
    · rintro ⟨t, ht, hall⟩
      obtain rfl := Except.ok.inj ht
      exact ⟨ts, rfl, (Tree.lacks_iff.mp hall).2⟩
    · rintro ⟨ts', hts', hall⟩
      obtain rfl := Except.ok.inj hts'
      exact ⟨_, rfl, Tree.lacks_mk (by decide) hall⟩

/-! ## Members -/

theorem constructorsPlain_method (h : java.IsMethod t) : t.ConstructorsPlain := by
  obtain ⟨-, modifiers, parameters, type, rest, hchildren, hmodifiers, hparameters, htype,
    hrest⟩ := h
  obtain ⟨ps, dims, tail, rfl, hps, hdims, htail⟩ := exists_of_isMethodRest hrest
  refine Tree.constructorsPlain_iff.mpr ⟨fun hctor => ?_, ?_⟩
  · exact absurd htype.1 (hctor.2 type (by simp [hchildren]))
  · have hhead := still_of_mem_head hmodifiers hparameters
    have hrest := List.forall_mem_append.mpr
      ⟨constructorsPlain_of_dims hdims, fun s hs => (htail s hs).1.1⟩
    rw [hchildren, List.append_assoc]
    exact List.forall_mem_append.mpr ⟨fun s hs => (hhead s hs).2.1, List.forall_mem_cons.mpr
      ⟨constructorsPlain_of_isLeaf (by decide) htype,
        List.forall_mem_cons.mpr ⟨constructorsPlain_of_isParameters hps, hrest⟩⟩⟩

theorem declaration_of_other {enclosing : Enclosing} {t : Tree NodeKind}
    (hkind : t.kind ∈ [.instanceInit, .staticInit, .packageDef, .importDef, .staticImport]) :
    declaration enclosing t = .ok t := by
  obtain ⟨kind, text, pos, doc, children⟩ := t
  unfold declaration
  simp only [List.mem_cons, List.not_mem_nil, or_false] at hkind
  rcases hkind with rfl | rfl | rfl | rfl | rfl <;> rfl

theorem clean_of_still {enclosing : Enclosing}
    (hkind : t.kind ∈ [.instanceInit, .staticInit, .packageDef, .importDef, .staticImport])
    (h : t.Still) : Clean (declaration enclosing t.normalized) := by
  refine ⟨t.normalized, declaration_of_other ?_, h.2⟩
  rw [Tree.kind_normalized]
  revert hkind
  cases t.kind <;> decide

/-- What stands in front of a body is left alone, and the body comes out clean if its members do. -/
theorem allClean_body_iff {enclosing : Enclosing} {front blocks : List (Tree JavaKind)}
    (hfront : ∀ s ∈ front, s.Still ∧ s.kind ≠ .objBlock)
    (hblocks : AtMostOne (fun b => b.kind = .objBlock) blocks) :
    AllClean (body enclosing ((front ++ blocks).map Tree.normalized)) ↔
      ∀ b ∈ blocks, ∀ m ∈ b.children, Clean (declaration enclosing m.normalized) := by
  have hfront' : ∀ s ∈ front.map Tree.normalized,
      s.kind ≠ .objBlock ∧ s.Lacks .arrayDeclarator := by
    refine List.forall_mem_map.mpr fun s hs => ⟨?_, (hfront s hs).1.2⟩
    rw [Tree.kind_normalized]
    exact JavaKind.normalized_injective.ne (hfront s hs).2
  rw [List.map_append, allClean_body_append hfront']
  rcases hblocks with rfl | ⟨block, hblock, rfl⟩
  · exact iff_of_true ⟨[], by unfold body; rfl, nofun⟩ nofun
  · rw [List.map_singleton, allClean_body_block (Tree.kind_normalized_eq hblock),
      Tree.children_normalized, List.forall_mem_map, List.forall_mem_singleton]

/-- A declaration with a body is plain if the members of the body are. -/
theorem constructorsPlain_body {front blocks : List (Tree JavaKind)}
    (hkind : t.kind ∉ [.ctorDef, .annotationFieldDef]) (hchildren : t.children = front ++ blocks)
    (hfront : ∀ s ∈ front, s.Still ∧ s.kind ≠ .objBlock)
    (hblocks : AtMostOne (fun b => b.kind = .objBlock) blocks) :
    t.ConstructorsPlain ↔ ∀ b ∈ blocks, ∀ m ∈ b.children, m.ConstructorsPlain := by
  rw [Tree.constructorsPlain_append hkind hchildren fun s hs => (hfront s hs).1]
  rcases hblocks with rfl | ⟨block, hblock, rfl⟩
  · exact iff_of_true nofun nofun
  · have hall : block.children = [] ++ block.children := rfl
    rw [List.forall_mem_singleton, List.forall_mem_singleton,
      Tree.constructorsPlain_append (by rw [hblock]; decide) hall nofun]

theorem isTypeDef_normalized (h : java.IsTypeKind t.kind) : t.normalized.kind.isTypeDef = true := by
  rw [Tree.kind_normalized]
  exact isTypeDef_of_isTypeKind (isTypeKind_normalized h)

theorem not_constructor_of_isTypeKind {kind : JavaKind} (h : java.IsTypeKind kind) :
    kind ∉ [.ctorDef, .annotationFieldDef] := by
  rcases h with rfl | ⟨word, rfl⟩
  · decide
  · simp only [java]
    split_ifs <;> decide

/-- The members of a body come out clean exactly if their constructors are plain. -/
def CleanBody (b : Tree JavaKind) : Prop :=
  b.kind = .objBlock ∧ ∀ m ∈ b.children, ∀ enclosing,
    (Clean (declaration enclosing m.normalized) ↔ m.ConstructorsPlain)

theorem clean_isConstant_iff (h : java.IsConstant (fun _ => CleanBody) t) (enclosing : Enclosing) :
    Clean (declaration enclosing t.normalized) ↔ t.ConstructorsPlain := by
  obtain ⟨hkind, annotations, arguments, body, hchildren, hannotations, harguments, hbody⟩ := h
  have hfront : ∀ s ∈ annotations ++ arguments, s.Still ∧ s.kind ≠ .objBlock := by
    refine List.forall_mem_append.mpr ⟨fun a ha => ?_, harguments.forall_mem fun e he => ?_⟩
    · exact ⟨still_of_isAnnotationMark (hannotations a ha), by rw [(hannotations a ha).1]; decide⟩
    · exact ⟨still_of_isLeaf (by decide) he, by rw [he.1]; decide⟩
  have hblock : AtMostOne (fun b => b.kind = .objBlock) body :=
    hbody.imp_right fun ⟨b, hb, hone⟩ => ⟨b, hb.1, hone⟩
  have hmembers := hbody.forall_mem fun b hb => hb.2
  rw [clean_constant_iff (Tree.kind_normalized_eq hkind), Tree.children_normalized, hchildren,
    allClean_body_iff hfront hblock,
    constructorsPlain_body (by rw [hkind]; decide) hchildren hfront hblock]
  exact forall₂_congr fun b hb => forall₂_congr fun m hm => hmembers b hb m hm .classBody

theorem clean_isTypeDef_iff (h : java.IsTypeDef (fun _ => CleanBody) t) (enclosing : Enclosing) :
    Clean (declaration enclosing t.normalized) ↔ t.ConstructorsPlain := by
  obtain ⟨hkind, -, modifiers, parameters, extended, implemented, block, hchildren, hmodifiers,
    hparameters, hextended, himplemented, hblock, hmembers⟩ := h
  have hrest : ∀ s ∈ parameters ++ extended ++ implemented, s.Still ∧ s.kind ≠ .objBlock := by
    refine List.forall_mem_append.mpr ⟨List.forall_mem_append.mpr
      ⟨hparameters.forall_mem fun s hs => ?_, hextended.forall_mem fun s hs => ?_⟩,
      himplemented.forall_mem fun s hs => ?_⟩
    all_goals exact ⟨still_of_isListOf (by decide) (by decide) hs, by rw [hs.1]; decide⟩
  have hfront : ∀ s ∈ modifiers :: (parameters ++ extended ++ implemented),
      s.Still ∧ s.kind ≠ .objBlock := by
    refine List.forall_mem_cons.mpr ⟨⟨still_of_isModifiers hmodifiers, ?_⟩, hrest⟩
    rw [hmodifiers.1]
    decide
  have hbody : AtMostOne (fun b : Tree JavaKind => b.kind = .objBlock) [block] :=
    .inr ⟨block, hblock, rfl⟩
  have hchildren' : t.children =
      modifiers :: (parameters ++ extended ++ implemented) ++ [block] := by
    simpa using hchildren
  have hnormalized : t.normalized.children = modifiers.normalized ::
      (parameters ++ extended ++ implemented ++ [block]).map Tree.normalized := by
    rw [Tree.children_normalized, hchildren', List.cons_append, List.map_cons]
  -- on either side, only the members of the body are left to look at
  rw [clean_typeDef_iff (isTypeDef_normalized hkind) hnormalized
      (Tree.kind_normalized_eq hmodifiers.1) (still_of_isModifiers hmodifiers).2,
    allClean_body_iff hrest hbody,
    constructorsPlain_body (not_constructor_of_isTypeKind hkind) hchildren' hfront hbody,
    List.forall_mem_singleton, List.forall_mem_singleton]
  exact forall₂_congr fun m hm => hmembers m hm _

/-- Whatever stands in a body comes out clean exactly if its constructors are plain. -/
theorem clean_member_iff {className : Option String}
    (h : java.MemberOf (fun _ => CleanBody) className t) (enclosing : Enclosing) :
    Clean (declaration enclosing t.normalized) ↔ t.ConstructorsPlain := by
  cases h with
  | field h =>
    refine iff_of_true (clean_field h.1 h.2) ?_
    exact constructorsPlain_of_isDeclarator (by rw [h.1]; decide) h.2
  | method h => exact iff_of_true (clean_method h) (constructorsPlain_method h)
  | constructor _ h => exact clean_constructor_iff h
  | initializer h =>
    obtain ⟨hkind, block, hblock, hone⟩ := h
    have hstill : t.Still := by
      refine .of_children (by rcases hkind with h | h <;> rw [h] <;> decide) fun s hs => ?_
      rw [hone] at hs
      exact List.mem_singleton.mp hs ▸ still_of_isLeaf (by decide) hblock
    refine iff_of_true (clean_of_still ?_ hstill) hstill.1
    rcases hkind with h | h <;> simp [h, java]
  | constant h => exact clean_isConstant_iff h enclosing
  | typeDef h => exact clean_isTypeDef_iff h enclosing

theorem cleanBody_of_bodyOf {className : String}
    (h : java.BodyOf (fun _ => CleanBody) className t) : CleanBody t :=
  ⟨h.1, fun m hm => clean_member_iff (h.2 m hm)⟩

/-! ## Files -/

theorem clean_top_iff (h : java.TopOf (fun _ => CleanBody) t) (enclosing : Enclosing) :
    Clean (declaration enclosing t.normalized) ↔ t.ConstructorsPlain := by
  have hleaf : ∀ {kind : JavaKind}, kind ∈ [.packageDef, .importDef, .staticImport] →
      java.IsLeaf kind t →
      (Clean (declaration enclosing t.normalized) ↔ t.ConstructorsPlain) := by
    intro kind hkind hleaf
    have hstill : t.Still := still_of_isLeaf (by revert hkind; cases kind <;> decide) hleaf
    refine iff_of_true (clean_of_still ?_ hstill) hstill.1
    rw [hleaf.1]
    revert hkind
    cases kind <;> decide
  rcases h with h | h | h | h
  · exact hleaf (by decide) h
  · exact hleaf (by decide) h
  · exact hleaf (by decide) h
  · exact clean_isTypeDef_iff h enclosing

/-- A file comes out clean exactly if its constructors are plain. -/
theorem clean_withGroovyAccess_iff (hkind : t.kind = .compilationUnit)
    (htop : ∀ s ∈ t.children, java.TopOf (fun _ => CleanBody) s) :
    Clean t.normalized.withGroovyAccess ↔ t.ConstructorsPlain := by
  have hroot : t.normalized.kind = .compilationUnit := Tree.kind_normalized_eq hkind
  have hall : t.children = [] ++ t.children := rfl
  rw [Tree.constructorsPlain_append (by rw [hkind]; decide) hall nofun]
  -- The file node has no dimensions of its own, so its children decide.
  have hchildren : AllClean (declarations .file t.normalized.children) ↔
      ∀ s ∈ t.children, s.ConstructorsPlain := by
    rw [allClean_declarations_iff, Tree.children_normalized, List.forall_mem_map]
    exact forall₂_congr fun s hs => clean_top_iff (htop s hs) .file
  rw [← hchildren, Tree.withGroovyAccess, if_neg (not_not.mpr hroot)]
  cases declarations .file t.normalized.children with
  | error e => exact iff_of_false not_clean_error not_allClean_error
  | ok ts =>
    constructor
    · rintro ⟨t', ht', hlacks⟩
      obtain rfl := Except.ok.inj ht'
      exact ⟨ts, rfl, (Tree.lacks_iff.mp hlacks).2⟩
    · rintro ⟨ts', hts', hlacks⟩
      obtain rfl := Except.ok.inj hts'
      refine ⟨_, rfl, Tree.lacks_iff.mpr ⟨?_, hlacks⟩⟩
      show t.normalized.kind ≠ _
      rw [hroot]
      decide

end Access

/-- Every Java file that can be read has a normalized form. It is given its access, with no
dimensions left behind a name at any depth, exactly if no constructor in it has dimensions behind
its parameters. -/
theorem java_parse_folds_dimensions_iff {source : String} {t : Tree JavaKind}
    (h : Java.parse source = .ok t) :
    TagTable.java.normalize t = .ok t.normalized ∧
      ((∃ t', Language.java.parse source = .ok t' ∧ t'.Lacks .arrayDeclarator) ↔
        t.ConstructorsPlain) := by
  have hnormalize := TagTable.normalize_java t
  refine ⟨hnormalize, ?_⟩
  obtain ⟨hkind, htop⟩ := Java.topOf_parse (B := fun _ _ => Access.CleanBody)
    (fun _ _ _ => Access.cleanBody_of_bodyOf) h
  have hparse : Language.java.parse source = t.normalized.withGroovyAccess := by
    rw [Language.parse, Java.parseNormalized, h]
    show TagTable.java.normalize t >>= _ = _
    rw [hnormalize]
    rfl
  rw [hparse]
  exact Access.clean_withGroovyAccess_iff hkind htop

/-- An enum with dimensions behind a method, a parameter and fields, one of them in the body of a
constant. -/
def dimensionedEnum : String :=
  "enum E \x7b A \x7b int f[][]; \x7d; int a[], b = 1; E() \x7b\x7d int m(int p[])[] \x7b\x7d \x7d"

theorem java_parse_folds_dimensions_iff_enum :
    ∃ t, Java.parse dimensionedEnum = .ok t ∧ t.ConstructorsPlain ∧
      TagTable.java.normalize t = .ok t.normalized ∧
      ∃ t', Language.java.parse dimensionedEnum = .ok t' ∧ t'.Lacks .arrayDeclarator := by
  have hread : (Java.parse dimensionedEnum).toOption.any (·.ConstructorsPlain) = true := by
    decide +kernel
  cases ht : Java.parse dimensionedEnum with
  | error e => simp [ht, Except.toOption] at hread
  | ok t =>
    have hplain : t.ConstructorsPlain := by simpa [ht, Except.toOption] using hread
    obtain ⟨hnormalize, hiff⟩ := java_parse_folds_dimensions_iff ht
    exact ⟨t, rfl, hplain, hnormalize, hiff.mpr hplain⟩

/-- Dimensions behind the parameters of a constructor stay there; with a value behind them, the file
is refused, although it can be read. -/
theorem constructor_dimensions_stay :
    (Language.java.parse "class A \x7b A()[] \x7b\x7d \x7d").toOption.map
        (fun t => t.preorder.any (·.kind = .arrayDeclarator)) = some true ∧
      (Java.parse "class A \x7b A()[] default 1; \x7d").toOption.isSome = true ∧
      (Language.java.parse "class A \x7b A()[] default 1; \x7d").toOption.isSome = false := by
  decide +kernel

end ApiDoc.Syntax
