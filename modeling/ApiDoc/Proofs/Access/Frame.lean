import ApiDoc.Proofs.Access.Dimensions

/-!
# What access leaves alone

Giving a file its access the Groovy way changes markers of access and array dimensions and nothing
else. `Rewritten` says what may become of a declaration, child by child: every child that is not
named there is kept as it is, in its place. The changes go down through the first body of types and
of enum constants (`BodyRewritten`), and nowhere else.
-/

namespace ApiDoc.Syntax.Access

open Text (Position)

variable {f : Tree NodeKind → Tree NodeKind}

/-! ## Changes of children -/

/-- The same node with other children. -/
def ChildrenChanged (change : List (Tree NodeKind) → List (Tree NodeKind) → Prop)
    (t t' : Tree NodeKind) : Prop :=
  ∃ ts', t' = t.withChildren ts' ∧ change t.children ts'

/-- The first tree of a kind is changed, if there is one, and all the others are kept. -/
inductive FirstChanged (kind : NodeKind) (change : Tree NodeKind → Tree NodeKind → Prop) :
    List (Tree NodeKind) → List (Tree NodeKind) → Prop
  | absent {ts : List (Tree NodeKind)} (h : ∀ s ∈ ts, s.kind ≠ kind) :
      FirstChanged kind change ts ts
  | present {front back : List (Tree NodeKind)} {t t' : Tree NodeKind}
      (hfront : ∀ s ∈ front, s.kind ≠ kind) (hkind : t.kind = kind) (h : change t t') :
      FirstChanged kind change (front ++ t :: back) (front ++ t' :: back)

/-- What may become of a list of modifiers: it may gain a marker in front, and it loses `public`
unless that is kept. -/
def Remarked (keepsPublic : Bool) (list list' : Tree NodeKind) : Prop :=
  ∃ gained, (gained = [] ∨ gained = [.leaf .annotationMark "PackageScope" list.pos] ∨
      gained = [.leaf .modifier "private" list.pos]) ∧
    list' = list.withChildren (gained ++ list.children.filter fun m =>
      keepsPublic || !(m.kind = .modifier && m.text = "public"))

/-- The first dimensions are taken out, and their text is put behind that of the first type. -/
inductive DimensionsMoved : List (Tree NodeKind) → List (Tree NodeKind) → Prop
  | absent {ts : List (Tree NodeKind)} (h : ∀ s ∈ ts, s.kind ≠ .arrayDeclarator) :
      DimensionsMoved ts ts
  | present {before after front back : List (Tree NodeKind)} {dims type : Tree NodeKind}
      (hbefore : ∀ s ∈ before, s.kind ≠ .arrayDeclarator) (hdims : dims.kind = .arrayDeclarator)
      (hrest : before ++ after = front ++ type :: back) (hfront : ∀ s ∈ front, s.kind ≠ .type)
      (htype : type.kind = .type) :
      DimensionsMoved (before ++ dims :: after)
        (front ++ { type with text := type.text ++ dims.text } :: back)

/-- The dimensions behind the names in the first list of parameters are moved. -/
abbrev ParametersMoved : List (Tree NodeKind) → List (Tree NodeKind) → Prop :=
  FirstChanged .parameters
    (ChildrenChanged (List.Forall₂ (ChildrenChanged DimensionsMoved)))

/-! ## Changes of declarations -/

/-- Is a node of the kind changed where it is declared? -/
def isChanged (kind : NodeKind) : Bool :=
  kind.isTypeDef || isMember kind || kind = .enumConstantDef

mutual

/-- `Rewritten t t'`: what becomes of a declaration that is reached from the root of a file. -/
inductive Rewritten : Tree NodeKind → Tree NodeKind → Prop
  /-- A type, with the members of its first body. -/
  | typeDef {t : Tree NodeKind} {ts ts' : List (Tree NodeKind)} (hkind : t.kind.isTypeDef = true)
      (hbody : BodyRewritten t.children ts)
      (hlist : FirstChanged .modifiers (Remarked false) ts ts') : Rewritten t (t.withChildren ts')
  /-- A field keeps `public`. -/
  | field {t : Tree NodeKind} {ts ts' : List (Tree NodeKind)} (hkind : t.kind = .variableDef)
      (hdims : DimensionsMoved t.children ts)
      (hlist : FirstChanged .modifiers (Remarked true) ts ts') : Rewritten t (t.withChildren ts')
  /-- A method or an annotation element. -/
  | method {t : Tree NodeKind} {ts us ts' : List (Tree NodeKind)}
      (hkind : t.kind = .methodDef ∨ t.kind = .annotationFieldDef)
      (hdims : DimensionsMoved t.children ts) (hparameters : ParametersMoved ts us)
      (hlist : FirstChanged .modifiers (Remarked false) us ts') : Rewritten t (t.withChildren ts')
  /-- A constructor. -/
  | constructor {t : Tree NodeKind} {ts ts' : List (Tree NodeKind)} (hkind : t.kind = .ctorIdent)
      (hparameters : ParametersMoved t.children ts)
      (hlist : FirstChanged .modifiers (Remarked false) ts ts') : Rewritten t (t.withChildren ts')
  /-- An enum constant, with the members of its first body. -/
  | enumConstant {t : Tree NodeKind} {ts : List (Tree NodeKind)} (hkind : t.kind = .enumConstantDef)
      (hbody : BodyRewritten t.children ts) : Rewritten t (t.withChildren ts)
  /-- Anything else is kept as it is. -/
  | kept {t : Tree NodeKind} (hkind : isChanged t.kind = false) : Rewritten t t

/-- The members of the first body among the trees are rewritten, if there is one. -/
inductive BodyRewritten : List (Tree NodeKind) → List (Tree NodeKind) → Prop
  | absent {ts : List (Tree NodeKind)} (h : ∀ s ∈ ts, s.kind ≠ .objBlock) : BodyRewritten ts ts
  | present {front back members : List (Tree NodeKind)} {block : Tree NodeKind}
      (hfront : ∀ s ∈ front, s.kind ≠ .objBlock) (hkind : block.kind = .objBlock)
      (h : AllRewritten block.children members) :
      BodyRewritten (front ++ block :: back) (front ++ block.withChildren members :: back)

/-- Declarations are rewritten one by one. -/
inductive AllRewritten : List (Tree NodeKind) → List (Tree NodeKind) → Prop
  | nil : AllRewritten [] []
  | cons {t t' : Tree NodeKind} {ts ts' : List (Tree NodeKind)} (head : Rewritten t t')
      (tail : AllRewritten ts ts') : AllRewritten (t :: ts) (t' :: ts')

end

variable {enclosing : Enclosing} {t t' : Tree NodeKind} {ts ts' : List (Tree NodeKind)}
  {kind : NodeKind}

theorem BodyRewritten.cons {s : Tree NodeKind} (hs : s.kind ≠ .objBlock)
    (h : BodyRewritten ts ts') : BodyRewritten (s :: ts) (s :: ts') := by
  cases h with
  | absent h => exact .absent (List.forall_mem_cons.mpr ⟨hs, h⟩)
  | @present front back members block hfront hkind h =>
    exact @BodyRewritten.present (s :: front) back members block
      (List.forall_mem_cons.mpr ⟨hs, hfront⟩) hkind h

/-! ## Modifiers -/

theorem FirstChanged.cons {change : Tree NodeKind → Tree NodeKind → Prop} {s : Tree NodeKind}
    (hs : s.kind ≠ kind) (h : FirstChanged kind change ts ts') :
    FirstChanged kind change (s :: ts) (s :: ts') := by
  cases h with
  | absent h => exact .absent (List.forall_mem_cons.mpr ⟨hs, h⟩)
  | @present front back t t' hfront hkind h =>
    exact @FirstChanged.present kind change (s :: front) back t t'
      (List.forall_mem_cons.mpr ⟨hs, hfront⟩) hkind h

theorem firstChanged_modifyFirst {change : Tree NodeKind → Tree NodeKind → Prop}
    (hf : ∀ t, change t (f t)) (ts : List (Tree NodeKind)) :
    FirstChanged kind change ts (Tree.modifyFirst kind f ts) := by
  induction ts with
  | nil => exact .absent (by simp)
  | cons t ts ih =>
    unfold Tree.modifyFirst
    split
    · next hkind => exact @FirstChanged.present kind change [] ts t (f t) (by simp) hkind (hf t)
    · next hkind => exact ih.cons hkind

/-- Two changes of the first tree of a kind are one. -/
theorem modifyFirst_modifyFirst {g : Tree NodeKind → Tree NodeKind} (hf : ∀ t, (f t).kind = t.kind)
    (ts : List (Tree NodeKind)) :
    Tree.modifyFirst kind g (Tree.modifyFirst kind f ts) = Tree.modifyFirst kind (g ∘ f) ts := by
  induction ts with
  | nil => rfl
  | cons t ts ih =>
    by_cases hkind : t.kind = kind
    · simp [Tree.modifyFirst, hkind, hf]
    · simp [Tree.modifyFirst, hkind, ih]

/-- At most a marker is put in front of the modifiers. -/
def IsMarking (f : Tree NodeKind → Tree NodeKind) : Prop :=
  ∀ list, f list = list ∨ f list = mark .annotationMark "PackageScope" list ∨
    f list = mark .modifier "private" list

theorem isMarking_addPackageScope : IsMarking addPackageScope := by
  intro list
  unfold addPackageScope
  split
  · exact .inl rfl
  · exact .inr (.inl rfl)

theorem isMarking_makePrivate : IsMarking makePrivate := by
  intro list
  unfold makePrivate
  split
  · exact .inl rfl
  · exact .inr (.inr rfl)

theorem IsMarking.kind_eq (hf : IsMarking f) (list : Tree NodeKind) :
    (f list).kind = list.kind := by
  rcases hf list with h | h | h
  · rw [h]
  · rw [h]
    rfl
  · rw [h]
    rfl

theorem IsMarking.remarked (hf : IsMarking f) (list : Tree NodeKind) :
    Remarked true list (f list) := by
  rcases hf list with h | h | h
  · exact ⟨[], .inl rfl, by simp [h, Tree.withChildren_children]⟩
  · exact ⟨_, .inr (.inl rfl), by simp [h, mark]⟩
  · exact ⟨_, .inr (.inr rfl), by simp [h, mark]⟩

/-- No marker is `public`, so dropping that comes to the same before and behind the marking. -/
theorem IsMarking.remarked_dropPublic (hf : IsMarking f) (list : Tree NodeKind) :
    Remarked false list (dropPublic (f list)) := by
  rcases hf list with h | h | h
  · exact ⟨[], .inl rfl, by simp [h, dropPublic]⟩
  · exact ⟨_, .inr (.inl rfl), by simp [h, dropPublic, mark, Tree.withChildren, Tree.leaf]⟩
  · exact ⟨_, .inr (.inr rfl), by simp [h, dropPublic, mark, Tree.withChildren, Tree.leaf]⟩

theorem eq_of_onModifiers? (h : onModifiers? f t = .ok t') : t' = onModifiers f t := by
  unfold onModifiers? at h
  split at h
  · cases h
  · exact (Except.ok.inj h).symm

theorem exists_marking_of_packageScoped (h : packageScoped enclosing t = .ok t') :
    ∃ f, IsMarking f ∧ t' = onModifiers f t := by
  unfold packageScoped at h
  split at h
  · refine ⟨id, fun list => .inl rfl, ?_⟩
    have hsame : ∀ ts : List (Tree NodeKind), Tree.modifyFirst .modifiers id ts = ts := by
      intro ts
      induction ts with
      | nil => rfl
      | cons t ts ih => simp [Tree.modifyFirst, ih]
    rw [onModifiers, hsame, Tree.withChildren_children]
    exact (Except.ok.inj h).symm
  · exact ⟨addPackageScope, isMarking_addPackageScope, eq_of_onModifiers? h⟩

theorem childrenChanged_onModifiers (hf : IsMarking f) (t : Tree NodeKind) :
    ChildrenChanged (FirstChanged .modifiers (Remarked true)) t (onModifiers f t) :=
  ⟨_, rfl, firstChanged_modifyFirst hf.remarked t.children⟩

theorem childrenChanged_dropPublic (hf : IsMarking f) (t : Tree NodeKind) :
    ChildrenChanged (FirstChanged .modifiers (Remarked false)) t
      (onModifiers dropPublic (onModifiers f t)) := by
  refine ⟨Tree.modifyFirst .modifiers (dropPublic ∘ f) t.children, ?_, ?_⟩
  · rw [← modifyFirst_modifyFirst hf.kind_eq]
    rfl
  · exact firstChanged_modifyFirst hf.remarked_dropPublic t.children

/-! ## Dimensions -/

theorem extract?_eq_none (h : extract? kind ts = none) : ∀ s ∈ ts, s.kind ≠ kind := by
  induction ts with
  | nil => simp
  | cons t ts ih =>
    unfold extract? at h
    split at h
    · cases h
    · next hkind => exact List.forall_mem_cons.mpr ⟨hkind, ih (Option.map_eq_none_iff.mp h)⟩

theorem extract?_eq_some {found : Tree NodeKind} {rest : List (Tree NodeKind)}
    (h : extract? kind ts = some (found, rest)) :
    ∃ before after, ts = before ++ found :: after ∧ rest = before ++ after ∧
      found.kind = kind ∧ ∀ s ∈ before, s.kind ≠ kind := by
  induction ts generalizing rest with
  | nil => cases h
  | cons t ts ih =>
    unfold extract? at h
    split at h
    · next hkind =>
      obtain ⟨rfl, rfl⟩ := Prod.mk.inj (Option.some.inj h)
      exact ⟨[], ts, rfl, rfl, hkind, by simp⟩
    · next hkind =>
      obtain ⟨⟨found', rest'⟩, hextract, heq⟩ := Option.map_eq_some_iff.mp h
      obtain ⟨rfl, rfl⟩ := Prod.mk.inj heq
      obtain ⟨before, after, rfl, rfl, hfound, hbefore⟩ := ih hextract
      exact ⟨t :: before, after, rfl, rfl, hfound, List.forall_mem_cons.mpr ⟨hkind, hbefore⟩⟩

theorem exists_split_of_child? {s : Tree NodeKind} (h : t.child? kind = some s) :
    ∃ front back, t.children = front ++ s :: back ∧ s.kind = kind ∧
      ∀ c ∈ front, c.kind ≠ kind := by
  obtain ⟨hkind, front, back, hsplit, hfront⟩ := List.find?_eq_some_iff_append.mp h
  exact ⟨front, back, hsplit, by simpa using hkind, by simpa using hfront⟩

theorem childrenChanged_foldDimensions (h : foldDimensions t = .ok t') :
    ChildrenChanged DimensionsMoved t t' := by
  unfold foldDimensions at h
  split at h
  case h_1 hnone =>
    cases h
    exact ⟨t.children, (Tree.withChildren_children t).symm, .absent (extract?_eq_none hnone)⟩
  case h_2 dims rest hextract =>
    split at h
    case h_1 => cases h
    case h_2 type htype =>
      cases h
      obtain ⟨before, after, hchildren, rfl, hdims, hbefore⟩ := extract?_eq_some hextract
      obtain ⟨front, back, hrest, hkind, hfront⟩ := exists_split_of_child? htype
      -- The type is looked for among the children that are left.
      have hsplit : before ++ after = front ++ type :: back := hrest
      refine ⟨_, rfl, ?_⟩
      rw [hchildren, hsplit, modifyFirst_append hfront hkind]
      exact .present hbefore hdims hsplit hfront hkind

theorem forall₂_of_mapM {α β : Type} {f : α → Except ParseError β} :
    ∀ {as : List α} {bs : List β}, as.mapM f = .ok bs →
      List.Forall₂ (fun a b => f a = .ok b) as bs
  | [], bs, h => by
    cases h
    exact .nil
  | a :: as, bs, h => by
    rw [List.mapM_cons] at h
    obtain ⟨b, hb, h⟩ := bind_ok.mp h
    obtain ⟨rest, hrest, heq⟩ := bind_ok.mp h
    cases heq
    exact .cons hb (forall₂_of_mapM hrest)

theorem childrenChanged_foldParameterDimensions (h : foldParameterDimensions t = .ok t') :
    ChildrenChanged ParametersMoved t t' := by
  unfold foldParameterDimensions at h
  split at h
  case h_1 hnone =>
    cases h
    have habsent : ∀ s ∈ t.children, s.kind ≠ .parameters := by simpa [Tree.child?] using hnone
    exact ⟨t.children, (Tree.withChildren_children t).symm, .absent habsent⟩
  case h_2 parameters hparameters =>
    obtain ⟨folded, hfolded, heq⟩ := bind_ok.mp h
    cases heq
    obtain ⟨front, back, hchildren, hkind, hfront⟩ := exists_split_of_child? hparameters
    refine ⟨_, rfl, ?_⟩
    rw [hchildren, modifyFirst_append hfront hkind]
    refine .present hfront hkind ⟨folded, rfl, ?_⟩
    exact (forall₂_of_mapM hfolded).imp fun _ _ => childrenChanged_foldDimensions

/-! ## Declarations -/

theorem rewritten_method (hkind : t.kind = .methodDef ∨ t.kind = .annotationFieldDef)
    (h : method enclosing t = .ok t') : Rewritten t t' := by
  obtain ⟨t₁, hfold, h⟩ := bind_ok.mp h
  obtain ⟨t₂, hparameters, h⟩ := bind_ok.mp h
  obtain ⟨t₃, hscoped, heq⟩ := bind_ok.mp h
  cases heq
  obtain ⟨ts, rfl, hdims⟩ := childrenChanged_foldDimensions hfold
  obtain ⟨us, rfl, hmoved⟩ := childrenChanged_foldParameterDimensions hparameters
  obtain ⟨f, hf, rfl⟩ := exists_marking_of_packageScoped hscoped
  obtain ⟨ts', heq, hlist⟩ := childrenChanged_dropPublic hf _
  rw [heq]
  exact .method hkind hdims hmoved hlist

theorem rewritten_constructor (hkind : t.kind = .ctorIdent)
    (h : constructor enclosing t = .ok t') : Rewritten t t' := by
  obtain ⟨t₁, hparameters, h⟩ := bind_ok.mp h
  obtain ⟨t₂, hmodifiers, heq⟩ := bind_ok.mp h
  cases heq
  obtain ⟨ts, rfl, hmoved⟩ := childrenChanged_foldParameterDimensions hparameters
  have hf : IsMarking
      (if enclosing = Enclosing.enumBody then makePrivate else addPackageScope) := by
    split
    · exact isMarking_makePrivate
    · exact isMarking_addPackageScope
  obtain ⟨ts', heq, hlist⟩ := childrenChanged_dropPublic hf _
  rw [eq_of_onModifiers? hmodifiers, heq]
  exact .constructor hkind hmoved hlist

theorem rewritten_typeDef {text : String} {pos : Position} {doc : Option String}
    (hkind : kind.isTypeDef = true)
    (hbody : ∀ {ts' : List (Tree NodeKind)} {inside : Enclosing}, body inside ts = .ok ts' →
      BodyRewritten ts ts')
    (h : declaration enclosing ⟨kind, text, pos, doc, ts⟩ = .ok t') :
    Rewritten ⟨kind, text, pos, doc, ts⟩ t' := by
  unfold declaration at h
  rw [if_pos hkind, bind_ok] at h
  obtain ⟨-, -, h⟩ := h
  obtain ⟨ts', hrun, h⟩ := bind_ok.mp h
  obtain ⟨t₁, hscoped, heq⟩ := bind_ok.mp h
  cases heq
  obtain ⟨f, hf, rfl⟩ := exists_marking_of_packageScoped hscoped
  obtain ⟨us, heq, hlist⟩ := childrenChanged_dropPublic hf _
  rw [heq]
  exact .typeDef (t := ⟨kind, text, pos, doc, ts⟩) hkind (hbody hrun) hlist

mutual

/-- What access makes of a declaration. -/
theorem rewritten_declaration : (t : Tree NodeKind) → {enclosing : Enclosing} →
    {t' : Tree NodeKind} → declaration enclosing t = .ok t' → Rewritten t t'
  | ⟨kind, text, pos, doc, children⟩, enclosing, t', h => by
    have hbody : ∀ {ts' : List (Tree NodeKind)} {inside : Enclosing},
        body inside children = .ok ts' → BodyRewritten children ts' :=
      fun hrun => bodyRewritten_body children hrun
    -- the cases are those of `declaration`: types first, then members by their kind
    by_cases htype : kind.isTypeDef = true
    · exact rewritten_typeDef htype hbody h
    unfold declaration at h
    rw [if_neg htype] at h
    split at h
    case h_1 =>
      obtain ⟨t₁, hfold, hscoped⟩ := bind_ok.mp h
      obtain ⟨ts, rfl, hdims⟩ := childrenChanged_foldDimensions hfold
      obtain ⟨f, hf, rfl⟩ := exists_marking_of_packageScoped hscoped
      obtain ⟨ts', heq, hlist⟩ := childrenChanged_onModifiers hf _
      rw [heq]
      exact .field rfl hdims hlist
    case h_2 => exact rewritten_method (.inl rfl) h
    case h_3 => exact rewritten_method (.inr rfl) h
    case h_4 => exact rewritten_constructor rfl h
    case h_5 =>
      obtain ⟨ts', hrun, heq⟩ := bind_ok.mp h
      cases heq
      exact .enumConstant (t := ⟨.enumConstantDef, text, pos, doc, children⟩) rfl (hbody hrun)
    case h_6 =>
      cases h
      refine .kept ?_
      simp_all [isChanged, isMember]

theorem bodyRewritten_body : (ts : List (Tree NodeKind)) → {enclosing : Enclosing} →
    {ts' : List (Tree NodeKind)} → body enclosing ts = .ok ts' → BodyRewritten ts ts'
  | [], enclosing, ts', h => by
    rw [body] at h
    cases h
    exact .absent (by simp)
  | ⟨kind, text, pos, doc, children⟩ :: ts, enclosing, ts', h => by
    rw [body] at h
    split at h
    case isTrue hblock =>
      obtain ⟨members, hmembers, heq⟩ := bind_ok.mp h
      cases heq
      exact @BodyRewritten.present [] ts members ⟨kind, text, pos, doc, children⟩ (by simp) hblock
        (allRewritten_declarations children hmembers)
    case isFalse hblock =>
      obtain ⟨rest, hrest, heq⟩ := bind_ok.mp h
      cases heq
      exact (bodyRewritten_body ts hrest).cons hblock

theorem allRewritten_declarations : (ts : List (Tree NodeKind)) → {enclosing : Enclosing} →
    {ts' : List (Tree NodeKind)} → declarations enclosing ts = .ok ts' → AllRewritten ts ts'
  | [], enclosing, ts', h => by
    rw [declarations] at h
    cases h
    exact .nil
  | t :: ts, enclosing, ts', h => by
    rw [declarations] at h
    obtain ⟨t', ht, h⟩ := bind_ok.mp h
    obtain ⟨rest, hrest, heq⟩ := bind_ok.mp h
    cases heq
    exact .cons (rewritten_declaration t ht) (allRewritten_declarations ts hrest)

end

/-- **Access changes markers of access and array dimensions only.** A file with its access the
Groovy way has the same nodes, in the same order and alike in kind, text, position and comment, save
for what `Rewritten` says of the declarations that are reached through first bodies. The first list
of modifiers of a type, a method, an annotation element or a constructor loses `public`, that of a
field does not, and each of them gains at most one marker in front. The first dimensions behind the
name of a field, a method, an annotation element or a parameter are moved to the first type. -/
theorem withGroovyAccess_changes_access_only (h : t.withGroovyAccess = .ok t') :
    t.kind = .compilationUnit ∧ ChildrenChanged AllRewritten t t' := by
  unfold Tree.withGroovyAccess at h
  split at h
  · cases h
  · next hkind =>
    obtain ⟨ts', hrun, heq⟩ := bind_ok.mp h
    cases heq
    exact ⟨by simpa using hkind, ts', rfl, allRewritten_declarations t.children hrun⟩

/-- A declaration with its modifiers in front of what else it has. -/
def withModifiers (kind : NodeKind) (text : String) (modifiers rest : List (Tree NodeKind)) :
    Tree NodeKind where
  kind
  text
  pos := ⟨1, 1⟩
  children := { kind := .modifiers, text := "", pos := ⟨1, 1⟩, children := modifiers } :: rest

/-- A file with a class `A` that has a field `x` and a constructor with the parameter `y`. -/
def arrayFile (ofClass ofField ofConstructor x y : List (Tree NodeKind)) : Tree NodeKind where
  kind := .compilationUnit
  text := ""
  pos := ⟨1, 1⟩
  children :=
    [withModifiers .classDef "A" ofClass
      [{ kind := .objBlock, text := "", pos := ⟨1, 1⟩, children :=
        [withModifiers .variableDef "x" ofField x,
          withModifiers .ctorIdent "A" ofConstructor
            [{ kind := .parameters, text := "", pos := ⟨1, 1⟩, children :=
              [withModifiers .parameterDef "y" [] y] }]] }]]

theorem withGroovyAccess_changes_access_only_arrays :
    let isPublic := Tree.leaf NodeKind.modifier "public" ⟨1, 1⟩
    let packageScope := Tree.leaf NodeKind.annotationMark "PackageScope" ⟨1, 1⟩
    let spelled := [Tree.leaf NodeKind.type "int" ⟨1, 1⟩, .leaf .arrayDeclarator "[]" ⟨1, 1⟩]
    let moved := [Tree.leaf NodeKind.type "int[]" ⟨1, 1⟩]
    let file := arrayFile [isPublic] [] [isPublic] spelled spelled
    let file' := arrayFile [] [packageScope] [] moved moved
    file.withGroovyAccess = .ok file' ∧ file.kind = .compilationUnit ∧
      ChildrenChanged AllRewritten file file' := by
  intro isPublic packageScope spelled moved file file'
  have hfile : file.withGroovyAccess = .ok file' := rfl
  exact ⟨hfile, withGroovyAccess_changes_access_only hfile⟩

end ApiDoc.Syntax.Access
