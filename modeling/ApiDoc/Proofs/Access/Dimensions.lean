import ApiDoc.Proofs.Access.Declaration
import ApiDoc.Proofs.Syntax.Shape

/-!
# Array dimensions behind names

Which trees have dimensions behind names in them, and how moving dimensions to a type changes the
children of a declaration: what has a type gives its dimensions up, and what has none cannot. So the
dimensions of fields and of parameters always move.
-/

namespace ApiDoc.Syntax

variable {t : Tree JavaKind} {back front : List (Tree NodeKind)}

/-! ## Nodes of normalized trees -/

namespace Tree

theorem kind_ne_of_lacks {t : Tree NodeKind} {kind : NodeKind} (h : t.Lacks kind) :
    t.kind ≠ kind :=
  (lacks_iff.mp h).1

theorem lacks_mk {kind other : NodeKind} {text : String} {pos : Text.Position}
    {doc : Option String} {children : List (Tree NodeKind)} (hkind : kind ≠ other)
    (h : ∀ s ∈ children, s.Lacks other) :
    (⟨kind, text, pos, doc, children⟩ : Tree NodeKind).Lacks other :=
  lacks_iff.mpr ⟨hkind, h⟩

/-! ## Dimensions -/

/-- Do dimensions stand behind the name? -/
def HasDimensions (t : Tree JavaKind) : Prop := ∃ s ∈ t.children, s.kind = .arrayDeclarator

/-- A constructor, which a value may have made an annotation element: it has no type. -/
def IsConstructor (t : Tree JavaKind) : Prop :=
  (t.kind = .ctorDef ∨ t.kind = .annotationFieldDef) ∧ ∀ s ∈ t.children, s.kind ≠ .type

/-- No constructor in the tree has dimensions. -/
def ConstructorsPlain (t : Tree JavaKind) : Prop :=
  ∀ n ∈ t.preorder, n.IsConstructor → ¬n.HasDimensions

instance (t : Tree JavaKind) : Decidable t.HasDimensions :=
  inferInstanceAs (Decidable (∃ s ∈ t.children, s.kind = .arrayDeclarator))

instance (t : Tree JavaKind) : Decidable t.IsConstructor :=
  inferInstanceAs (Decidable
    ((t.kind = .ctorDef ∨ t.kind = .annotationFieldDef) ∧ ∀ s ∈ t.children, s.kind ≠ .type))

instance (t : Tree JavaKind) : Decidable t.ConstructorsPlain :=
  inferInstanceAs (Decidable (∀ n ∈ t.preorder, n.IsConstructor → ¬n.HasDimensions))

theorem constructorsPlain_iff :
    t.ConstructorsPlain ↔
      (t.IsConstructor → ¬t.HasDimensions) ∧ ∀ s ∈ t.children, s.ConstructorsPlain :=
  forall_mem_preorder

/-- Neither dimensions nor constructors occur in the tree. -/
def Still (t : Tree JavaKind) : Prop :=
  t.ConstructorsPlain ∧ t.normalized.Lacks .arrayDeclarator

theorem Still.of_children (hkind : t.kind ∉ [.ctorDef, .annotationFieldDef, .arrayDeclarator])
    (h : ∀ s ∈ t.children, s.Still) : t.Still := by
  simp only [List.mem_cons, List.not_mem_nil, or_false, not_or] at hkind
  obtain ⟨hctor, helement, hdims⟩ := hkind
  refine ⟨constructorsPlain_iff.mpr ⟨fun hc => ?_, fun s hs => (h s hs).1⟩, lacks_iff.mpr ⟨?_, ?_⟩⟩
  · exact absurd hc.1 (not_or.mpr ⟨hctor, helement⟩)
  · rw [kind_normalized]
    revert hdims
    cases t.kind <;> decide
  · rw [children_normalized]
    intro s' hs'
    obtain ⟨s, hs, rfl⟩ := List.mem_map.mp hs'
    exact (h s hs).2

theorem Still.kind_ne (h : t.Still) : t.kind ≠ .arrayDeclarator :=
  fun hkind => kind_ne_of_lacks h.2 (kind_normalized_eq hkind)

/-- Outside constructors, only the children matter that are not still. -/
theorem constructorsPlain_append {front back : List (Tree JavaKind)}
    (hkind : t.kind ∉ [.ctorDef, .annotationFieldDef]) (hchildren : t.children = front ++ back)
    (hfront : ∀ s ∈ front, s.Still) : t.ConstructorsPlain ↔ ∀ s ∈ back, s.ConstructorsPlain := by
  have hroot : ¬t.IsConstructor := by
    rintro ⟨hctor, -⟩
    simp only [List.mem_cons, List.not_mem_nil, or_false] at hkind
    exact hkind hctor
  rw [constructorsPlain_iff, hchildren]
  constructor
  · exact fun h s hs => h.2 s (List.mem_append_right front hs)
  · refine fun h => ⟨fun hctor => absurd hctor hroot, fun s hs => ?_⟩
    exact (List.mem_append.mp hs).elim (fun hs => (hfront s hs).1) (h s)

end Tree

namespace Grammar

theorem still_of_isLeaf {kind : JavaKind}
    (hkind : kind ∉ [.ctorDef, .annotationFieldDef, .arrayDeclarator]) (h : java.IsLeaf kind t) :
    t.Still := by
  refine .of_children (h.1 ▸ hkind) ?_
  rw [h.2]
  exact nofun

theorem still_of_isAnnotationMark (h : java.IsAnnotationMark t) : t.Still := by
  refine .of_children (by rw [h.1]; decide) (h.2.forall_mem fun e he => ?_)
  exact still_of_isLeaf (by decide) he

theorem still_of_isModifiers (h : java.IsModifiers t) : t.Still := by
  refine .of_children (by rw [h.1]; decide) fun s hs => ?_
  rcases h.2 s hs with hleaf | hannotation
  · exact still_of_isLeaf (by decide) hleaf
  · exact still_of_isAnnotationMark hannotation

theorem still_of_isListOf {kind item : JavaKind}
    (hkind : kind ∉ [.ctorDef, .annotationFieldDef, .arrayDeclarator])
    (hitem : item ∉ [.ctorDef, .annotationFieldDef, .arrayDeclarator])
    (h : java.IsListOf kind item t) : t.Still :=
  .of_children (h.1 ▸ hkind) fun s hs => still_of_isLeaf hitem (h.2 s hs)

theorem constructorsPlain_of_isLeaf {kind : JavaKind}
    (hkind : kind ∉ [.ctorDef, .annotationFieldDef]) (h : java.IsLeaf kind t) :
    t.ConstructorsPlain := by
  have hnone : t.children = [] ++ [] := h.2
  exact (Tree.constructorsPlain_append (h.1 ▸ hkind) hnone nofun).mpr nofun

theorem constructorsPlain_of_dims {dims : List (Tree JavaKind)}
    (h : AtMostOne (java.IsLeaf .arrayDeclarator) dims) : ∀ s ∈ dims, s.ConstructorsPlain :=
  h.forall_mem fun _ => constructorsPlain_of_isLeaf (by decide)

theorem constructorsPlain_of_isDeclarator (hkind : t.kind ∉ [.ctorDef, .annotationFieldDef])
    (h : java.IsDeclarator t.children) : t.ConstructorsPlain := by
  obtain ⟨modifiers, type, dims, value, hchildren, hmodifiers, htype, hdims, hvalue⟩ := h
  rw [List.append_assoc] at hchildren
  refine (Tree.constructorsPlain_append hkind hchildren ?_).mpr fun s hs => ?_
  · simpa using ⟨still_of_isModifiers hmodifiers, still_of_isLeaf (by decide) htype⟩
  · rcases List.mem_append.mp hs with hs | hs
    · exact constructorsPlain_of_dims hdims s hs
    · exact (hvalue.forall_mem (fun _ => still_of_isLeaf (by decide)) s hs).1

theorem constructorsPlain_of_isParameters (h : java.IsParameters t) : t.ConstructorsPlain := by
  have hall : t.children = [] ++ t.children := rfl
  refine (Tree.constructorsPlain_append (by rw [h.1]; decide) hall nofun).mpr fun p hp => ?_
  obtain ⟨hkind, hdeclarator⟩ := h.2 p hp
  refine constructorsPlain_of_isDeclarator ?_ hdeclarator
  rcases hkind with hkind | hkind
  · rw [hkind]
    decide
  · rw [hkind]
    decide

end Grammar

namespace Access

variable {enclosing : Enclosing} {kind : NodeKind} {text : String} {pos : Text.Position}
  {doc : Option String} {m : Tree NodeKind} {rest : List (Tree NodeKind)}

/-! ## Modifiers -/

theorem lacks_mark {markKind : NodeKind} {word : String} (hne : markKind ≠ .arrayDeclarator)
    (h : m.Lacks .arrayDeclarator) : (mark markKind word m).Lacks .arrayDeclarator := by
  obtain ⟨hm, hchildren⟩ := Tree.lacks_iff.mp h
  refine Tree.lacks_iff.mpr ⟨hm, List.forall_mem_cons.mpr ⟨?_, hchildren⟩⟩
  exact Tree.lacks_iff.mpr ⟨hne, nofun⟩

theorem lacks_addPackageScope (h : m.Lacks .arrayDeclarator) :
    (addPackageScope m).Lacks .arrayDeclarator := by
  unfold addPackageScope
  split
  · exact h
  · exact lacks_mark (by decide) h

theorem lacks_makePrivate (h : m.Lacks .arrayDeclarator) :
    (makePrivate m).Lacks .arrayDeclarator := by
  unfold makePrivate
  split
  · exact h
  · exact lacks_mark (by decide) h

theorem lacks_dropPublic (h : m.Lacks .arrayDeclarator) :
    (dropPublic m).Lacks .arrayDeclarator := by
  obtain ⟨hm, hchildren⟩ := Tree.lacks_iff.mp h
  exact Tree.lacks_iff.mpr ⟨hm, fun s hs => hchildren s (List.mem_of_mem_filter hs)⟩

theorem onModifiers_cons (f : Tree NodeKind → Tree NodeKind) (hm : m.kind = .modifiers) :
    onModifiers f ⟨kind, text, pos, doc, m :: rest⟩ = ⟨kind, text, pos, doc, f m :: rest⟩ := by
  simp [onModifiers, Tree.withChildren, Tree.modifyFirst, hm]

theorem onModifiers?_cons (f : Tree NodeKind → Tree NodeKind) (hm : m.kind = .modifiers) :
    onModifiers? f ⟨kind, text, pos, doc, m :: rest⟩ = .ok ⟨kind, text, pos, doc, f m :: rest⟩ := by
  have hchild : (⟨kind, text, pos, doc, m :: rest⟩ : Tree NodeKind).child? .modifiers = some m := by
    simp [Tree.child?, hm]
  rw [onModifiers?, hchild]
  exact congrArg Except.ok (onModifiers_cons f hm)

/-- Access changes nothing but the modifiers in front, and brings no dimensions. -/
theorem exists_packageScoped (enclosing : Enclosing) (kind : NodeKind) (text : String)
    (pos : Text.Position) (doc : Option String) (rest : List (Tree NodeKind))
    (hm : m.kind = .modifiers) (hlacks : m.Lacks .arrayDeclarator) :
    ∃ m', m'.kind = .modifiers ∧ m'.Lacks .arrayDeclarator ∧
      packageScoped enclosing ⟨kind, text, pos, doc, m :: rest⟩ =
        .ok ⟨kind, text, pos, doc, m' :: rest⟩ := by
  unfold packageScoped
  split
  · exact ⟨m, hm, hlacks, rfl⟩
  · exact ⟨addPackageScope m, (kind_addPackageScope m).trans hm, lacks_addPackageScope hlacks,
      onModifiers?_cons _ hm⟩

/-! ## Moving dimensions -/

theorem extract?_none {ts : List (Tree NodeKind)} (h : ∀ t ∈ ts, t.kind ≠ kind) :
    extract? kind ts = none := by
  induction ts with
  | nil => rfl
  | cons t ts ih =>
    obtain ⟨ht, hts⟩ := List.forall_mem_cons.mp h
    rw [extract?, if_neg ht, ih hts]
    rfl

theorem extract?_append {t : Tree NodeKind} (hfront : ∀ s ∈ front, s.kind ≠ kind)
    (ht : t.kind = kind) : extract? kind (front ++ t :: back) = some (t, front ++ back) := by
  induction front with
  | nil => rw [List.nil_append, extract?, if_pos ht, List.nil_append]
  | cons s front ih =>
    obtain ⟨hs, hfront⟩ := List.forall_mem_cons.mp hfront
    rw [List.cons_append, extract?, if_neg hs, ih hfront]
    rfl

theorem modifyFirst_append {f : Tree NodeKind → Tree NodeKind} {t : Tree NodeKind}
    (hfront : ∀ s ∈ front, s.kind ≠ kind) (ht : t.kind = kind) :
    Tree.modifyFirst kind f (front ++ t :: back) = front ++ f t :: back := by
  induction front with
  | nil => rw [List.nil_append, Tree.modifyFirst, if_pos ht, List.nil_append]
  | cons s front ih =>
    obtain ⟨hs, hfront⟩ := List.forall_mem_cons.mp hfront
    rw [List.cons_append, Tree.modifyFirst, if_neg hs, ih hfront, List.cons_append]

theorem child?_append {t : Tree NodeKind} {k : NodeKind} (hfront : ∀ s ∈ front, s.kind ≠ k)
    (ht : t.kind = k) :
    (⟨kind, text, pos, doc, front ++ t :: back⟩ : Tree NodeKind).child? k = some t := by
  have hnone : front.find? (fun c => decide (c.kind = k)) = none :=
    List.find?_eq_none.mpr fun s hs => by simpa using hfront s hs
  simp [Tree.child?, hnone, ht]

theorem foldDimensions_of_none {t : Tree NodeKind}
    (h : ∀ s ∈ t.children, s.kind ≠ .arrayDeclarator) : foldDimensions t = .ok t := by
  rw [foldDimensions, extract?_none h]

/-- The first dimensions move to the type. -/
theorem foldDimensions_append {middle : List (Tree NodeKind)} {type dims : Tree NodeKind}
    (hfront : ∀ s ∈ front, s.kind ≠ .arrayDeclarator ∧ s.kind ≠ .type) (htype : type.kind = .type)
    (hmiddle : ∀ s ∈ middle, s.kind ≠ .arrayDeclarator) (hdims : dims.kind = .arrayDeclarator) :
    foldDimensions ⟨kind, text, pos, doc, front ++ type :: middle ++ dims :: back⟩ =
      .ok ⟨kind, text, pos, doc,
        front ++ { type with text := type.text ++ dims.text } :: (middle ++ back)⟩ := by
  have hbefore : ∀ s ∈ front ++ type :: middle, s.kind ≠ .arrayDeclarator := by
    intro s hs
    rcases List.mem_append.mp hs with hs | hs
    · exact (hfront s hs).1
    rcases List.mem_cons.mp hs with rfl | hs
    · rw [htype]
      decide
    · exact hmiddle s hs
  have hnotType : ∀ s ∈ front, s.kind ≠ .type := fun s hs => (hfront s hs).2
  rw [foldDimensions, extract?_append hbefore hdims]
  simp only [Tree.withChildren, List.append_assoc, List.cons_append]
  rw [child?_append hnotType htype, modifyFirst_append hnotType htype]

/-- Without a type, dimensions cannot move. -/
theorem foldDimensions_of_untyped (kind : NodeKind) (text : String) (pos : Text.Position)
    (doc : Option String) {dims : Tree NodeKind}
    (hfront : ∀ s ∈ front, s.kind ≠ .arrayDeclarator ∧ s.kind ≠ .type)
    (hdims : dims.kind = .arrayDeclarator) (hback : ∀ s ∈ back, s.kind ≠ .type) :
    foldDimensions ⟨kind, text, pos, doc, front ++ dims :: back⟩ =
      .error ⟨dims.pos, .dimensionsWithoutType text⟩ := by
  have hnone : ((⟨kind, text, pos, doc, front ++ dims :: back⟩ : Tree NodeKind).withChildren
      (front ++ back)).child? .type = none := by
    refine List.find?_eq_none.mpr fun s hs => ?_
    rcases List.mem_append.mp hs with hs | hs
    · simpa using (hfront s hs).2
    · simpa using hback s hs
  rw [foldDimensions, extract?_append (fun s hs => (hfront s hs).1) hdims]
  simp only [hnone]

/-- Dimensions move to the type if there is one, and all else stays. -/
theorem exists_foldDimensions (kind : NodeKind) (text : String) (pos : Text.Position)
    (doc : Option String) {middle dims : List (Tree NodeKind)} {type : Tree NodeKind}
    (hfront : ∀ s ∈ front, s.kind ≠ .arrayDeclarator ∧ s.kind ≠ .type) (htype : type.kind = .type)
    (hlacks : type.Lacks .arrayDeclarator) (hmiddle : ∀ s ∈ middle, s.kind ≠ .arrayDeclarator)
    (hdims : AtMostOne (fun d => d.kind = .arrayDeclarator) dims)
    (hback : ∀ s ∈ back, s.kind ≠ .arrayDeclarator) :
    ∃ type', type'.kind = .type ∧ type'.Lacks .arrayDeclarator ∧
      foldDimensions ⟨kind, text, pos, doc, front ++ type :: middle ++ (dims ++ back)⟩ =
        .ok ⟨kind, text, pos, doc, front ++ type' :: (middle ++ back)⟩ := by
  -- Either there are no dimensions and nothing moves, or they are written behind the type text.
  rcases hdims with rfl | ⟨d, hd, rfl⟩
  · refine ⟨type, htype, hlacks, ?_⟩
    rw [List.nil_append, List.append_assoc, List.cons_append]
    refine foldDimensions_of_none fun s hs => ?_
    rcases List.mem_append.mp hs with hs | hs
    · exact (hfront s hs).1
    rcases List.mem_cons.mp hs with rfl | hs
    · rw [htype]
      decide
    · exact (List.mem_append.mp hs).elim (hmiddle s) (hback s)
  · refine ⟨{ type with text := type.text ++ d.text }, htype, ?_, ?_⟩
    · rw [Tree.lacks_iff] at hlacks ⊢
      exact hlacks
    · exact foldDimensions_append hfront htype hmiddle hd

/-! ## Parameters -/

theorem foldParameterDimensions_append {folded : List (Tree NodeKind)} {parameters : Tree NodeKind}
    (hfront : ∀ s ∈ front, s.kind ≠ .parameters) (hkind : parameters.kind = .parameters)
    (hfolded : parameters.children.mapM foldDimensions = .ok folded) :
    foldParameterDimensions ⟨kind, text, pos, doc, front ++ parameters :: back⟩ =
      .ok ⟨kind, text, pos, doc, front ++ parameters.withChildren folded :: back⟩ := by
  rw [foldParameterDimensions, child?_append hfront hkind]
  simp only [hfolded]
  show Except.ok _ = _
  rw [modifyFirst_append hfront hkind]
  rfl

theorem mapM_foldDimensions {ps : List (Tree NodeKind)}
    (h : ∀ p ∈ ps, ∃ p', foldDimensions p = .ok p' ∧ p'.Lacks .arrayDeclarator) :
    ∃ folded, ps.mapM foldDimensions = .ok folded ∧ ∀ p ∈ folded, p.Lacks .arrayDeclarator := by
  induction ps with
  | nil => exact ⟨[], rfl, nofun⟩
  | cons p ps ih =>
    obtain ⟨hp, hps⟩ := List.forall_mem_cons.mp h
    obtain ⟨p', hfold, hlacks⟩ := hp
    obtain ⟨folded, hfolded, hall⟩ := ih hps
    refine ⟨p' :: folded, ?_, List.forall_mem_cons.mpr ⟨hlacks, hall⟩⟩
    rw [List.mapM_cons, hfold, hfolded]
    rfl

end Access

namespace Grammar

open Access

theorem lacks_of_still {ts : List (Tree JavaKind)} (h : ∀ t ∈ ts, t.Still) :
    ∀ t ∈ ts.map Tree.normalized, t.Lacks .arrayDeclarator := by
  intro t' ht'
  obtain ⟨t, ht, rfl⟩ := List.mem_map.mp ht'
  exact (h t ht).2

theorem dims_normalized {dims : List (Tree JavaKind)}
    (h : AtMostOne (java.IsLeaf .arrayDeclarator) dims) :
    AtMostOne (fun d => d.kind = .arrayDeclarator) (dims.map Tree.normalized) := by
  rcases h with rfl | ⟨d, hd, rfl⟩
  · exact .inl rfl
  · exact .inr ⟨d.normalized, Tree.kind_normalized_eq hd.1, rfl⟩

/-- The dimensions of a field or a parameter move to its type. -/
theorem foldDimensions_declarator (h : java.IsDeclarator t.children) :
    ∃ m rest, m.kind = .modifiers ∧ m.Lacks .arrayDeclarator ∧
      (∀ s ∈ rest, s.Lacks .arrayDeclarator) ∧
      foldDimensions t.normalized =
        .ok ⟨t.kind.normalized, t.text, t.pos, t.doc, m :: rest⟩ := by
  obtain ⟨kind, text, pos, doc, children⟩ := t
  obtain ⟨modifiers, type, dims, value, rfl, hmodifiers, htype, hdims, hvalue⟩ := h
  have hm := still_of_isModifiers hmodifiers
  have hvalue := hvalue.forall_mem fun _ => still_of_isLeaf (by decide)
  have hmkind : modifiers.normalized.kind = .modifiers := Tree.kind_normalized_eq hmodifiers.1
  have hfront : ∀ s ∈ [modifiers.normalized], s.kind ≠ .arrayDeclarator ∧ s.kind ≠ .type := by
    simp [hmkind]
  have hmiddle : ∀ s ∈ ([] : List (Tree NodeKind)), s.kind ≠ .arrayDeclarator := nofun
  have hback := fun s hs => Tree.kind_ne_of_lacks (lacks_of_still hvalue s hs)
  obtain ⟨type', -, hlacks', hfold⟩ := exists_foldDimensions kind.normalized text pos doc hfront
    (Tree.kind_normalized_eq htype.1)
    (still_of_isLeaf (by decide) htype).2 hmiddle (dims_normalized hdims) hback
  refine ⟨modifiers.normalized, type' :: value.map Tree.normalized, hmkind, hm.2, ?_, ?_⟩
  · exact List.forall_mem_cons.mpr ⟨hlacks', lacks_of_still hvalue⟩
  · rw [Tree.normalized_mk]
    simpa using hfold

/-- The dimensions of parameters move to their types. -/
theorem mapM_parameters (h : java.IsParameters t) :
    ∃ folded, t.normalized.children.mapM foldDimensions = .ok folded ∧
      ∀ p ∈ folded, p.Lacks .arrayDeclarator := by
  refine mapM_foldDimensions fun p' hp' => ?_
  rw [Tree.children_normalized] at hp'
  obtain ⟨p, hp, rfl⟩ := List.mem_map.mp hp'
  obtain ⟨hkind, hdeclarator⟩ := h.2 p hp
  obtain ⟨m, rest, -, hm, hrest, hfold⟩ := foldDimensions_declarator hdeclarator
  refine ⟨_, hfold, Tree.lacks_iff.mpr ⟨?_, List.forall_mem_cons.mpr ⟨hm, hrest⟩⟩⟩
  show p.kind.normalized ≠ .arrayDeclarator
  rcases hkind with hkind | hkind
  · rw [hkind]
    decide
  · rw [hkind]
    decide

end Grammar

end ApiDoc.Syntax
