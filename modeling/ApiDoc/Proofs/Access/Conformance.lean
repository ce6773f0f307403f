import ApiDoc.Proofs.Access.Frame
import ApiDoc.Proofs.Syntax.Conformance
import ApiDoc.Syntax.Reading

/-!
# Access keeps trees conforming

Giving declarations their access changes lists of modifiers, spells dimensions in types and drops
them behind names, and `Rewritten` says that it changes nothing else. None of that is what a
conforming node has to have, so a conforming tree stays one, whatever grammar it comes from:
`Rewritten.alike`. With it, whatever is read from a source of either language conforms:
`parse_conforming`.
-/

namespace ApiDoc.Syntax

namespace Access

open ApiDoc.Syntax.Tree (demanding numberIn number_eq conforming_iff conforms_of_not_demanding)

variable {kind : NodeKind} {t t' : Tree NodeKind} {ts ts' : List (Tree NodeKind)}

/-! ## Nodes that are alike -/

/-- The second node serves as well as the first one: it is of the same kind and, unless it is the
spelling of a type, of the same text; it has no other constructors; and it conforms if the first
does. -/
structure Alike (t t' : Tree NodeKind) : Prop where
  kind : t'.kind = t.kind
  text : t.kind ≠ .type → t'.text = t.text
  constructors : ∀ m' ∈ t'.children, m'.kind = .ctorIdent →
    ∃ m ∈ t.children, m.kind = .ctorIdent ∧ m.text = m'.text
  conforming : t.Conforming → t'.Conforming

theorem Alike.refl (t : Tree NodeKind) : Alike t t :=
  ⟨rfl, fun _ => rfl, fun m hm hctor => ⟨m, hm, hctor, rfl⟩, id⟩

theorem Alike.trans {t₁ t₂ t₃ : Tree NodeKind} (h : Alike t₁ t₂) (h' : Alike t₂ t₃) :
    Alike t₁ t₃ where
  kind := h'.kind.trans h.kind
  text := fun hne => (h'.text (h.kind ▸ hne)).trans (h.text hne)
  constructors := by
    intro m₃ hm₃ hctor₃
    obtain ⟨m₂, hm₂, hctor₂, htext₂⟩ := h'.constructors m₃ hm₃ hctor₃
    obtain ⟨m₁, hm₁, hctor₁, htext₁⟩ := h.constructors m₂ hm₂ hctor₂
    exact ⟨m₁, hm₁, hctor₁, htext₁.trans htext₂⟩
  conforming := h'.conforming ∘ h.conforming

/-- Lists of nodes that are alike one by one, save that dimensions may be left out. -/
inductive AlikeAll : List (Tree NodeKind) → List (Tree NodeKind) → Prop
  | nil : AlikeAll [] []
  | cons {t t' : Tree NodeKind} {ts ts' : List (Tree NodeKind)} (head : Alike t t')
      (tail : AlikeAll ts ts') : AlikeAll (t :: ts) (t' :: ts')
  | drop {t : Tree NodeKind} {ts ts' : List (Tree NodeKind)} (head : t.kind = .arrayDeclarator)
      (tail : AlikeAll ts ts') : AlikeAll (t :: ts) ts'

namespace AlikeAll

theorem refl (ts : List (Tree NodeKind)) : AlikeAll ts ts := by
  induction ts with
  | nil => exact .nil
  | cons t ts ih => exact .cons (.refl t) ih

theorem append_left (h : AlikeAll ts ts') (front : List (Tree NodeKind)) :
    AlikeAll (front ++ ts) (front ++ ts') := by
  induction front with
  | nil => exact h
  | cons s front ih => exact .cons (.refl s) ih

theorem at_place (front back : List (Tree NodeKind)) (h : Alike t t') :
    AlikeAll (front ++ t :: back) (front ++ t' :: back) :=
  (AlikeAll.cons h (.refl back)).append_left front

theorem of_forall₂ (h : List.Forall₂ Alike ts ts') : AlikeAll ts ts' := by
  induction h with
  | nil => exact .nil
  | cons head tail ih => exact .cons head ih

theorem trans {us : List (Tree NodeKind)} (h : AlikeAll ts us) (h' : AlikeAll us ts') :
    AlikeAll ts ts' := by
  induction h generalizing ts' with
  | nil => exact h'
  | cons head tail ih =>
    cases h' with
    | cons head' tail' => exact .cons (head.trans head') (ih tail')
    | drop head' tail' => exact .drop (head.kind.symm.trans head') (ih tail')
  | drop head tail ih => exact .drop head (ih h')

theorem exists_of_mem (h : AlikeAll ts ts') : ∀ s' ∈ ts', ∃ s ∈ ts, Alike s s' := by
  induction h with
  | nil => simp
  | @cons t t' ts ts' head tail ih =>
    refine List.forall_mem_cons.mpr ⟨⟨t, List.mem_cons_self, head⟩, fun s' hs' => ?_⟩
    obtain ⟨s, hs, halike⟩ := ih s' hs'
    exact ⟨s, List.mem_cons_of_mem t hs, halike⟩
  | drop head tail ih =>
    intro s' hs'
    obtain ⟨s, hs, halike⟩ := ih s' hs'
    exact ⟨s, List.mem_cons_of_mem _ hs, halike⟩

theorem numberIn_eq (h : AlikeAll ts ts') (hne : kind ≠ .arrayDeclarator) :
    numberIn kind ts' = numberIn kind ts := by
  induction h with
  | nil => rfl
  | cons head tail ih => rw [Tree.numberIn_cons, Tree.numberIn_cons, head.kind, ih]
  | drop head tail ih => rw [Tree.numberIn_cons, head, if_neg hne.symm, Nat.zero_add, ih]

end AlikeAll

/-- A node is alike with children that are alike. -/
theorem Alike.of_children (h : AlikeAll t.children ts') : Alike t (t.withChildren ts') where
  kind := rfl
  text := fun _ => rfl
  constructors := by
    intro m' hm' hctor
    obtain ⟨m, hm, halike⟩ := h.exists_of_mem m' hm'
    have hkind : m.kind = .ctorIdent := halike.kind.symm.trans hctor
    exact ⟨m, hm, hkind, (halike.text (by simp [hkind])).symm⟩
  conforming := by
    intro hconforming
    obtain ⟨hnode, hchildren⟩ := conforming_iff.mp hconforming
    have hnumber : ∀ k ≠ .arrayDeclarator, (t.withChildren ts').number k = t.number k :=
      fun k hk => h.numberIn_eq hk
    have hkind : (t.withChildren ts').kind = t.kind := rfl
    have htext : (t.withChildren ts').text = t.text := rfl
    refine conforming_iff.mpr ⟨⟨?_, ?_, ?_, ?_, ?_⟩, fun s' hs' => ?_⟩
    · simpa [hnumber, hkind, htext] using hnode.typeDef
    · simpa [hnumber, hkind] using hnode.variableDef
    · simpa [hnumber, hkind] using hnode.methodDef
    · simpa [hnumber, hkind] using hnode.constructorDef
    · -- a constructor in a child was one before, in the child that this one is alike
      intro b' hb' m' hm' hctor
      obtain ⟨b, hb, halike⟩ := h.exists_of_mem b' hb'
      obtain ⟨m, hm, hctor, htext⟩ := halike.constructors m' hm' hctor
      rw [halike.kind, ← htext]
      exact hnode.constructors b hb m hm hctor
    · obtain ⟨s, hs, halike⟩ := h.exists_of_mem s' hs'
      exact halike.conforming (hchildren s hs)

/-! ## Changes of children -/

/-- No constructors stand in the children of a conforming node, unless it is a type. -/
theorem kind_ne_of_conforms (hkind : demanding t.kind = false) (h : t.Conforms) :
    ∀ b ∈ t.children, ∀ m ∈ b.children, m.kind ≠ .ctorIdent := by
  intro b hb m hm hctor
  obtain ⟨-, htype, -⟩ := h.constructors b hb m hm hctor
  simp [demanding, htype] at hkind

/-- A node that has to have nothing may lose children, and gain some without children. -/
theorem Alike.of_subset (hkind : demanding t.kind = false)
    (h : ∀ m ∈ ts', m ∈ t.children ∨ demanding m.kind = false ∧ m.children = []) :
    Alike t (t.withChildren ts') where
  kind := rfl
  text := fun _ => rfl
  constructors := by
    intro m hm hctor
    rcases h m hm with hmem | ⟨hdemanding, -⟩
    · exact ⟨m, hmem, hctor, rfl⟩
    · rw [hctor] at hdemanding
      cases hdemanding
  conforming := by
    intro hconforming
    obtain ⟨hnode, hchildren⟩ := conforming_iff.mp hconforming
    refine conforming_iff.mpr ⟨conforms_of_not_demanding hkind fun b hb => ?_, fun m hm => ?_⟩
    · rcases h b hb with hmem | ⟨-, hnil⟩
      · exact kind_ne_of_conforms hkind hnode b hmem
      · simp [hnil]
    · rcases h m hm with hmem | ⟨hdemanding, hnil⟩
      · exact hchildren m hmem
      · exact (Tree.inert_of_not_demanding hdemanding (by simp [hnil])).conforming

/-- How a type is spelled does not matter. -/
theorem alike_spelled (ht : t.kind = .type) (text : String) : Alike t { t with text } where
  kind := rfl
  text := fun hne => absurd ht hne
  constructors := fun m hm hctor => ⟨m, hm, hctor, rfl⟩
  conforming := by
    intro hconforming
    obtain ⟨hnode, hchildren⟩ := conforming_iff.mp hconforming
    have hkind : demanding t.kind = false := by
      rw [ht]
      rfl
    have hctor : ∀ b ∈ t.children, ∀ m ∈ b.children, m.kind ≠ .ctorIdent :=
      kind_ne_of_conforms hkind hnode
    exact conforming_iff.mpr ⟨conforms_of_not_demanding hkind hctor, hchildren⟩

/-- Neither the markers that modifiers gain nor the one that they lose are asked for. -/
theorem Remarked.alike {keepsPublic : Bool} (ht : t.kind = .modifiers)
    (h : Remarked keepsPublic t t') : Alike t t' := by
  obtain ⟨gained, hgained, rfl⟩ := h
  refine .of_subset (by rw [ht]; rfl) fun m hm => ?_
  rcases List.mem_append.mp hm with hm | hm
  · right
    rcases hgained with rfl | rfl | rfl
    · cases hm
    · rw [List.mem_singleton.mp hm]
      exact ⟨rfl, rfl⟩
    · rw [List.mem_singleton.mp hm]
      exact ⟨rfl, rfl⟩
  · exact .inl (List.mem_of_mem_filter hm)

theorem FirstChanged.alikeAll {change : Tree NodeKind → Tree NodeKind → Prop}
    (hchange : ∀ {t t'}, t.kind = kind → change t t' → Alike t t')
    (h : FirstChanged kind change ts ts') : AlikeAll ts ts' := by
  cases h with
  | absent h => exact .refl ts
  | present hfront hkind h => exact .at_place _ _ (hchange hkind h)

theorem DimensionsMoved.alikeAll (h : DimensionsMoved ts ts') : AlikeAll ts ts' := by
  cases h with
  | absent h => exact .refl ts
  | @present before after front back dims type hbefore hdims hrest hfront htype =>
    have hdropped : AlikeAll (before ++ dims :: after) (before ++ after) :=
      (AlikeAll.drop hdims (.refl after)).append_left before
    rw [hrest] at hdropped
    exact hdropped.trans (.at_place front back (alike_spelled htype _))

theorem ChildrenChanged.alike {change : List (Tree NodeKind) → List (Tree NodeKind) → Prop}
    (hchange : ∀ {ts ts'}, change ts ts' → AlikeAll ts ts') (h : ChildrenChanged change t t') :
    Alike t t' := by
  obtain ⟨ts', rfl, h⟩ := h
  exact .of_children (hchange h)

theorem ParametersMoved.alikeAll (h : ParametersMoved ts ts') : AlikeAll ts ts' := by
  refine FirstChanged.alikeAll (fun _ hlist => hlist.alike fun hmoved => ?_) h
  exact .of_forall₂ (hmoved.imp fun _ _ => ChildrenChanged.alike DimensionsMoved.alikeAll)

/-! ## Changes of declarations -/

mutual

/-- A declaration with its access is alike. -/
theorem Rewritten.alike : {t t' : Tree NodeKind} → Rewritten t t' → Alike t t'
  | _, _, .typeDef _ hbody hlist =>
    .of_children (hbody.alikeAll.trans (hlist.alikeAll Remarked.alike))
  | _, _, .field _ hdims hlist =>
    .of_children (hdims.alikeAll.trans (hlist.alikeAll Remarked.alike))
  | _, _, .method _ hdims hparameters hlist =>
    .of_children (hdims.alikeAll.trans
      ((ParametersMoved.alikeAll hparameters).trans (hlist.alikeAll Remarked.alike)))
  | _, _, .constructor _ hparameters hlist =>
    .of_children ((ParametersMoved.alikeAll hparameters).trans (hlist.alikeAll Remarked.alike))
  | _, _, .enumConstant _ hbody => .of_children hbody.alikeAll
  | t, _, .kept _ => .refl t

theorem BodyRewritten.alikeAll : {ts ts' : List (Tree NodeKind)} → BodyRewritten ts ts' →
    AlikeAll ts ts'
  | ts, _, .absent _ => .refl ts
  | _, _, .present _ _ h => .at_place _ _ (.of_children h.alikeAll)

theorem AllRewritten.alikeAll : {ts ts' : List (Tree NodeKind)} → AllRewritten ts ts' →
    AlikeAll ts ts'
  | _, _, .nil => .nil
  | _, _, .cons head tail => .cons head.alike tail.alikeAll

end

end Access

/-! ## Files -/

/-- Does a node of the kind stand at the top of a file? A Groovy file may be a script. -/
def Language.isTopKind (language : Language) (kind : NodeKind) : Bool :=
  kind = .packageDef || kind = .importDef || kind = .staticImport || kind.isTypeDef ||
    (language = .groovy &&
      (kind = .methodDef || kind = .annotationFieldDef || kind = .statement))

theorem isTopKind_of_topOf (language : Language) {t : Tree NodeKind}
    {B : String → Tree NodeKind → Prop} (h : Grammar.groovy.TopOf B t) :
    language.isTopKind t.kind = true := by
  rcases h with h | h | h | h
  · rw [h.1]
    rfl
  · rw [h.1]
    rfl
  · rw [h.1]
    rfl
  · simp [Language.isTopKind, Grammar.isTypeDef_of_isTypeKind h.1]

theorem Groovy.isTopKind_of_isTop {t : Tree NodeKind} {B : String → Tree NodeKind → Prop}
    (h : IsTop B t) : Language.groovy.isTopKind t.kind = true := by
  rcases h with h | ⟨h | h, -⟩ | ⟨h, -⟩
  · exact isTopKind_of_topOf .groovy h
  · rw [h]
    rfl
  · rw [h]
    rfl
  · rw [h]
    rfl

theorem conforming_parse {language : Language} {source : String} {t : Tree NodeKind}
    (h : language.parse source = .ok t) :
    t.kind = .compilationUnit ∧ (∀ s ∈ t.children, language.isTopKind s.kind = true) ∧
      t.Conforming := by
  cases language with
  | groovy =>
    obtain ⟨hkind, htop, hconforming⟩ := Groovy.conforming_parse h
    exact ⟨hkind, fun s hs => Groovy.isTopKind_of_isTop (htop s hs), hconforming⟩
  | java =>
    obtain ⟨file, hfile, h⟩ := Access.bind_ok.mp h
    obtain ⟨tree, htree, h⟩ := Access.bind_ok.mp h
    -- A Java tree conforms once its kinds are renamed; giving access keeps kinds and children.
    rw [TagTable.normalize_java] at htree
    cases htree
    obtain ⟨hkind, htop, hconforming⟩ := Java.conforming_parse hfile
    have hroot : file.normalized.kind = .compilationUnit := Tree.kind_normalized_eq hkind
    simp only [Tree.withGroovyAccess, hroot] at h
    obtain ⟨ts', hrun, heq⟩ := Access.bind_ok.mp h
    cases heq
    have halike : Access.Alike file.normalized (file.normalized.withChildren ts') :=
      .of_children (Access.allRewritten_declarations _ hrun).alikeAll
    refine ⟨hroot, fun s hs => ?_, halike.conforming hconforming⟩
    -- The kinds at the top are those of the file, one by one.
    have hmem : s.kind ∈ file.normalized.children.map Tree.kind :=
      Access.kinds_declarations hrun ▸ List.mem_map_of_mem hs
    obtain ⟨n, hn, hsame⟩ := List.mem_map.mp hmem
    rw [← hsame]
    exact isTopKind_of_topOf .java (htop n hn)

/-- In a conforming tree, a constructor has its place in the body of the type it is named for. -/
theorem Tree.exists_typeDef_of_constructor {t n : Tree NodeKind} (h : t.Conforming)
    (hroot : t.kind ≠ .ctorIdent) (htop : ∀ s ∈ t.children, s.kind ≠ .ctorIdent)
    (hn : n ∈ t.preorder) (hctor : n.kind = .ctorIdent) :
    ∃ type ∈ t.preorder, type.kind.isTypeDef = true ∧ type.text = n.text ∧
      ∃ body ∈ type.children, body.kind = .objBlock ∧ n ∈ body.children := by
  rcases mem_preorder_cases t hn with rfl | hn | ⟨type, htype, body, hbody, hn⟩
  · exact absurd hctor hroot
  · exact absurd hctor (htop n hn)
  · obtain ⟨hblock, hkind, hname⟩ := (h type htype).constructors body hbody n hn hctor
    exact ⟨type, htype, hkind, hname, body, hbody, hblock, hn⟩

/-- What is read from a source of either language has the shape that documents are assembled from.
The root is a file with a package clause, imports and types, and in Groovy also methods, annotation
elements and statements. Every type has a name, modifiers, a body, and each clause at most once;
every field and parameter has modifiers, a type and at most one value; every method has modifiers, a
type and parameters; and every constructor has modifiers and parameters, no type, and its place in
the body of a type that it is named for. -/
theorem parse_conforming {language : Language} {source : String} {t : Tree NodeKind}
    (h : language.parse source = .ok t) :
    t.kind = .compilationUnit ∧ (∀ s ∈ t.children, language.isTopKind s.kind = true) ∧
      (∀ n ∈ t.preorder, n.Conforms) ∧
      ∀ n ∈ t.preorder, n.kind = .ctorIdent →
        ∃ type ∈ t.preorder, type.kind.isTypeDef = true ∧ type.text = n.text ∧
          ∃ body ∈ type.children, body.kind = .objBlock ∧ n ∈ body.children := by
  obtain ⟨hkind, htop, hconforming⟩ := conforming_parse h
  refine ⟨hkind, htop, hconforming, fun n hn hctor => ?_⟩
  refine t.exists_typeDef_of_constructor hconforming (by simp [hkind]) (fun s hs hk => ?_) hn hctor
  have hfalse := htop s hs
  rw [hk] at hfalse
  simp [Language.isTopKind, NodeKind.isTypeDef] at hfalse

/-- A class with dimensions behind names, a constructor and an enum constant with a body. -/
def crowdedClass : String :=
  "class A \x7b int x[]; A(int z[]) \x7b\x7d enum E \x7b P \x7b void m(); \x7d \x7d \x7d"

/-- A script with a statement, a method and a trait. -/
def crowdedScript : String :=
  "a b\ndef m(c = 2) \x7b\x7d\ntrait T \x7b T(d) \x7b\x7d; def x, y = 3 \x7d"

theorem parse_conforming_crowded :
    (∃ t, Language.java.parse crowdedClass = .ok t ∧ t.kind = .compilationUnit ∧
      (∀ s ∈ t.children, Language.java.isTopKind s.kind = true) ∧
      (∀ n ∈ t.preorder, n.Conforms) ∧
      ∀ n ∈ t.preorder, n.kind = .ctorIdent →
        ∃ type ∈ t.preorder, type.kind.isTypeDef = true ∧ type.text = n.text ∧
          ∃ body ∈ type.children, body.kind = .objBlock ∧ n ∈ body.children) ∧
    ∃ t, Language.groovy.parse crowdedScript = .ok t ∧ t.kind = .compilationUnit ∧
      (∀ s ∈ t.children, Language.groovy.isTopKind s.kind = true) ∧
      (∀ n ∈ t.preorder, n.Conforms) ∧
      ∀ n ∈ t.preorder, n.kind = .ctorIdent →
        ∃ type ∈ t.preorder, type.kind.isTypeDef = true ∧ type.text = n.text ∧
          ∃ body ∈ type.children, body.kind = .objBlock ∧ n ∈ body.children := by
  obtain ⟨file, hclass⟩ := exists_eq_ok
    (show (Language.java.parse crowdedClass).toOption.isSome = true by decide +kernel)
  obtain ⟨script, hscript⟩ := exists_eq_ok
    (show (Language.groovy.parse crowdedScript).toOption.isSome = true by decide +kernel)
  exact ⟨⟨file, hclass, parse_conforming hclass⟩, script, hscript, parse_conforming hscript⟩

end ApiDoc.Syntax
