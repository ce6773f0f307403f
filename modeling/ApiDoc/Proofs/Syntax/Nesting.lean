import ApiDoc.Proofs.Syntax.Members
import ApiDoc.Proofs.Syntax.Tree

/-!
# How deep bodies nest

`Tree.Nests` bounds the nodes of a kind on the way from the root of a tree to any of its nodes. A
body adds one to what the declarations in it have, whether it is that of a type or that of an enum
constant, and no other part of a declaration has a body. So where bodies are read at most `levels`
inside each other, a tree has no more than that on any path (`Grammar.Distinct.bounded_bodyOf`), and
the tree of a file has at most `maxNesting`.
-/

namespace ApiDoc.Syntax

/-! ## Paths -/

namespace Tree

variable {κ : Type}

/-- The nodes on the way from the root of a tree down to one of its nodes. -/
inductive Path : Tree κ → List (Tree κ) → Prop
  | root (t : Tree κ) : Path t [t]
  | child {t s : Tree κ} {ns : List (Tree κ)} (hs : s ∈ t.children) (h : Path s ns) :
      Path t (t :: ns)

variable [DecidableEq κ] {kind : κ} {n : Nat} {t : Tree κ}

/-- No path from the root has more than `n` nodes of the kind. -/
def Nests (kind : κ) (n : Nat) (t : Tree κ) : Prop :=
  ∀ ns, t.Path ns → ns.countP (fun s => s.kind = kind) ≤ n

theorem Nests.of_children (hkind : t.kind ≠ kind) (h : ∀ s ∈ t.children, s.Nests kind n) :
    t.Nests kind n := by
  intro ns hpath
  cases hpath with
  | root => simp [hkind]
  | child hs hpath =>
    rw [List.countP_cons, if_neg (by simpa using hkind), Nat.add_zero]
    exact h _ hs _ hpath

/-- The root adds one at most. -/
theorem Nests.succ (h : ∀ s ∈ t.children, s.Nests kind n) : t.Nests kind (n + 1) := by
  intro ns hpath
  cases hpath with
  | root =>
    have hle := List.countP_le_length (p := fun s : Tree κ => decide (s.kind = kind)) (l := [t])
    simp only [List.length_singleton] at hle
    omega
  | child hs hpath =>
    have hbelow := h _ hs _ hpath
    rw [List.countP_cons]
    split <;> omega

end Tree

/-! ## Declarations -/

namespace Grammar

open ApiDoc.Syntax.Parser

variable {κ : Type} [DecidableEq κ] {g : Grammar κ}

variable (g) in
/-- Nothing but a body has the tag of a body. -/
structure Distinct : Prop where
  kind_ne : ∀ kind, kind ≠ .objBlock → g.kind kind ≠ g.kind .objBlock
  not_isTypeKind : ¬g.IsTypeKind (g.kind .objBlock)

variable (g) in
/-- At most `n` bodies stand inside each other in a tree. -/
def Bounded (n : Nat) (t : Tree κ) : Prop := t.Nests (g.kind .objBlock) n

variable {n : Nat} {t : Tree κ} {ts : List (Tree κ)}

namespace Distinct

variable (hg : g.Distinct)
include hg

theorem bounded {kind : JavaKind} (h : t.kind = g.kind kind) (hne : kind ≠ .objBlock)
    (hchildren : ∀ s ∈ t.children, g.Bounded n s) : g.Bounded n t :=
  .of_children (h ▸ hg.kind_ne kind hne) hchildren

theorem bounded_either {kind other : JavaKind} (h : t.kind = g.kind kind ∨ t.kind = g.kind other)
    (hkind : kind ≠ .objBlock) (hother : other ≠ .objBlock)
    (hchildren : ∀ s ∈ t.children, g.Bounded n s) : g.Bounded n t :=
  h.elim (hg.bounded · hkind hchildren) (hg.bounded · hother hchildren)

/-! ### Parts without bodies -/

theorem bounded_leaf {kind : JavaKind} (hne : kind ≠ .objBlock) (h : g.IsLeaf kind t) :
    g.Bounded n t :=
  hg.bounded h.1 hne (by simp [h.2])

theorem bounded_listOf {kind item : JavaKind} (hkind : kind ≠ .objBlock) (hitem : item ≠ .objBlock)
    (h : g.IsListOf kind item t) : g.Bounded n t :=
  hg.bounded h.1 hkind fun s hs => hg.bounded_leaf hitem (h.2 s hs)

theorem bounded_annotationMark (h : g.IsAnnotationMark t) : g.Bounded n t :=
  hg.bounded h.1 (by decide) (h.2.forall_mem fun _ => hg.bounded_leaf (by decide))

theorem bounded_modifiers (h : g.IsModifiers t) : g.Bounded n t :=
  hg.bounded h.1 (by decide) fun m hm =>
    (h.2 m hm).elim (hg.bounded_leaf (by decide)) hg.bounded_annotationMark

theorem bounded_of_isDeclarator (h : g.IsDeclarator ts) : ∀ s ∈ ts, g.Bounded n s := by
  obtain ⟨modifiers, type, dims, value, rfl, hmodifiers, htype, hdims, hvalue⟩ := h
  have hm : g.Bounded n modifiers := hg.bounded_modifiers hmodifiers
  have ht : g.Bounded n type := hg.bounded_leaf (by decide) htype
  have hd : ∀ s ∈ dims, g.Bounded n s := hdims.forall_mem fun _ => hg.bounded_leaf (by decide)
  have hv : ∀ s ∈ value, g.Bounded n s := hvalue.forall_mem fun _ => hg.bounded_leaf (by decide)
  simpa [or_imp, forall_and] using ⟨hm, ht, hd, hv⟩

theorem bounded_parameter (h : g.IsParameter t) : g.Bounded n t :=
  hg.bounded_either h.1 (by decide) (by decide) (hg.bounded_of_isDeclarator h.2)

theorem bounded_of_isMethodRest (h : g.IsMethodRest ts) : ∀ s ∈ ts, g.Bounded n s := by
  obtain ⟨parameters, dims, throws, last, rfl, hparameters, hdims, hthrows, hlast⟩ := h
  have hp : g.Bounded n parameters :=
    hg.bounded hparameters.1 (by decide) fun p hp => hg.bounded_parameter (hparameters.2 p hp)
  have hd : ∀ s ∈ dims, g.Bounded n s := hdims.forall_mem fun _ => hg.bounded_leaf (by decide)
  have ht : ∀ s ∈ throws, g.Bounded n s :=
    hthrows.forall_mem fun _ => hg.bounded_listOf (by decide) (by decide)
  have hl : ∀ s ∈ last, g.Bounded n s := hlast.forall_mem fun _ h =>
    h.elim (hg.bounded_leaf (by decide)) (hg.bounded_leaf (by decide))
  simpa [or_imp, forall_and] using ⟨hp, hd, ht, hl⟩

theorem bounded_parameters (h : AtMostOne (g.IsListOf .typeParameters .typeParameter) ts) :
    ∀ s ∈ ts, g.Bounded n s :=
  h.forall_mem fun _ => hg.bounded_listOf (by decide) (by decide)

/-! ### Members -/

theorem bounded_method (h : g.IsMethod t) : g.Bounded n t := by
  obtain ⟨hkind, modifiers, parameters, type, rest, hchildren, hmodifiers, hlist, htype, hrest⟩ := h
  have hparts : ∀ s ∈ t.children, g.Bounded n s := by
    have hm : g.Bounded n modifiers := hg.bounded_modifiers hmodifiers
    have ht : g.Bounded n type := hg.bounded_leaf (by decide) htype
    simpa [hchildren, or_imp, forall_and] using
      ⟨hm, hg.bounded_parameters hlist, ht, hg.bounded_of_isMethodRest hrest⟩
  exact hg.bounded_either hkind (by decide) (by decide) hparts

theorem bounded_constructor (h : g.IsConstructor t) : g.Bounded n t := by
  obtain ⟨hkind, modifiers, parameters, rest, hchildren, hmodifiers, hlist, hrest⟩ := h
  have hparts : ∀ s ∈ t.children, g.Bounded n s := by
    have hm : g.Bounded n modifiers := hg.bounded_modifiers hmodifiers
    simpa [hchildren, or_imp, forall_and] using
      ⟨hm, hg.bounded_parameters hlist, hg.bounded_of_isMethodRest hrest⟩
  exact hg.bounded_either hkind (by decide) (by decide) hparts

theorem bounded_initializer (h : g.IsInitializer t) : g.Bounded n t := by
  obtain ⟨hkind, body, hbody, hchildren⟩ := h
  have hparts : ∀ s ∈ t.children, g.Bounded n s := by
    rw [hchildren]
    exact List.forall_mem_singleton.mpr (hg.bounded_leaf (by decide) hbody)
  exact hg.bounded_either hkind (by decide) (by decide) hparts

/-- An enum constant nests its body and nothing more. -/
theorem bounded_constant (h : g.IsConstant (fun _ => g.Bounded n) t) : g.Bounded n t := by
  obtain ⟨hkind, annotations, arguments, body, hchildren, hannotations, harguments, hbody⟩ := h
  refine hg.bounded hkind (by decide) ?_
  have hmarks : ∀ s ∈ annotations, g.Bounded n s := fun a ha =>
    hg.bounded_annotationMark (hannotations a ha)
  have hvalues : ∀ s ∈ arguments, g.Bounded n s :=
    harguments.forall_mem fun _ => hg.bounded_leaf (by decide)
  have hbodies : ∀ s ∈ body, g.Bounded n s := hbody.forall_mem fun _ h => h
  simpa [hchildren, or_imp, forall_and] using ⟨hmarks, hvalues, hbodies⟩

theorem bounded_typeDef (h : g.IsTypeDef (fun _ => g.Bounded n) t) : g.Bounded n t := by
  obtain ⟨hkind, -, modifiers, parameters, extended, implemented, body, hchildren, hmodifiers,
    hparameters, hextended, himplemented, hbody⟩ := h
  have hpart : t.kind ≠ g.kind .objBlock := fun hblock => hg.not_isTypeKind (hblock ▸ hkind)
  refine .of_children hpart fun s hs => ?_
  rw [hchildren] at hs
  simp only [List.mem_append, List.mem_singleton] at hs
  rcases hs with (((rfl | hs) | hs) | hs) | rfl
  · exact hg.bounded_modifiers hmodifiers
  · exact hg.bounded_parameters hparameters s hs
  · exact hextended.forall_mem (fun _ => hg.bounded_listOf (by decide) (by decide)) s hs
  · exact himplemented.forall_mem (fun _ => hg.bounded_listOf (by decide) (by decide)) s hs
  · exact hbody

theorem bounded_member {className : Option String}
    (h : g.MemberOf (fun _ => g.Bounded n) className t) : g.Bounded n t := by
  cases h with
  | field h => exact hg.bounded h.1 (by decide) (hg.bounded_of_isDeclarator h.2)
  | method h => exact hg.bounded_method h
  | constructor _ h => exact hg.bounded_constructor h
  | initializer h => exact hg.bounded_initializer h
  | constant h => exact hg.bounded_constant h
  | typeDef h => exact hg.bounded_typeDef h

/-! ### Bodies -/

/-- Each level of nesting adds one body to a path. -/
theorem bounded_bodyOf {className : String} (h : g.BodyOf (fun _ => g.Bounded n) className t) :
    g.Bounded (n + 1) t :=
  .succ fun m hm => hg.bounded_member (h.2 m hm)

theorem bounded_topOf (h : g.TopOf (fun _ => g.Bounded n) t) : g.Bounded n t := by
  rcases h with h | h | h | h
  · exact hg.bounded_leaf (by decide) h
  · exact hg.bounded_leaf (by decide) h
  · exact hg.bounded_leaf (by decide) h
  · exact hg.bounded_typeDef h

end Distinct

theorem distinct_java : java.Distinct where
  kind_ne := fun _ hne => hne
  not_isTypeKind := by
    rintro (h | ⟨word, h⟩)
    · cases h
    · unfold java at h
      dsimp only at h
      repeat' split at h
      all_goals cases h

theorem distinct_groovy : groovy.Distinct where
  kind_ne := fun _ hne => JavaKind.normalized_injective.ne hne
  not_isTypeKind := by
    rintro (h | ⟨word, h⟩)
    · cases h
    · unfold groovy at h
      dsimp only at h
      repeat' split at h
      all_goals cases h

end Grammar

/-! ## Files -/

open ApiDoc.Syntax.Grammar

variable {source : String}

theorem Java.bounded_parse {t : Tree JavaKind} (h : parse source = .ok t) :
    java.Bounded maxNesting t := by
  obtain ⟨hkind, htop⟩ := topOf_parse (B := fun levels _ => java.Bounded levels)
    (fun _ _ _ => distinct_java.bounded_bodyOf) h
  have hroot : t.kind = java.kind .compilationUnit := hkind
  refine distinct_java.bounded hroot (by decide) fun s hs => ?_
  exact distinct_java.bounded_topOf (htop s hs)

theorem Groovy.bounded_parse {t : Tree NodeKind} (h : parse source = .ok t) :
    groovy.Bounded maxNesting t := by
  obtain ⟨hkind, htop⟩ := isTop_parse (B := fun levels _ => groovy.Bounded levels)
    (fun _ _ _ => distinct_groovy.bounded_bodyOf) h
  have hroot : t.kind = groovy.kind .compilationUnit := hkind
  refine distinct_groovy.bounded hroot (by decide) fun s hs => ?_
  rcases htop s hs with hs | hs | ⟨hkind, hchildren⟩
  · exact distinct_groovy.bounded_topOf hs
  · exact distinct_groovy.bounded_method hs
  · exact .of_children (by rw [hkind]; decide) (by simp [hchildren])

end ApiDoc.Syntax
