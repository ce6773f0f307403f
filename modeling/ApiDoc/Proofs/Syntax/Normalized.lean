import ApiDoc.Proofs.Syntax.Members
import ApiDoc.Proofs.Syntax.Tree

/-!
# Java trees in the normalized vocabulary

A Java tree keeps its shape and its names when it is carried over to the normalized vocabulary,
where it has the shape of a Groovy tree: `MemberOf.normalized`, `TopOf.normalized`.
-/

namespace ApiDoc.Syntax

theorem AtMostOne.normalized {P : Tree JavaKind → Prop} {Q : Tree NodeKind → Prop}
    {ts : List (Tree JavaKind)} (h : AtMostOne P ts) (hPQ : ∀ t, P t → Q t.normalized) :
    AtMostOne Q (ts.map Tree.normalized) := by
  rcases h with rfl | ⟨t, ht, rfl⟩
  · exact .inl rfl
  · exact .inr ⟨t.normalized, hPQ t ht, rfl⟩

namespace Grammar

variable {t : Tree JavaKind} {ts : List (Tree JavaKind)} {className : Option String}

theorem IsLeaf.normalized {kind : JavaKind} (h : java.IsLeaf kind t) :
    groovy.IsLeaf kind t.normalized := by
  refine ⟨Tree.kind_normalized_eq h.1, ?_⟩
  rw [Tree.children_normalized, h.2]
  rfl

theorem forall_mem_normalized {P : Tree JavaKind → Prop} {Q : Tree NodeKind → Prop}
    (h : ∀ s ∈ ts, P s) (hPQ : ∀ s, P s → Q s.normalized) : ∀ s ∈ ts.map Tree.normalized, Q s := by
  simpa using fun s hs => hPQ s (h s hs)

theorem IsAnnotationMark.normalized (h : java.IsAnnotationMark t) :
    groovy.IsAnnotationMark t.normalized := by
  refine ⟨Tree.kind_normalized_eq h.1, ?_⟩
  rw [Tree.children_normalized]
  exact h.2.normalized fun _ => IsLeaf.normalized

theorem IsModifiers.normalized (h : java.IsModifiers t) : groovy.IsModifiers t.normalized := by
  refine ⟨Tree.kind_normalized_eq h.1, ?_⟩
  rw [Tree.children_normalized]
  exact forall_mem_normalized h.2 fun _ => Or.imp IsLeaf.normalized IsAnnotationMark.normalized

theorem IsListOf.normalized {kind item : JavaKind} (h : java.IsListOf kind item t) :
    groovy.IsListOf kind item t.normalized := by
  refine ⟨Tree.kind_normalized_eq h.1, ?_⟩
  rw [Tree.children_normalized]
  exact forall_mem_normalized h.2 fun _ => IsLeaf.normalized

theorem IsDeclarator.normalized (h : java.IsDeclarator ts) :
    groovy.IsDeclarator (ts.map Tree.normalized) := by
  obtain ⟨modifiers, type, dims, value, rfl, hmodifiers, htype, hdims, hvalue⟩ := h
  exact ⟨modifiers.normalized, type.normalized, dims.map Tree.normalized,
    value.map Tree.normalized, by simp, hmodifiers.normalized, htype.normalized,
    hdims.normalized fun _ => IsLeaf.normalized, hvalue.normalized fun _ => IsLeaf.normalized⟩

theorem IsParameters.normalized (h : java.IsParameters t) : groovy.IsParameters t.normalized := by
  refine ⟨Tree.kind_normalized_eq h.1, ?_⟩
  rw [Tree.children_normalized]
  refine forall_mem_normalized h.2 fun p hp => ⟨?_, ?_⟩
  · exact hp.1.imp Tree.kind_normalized_eq Tree.kind_normalized_eq
  · rw [Tree.children_normalized]
    exact hp.2.normalized

theorem IsMethodRest.normalized (h : java.IsMethodRest ts) :
    groovy.IsMethodRest (ts.map Tree.normalized) := by
  obtain ⟨parameters, dims, throws, last, rfl, hparameters, hdims, hthrows, hlast⟩ := h
  exact ⟨parameters.normalized, dims.map Tree.normalized, throws.map Tree.normalized,
    last.map Tree.normalized, by simp, hparameters.normalized,
    hdims.normalized fun _ => IsLeaf.normalized, hthrows.normalized fun _ => IsListOf.normalized,
    hlast.normalized fun _ => Or.imp IsLeaf.normalized IsLeaf.normalized⟩

theorem isTypeKind_normalized {kind : JavaKind} (h : java.IsTypeKind kind) :
    groovy.IsTypeKind kind.normalized := by
  rcases h with rfl | ⟨word, rfl⟩
  · exact .inl rfl
  · unfold java
    dsimp only
    split
    · exact .inr ⟨"class", rfl⟩
    · split
      · exact .inr ⟨"interface", rfl⟩
      · exact .inr ⟨"enum", rfl⟩

theorem isTypeDef_of_isTypeKind {kind : NodeKind} (h : groovy.IsTypeKind kind) :
    kind.isTypeDef = true := by
  rcases h with rfl | ⟨word, rfl⟩
  · rfl
  · unfold groovy
    dsimp only
    repeat' split
    all_goals rfl

theorem IsField.normalized (h : java.IsField t) : groovy.IsField t.normalized := by
  refine ⟨Tree.kind_normalized_eq h.1, ?_⟩
  rw [Tree.children_normalized]
  exact h.2.normalized

theorem IsMethod.normalized (h : java.IsMethod t) : groovy.IsMethod t.normalized := by
  obtain ⟨hkind, modifiers, parameters, type, rest, hchildren, hmodifiers, hlist, htype, hrest⟩ := h
  refine ⟨hkind.imp Tree.kind_normalized_eq Tree.kind_normalized_eq, modifiers.normalized,
    parameters.map Tree.normalized, type.normalized, rest.map Tree.normalized, ?_,
    hmodifiers.normalized, hlist.normalized fun _ => IsListOf.normalized, htype.normalized,
    hrest.normalized⟩
  simp [Tree.children_normalized, hchildren]

theorem IsConstructor.normalized (h : java.IsConstructor t) :
    groovy.IsConstructor t.normalized := by
  obtain ⟨hkind, modifiers, parameters, rest, hchildren, hmodifiers, hlist, hrest⟩ := h
  refine ⟨hkind.imp Tree.kind_normalized_eq Tree.kind_normalized_eq, modifiers.normalized,
    parameters.map Tree.normalized, rest.map Tree.normalized, ?_, hmodifiers.normalized,
    hlist.normalized fun _ => IsListOf.normalized, hrest.normalized⟩
  simp [Tree.children_normalized, hchildren]

theorem IsInitializer.normalized (h : java.IsInitializer t) :
    groovy.IsInitializer t.normalized := by
  obtain ⟨hkind, body, hbody, hchildren⟩ := h
  refine ⟨hkind.imp Tree.kind_normalized_eq Tree.kind_normalized_eq, body.normalized,
    hbody.normalized, ?_⟩
  simp [Tree.children_normalized, hchildren]

section

variable {B : String → Tree JavaKind → Prop} {B' : String → Tree NodeKind → Prop}
  (hB : ∀ name b, B name b → B' name b.normalized)
include hB

theorem IsConstant.normalized (h : java.IsConstant B t) : groovy.IsConstant B' t.normalized := by
  obtain ⟨hkind, annotations, arguments, body, hchildren, hannotations, harguments, hbody⟩ := h
  refine ⟨Tree.kind_normalized_eq hkind, annotations.map Tree.normalized,
    arguments.map Tree.normalized, body.map Tree.normalized, ?_,
    forall_mem_normalized hannotations fun _ => IsAnnotationMark.normalized,
    harguments.normalized fun _ => IsLeaf.normalized, hbody.normalized (hB "")⟩
  simp [Tree.children_normalized, hchildren]

theorem IsTypeDef.normalized (h : java.IsTypeDef B t) : groovy.IsTypeDef B' t.normalized := by
  obtain ⟨hkind, hname, modifiers, parameters, extended, implemented, body, hchildren, hmodifiers,
    hlist, hextended, himplemented, hbody⟩ := h
  rw [IsTypeDef, Tree.kind_normalized, Tree.text_normalized]
  refine ⟨isTypeKind_normalized hkind, hname, modifiers.normalized, parameters.map Tree.normalized,
    extended.map Tree.normalized, implemented.map Tree.normalized, body.normalized, ?_,
    hmodifiers.normalized, hlist.normalized fun _ => IsListOf.normalized,
    hextended.normalized fun _ => IsListOf.normalized,
    himplemented.normalized fun _ => IsListOf.normalized, hB t.text body hbody⟩
  simp [Tree.children_normalized, hchildren]

/-- A Java tree keeps its shape in the normalized vocabulary. -/
theorem MemberOf.normalized (h : java.MemberOf B className t) :
    groovy.MemberOf B' className t.normalized := by
  cases h with
  | field h => exact .field h.normalized
  | method h => exact .method h.normalized
  | constructor hname h =>
    have htext := t.text_normalized
    rw [← htext]
    exact .constructor (htext ▸ hname) h.normalized
  | initializer h => exact .initializer h.normalized
  | constant h => exact .constant (h.normalized hB)
  | typeDef h => exact .typeDef (h.normalized hB)

theorem TopOf.normalized (h : java.TopOf B t) : groovy.TopOf B' t.normalized := by
  rcases h with h | h | h | h
  · exact .inl h.normalized
  · exact .inr (.inl h.normalized)
  · exact .inr (.inr (.inl h.normalized))
  · exact .inr (.inr (.inr (h.normalized hB)))

end

end Grammar

end ApiDoc.Syntax
