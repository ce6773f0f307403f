import ApiDoc.Proofs.Doc.Declared
import ApiDoc.Proofs.Doc.Name
import ApiDoc.Proofs.Syntax.Conformance

/-!
# Nested types in the documents of a file

A document that names an outer type is enclosed by a document of that name, and a nested name
belongs to a document of its own: the documents that a file declares are linked both ways
(`FileContext.nesting_declared`). That takes names without dots, as those of a conforming tree are.
-/

namespace ApiDoc

open Syntax (NodeKind)

/-! ### Links between documents -/

namespace ClassDoc

/-- The second document is that of a type in the body of the first one's type. -/
structure Encloses (e d : ClassDoc) : Prop where
  packagePath : d.packagePath = e.packagePath
  outer : d.outer = some e.name
  name : d.name = e.name ++ "." ++ d.simpleName
  simpleName_mem : d.simpleName ∈ e.nested

/-- Every outer type and every nested type that a document names has its own document. -/
structure Nesting (docs : List ClassDoc) : Prop where
  exists_outer : ∀ d ∈ docs, d.outer.isSome → ∃ e ∈ docs, e.Encloses d
  exists_nested : ∀ e ∈ docs, ∀ n ∈ e.nested, ∃ d ∈ docs, e.Encloses d ∧ d.simpleName = n

namespace Nesting

theorem nil : Nesting [] where
  exists_outer := by simp
  exists_nested := by simp

/-- The file that a document is from is no part of a link. -/
theorem map_sourceFile {docs : List ClassDoc} (h : Nesting docs) (file : String) :
    Nesting (docs.map fun d => { d with sourceFile := file }) := by
  constructor
  · intro d hd houter
    obtain ⟨d', hd', rfl⟩ := List.mem_map.mp hd
    obtain ⟨e, he, hencloses⟩ := h.exists_outer d' hd' houter
    exact ⟨_, List.mem_map_of_mem he, { hencloses with }⟩
  · intro e he n hn
    obtain ⟨e', he', rfl⟩ := List.mem_map.mp he
    obtain ⟨d, hd, hencloses, hsimple⟩ := h.exists_nested e' he' n hn
    exact ⟨_, List.mem_map_of_mem hd, { hencloses with }, hsimple⟩

/-- Lists that are linked each in itself are so behind each other. -/
theorem flatMap {α : Type} {xs : List α} {f : α → List ClassDoc} (h : ∀ x ∈ xs, Nesting (f x)) :
    Nesting (xs.flatMap f) := by
  constructor
  · intro d hd houter
    obtain ⟨x, hx, hd⟩ := List.mem_flatMap.mp hd
    obtain ⟨e, he, hencloses⟩ := (h x hx).exists_outer d hd houter
    exact ⟨e, List.mem_flatMap.mpr ⟨x, hx, he⟩, hencloses⟩
  · intro e he n hn
    obtain ⟨x, hx, he⟩ := List.mem_flatMap.mp he
    obtain ⟨d, hd, hencloses⟩ := (h x hx).exists_nested e he n hn
    exact ⟨d, List.mem_flatMap.mpr ⟨x, hx, hd⟩, hencloses⟩

end Nesting

end ClassDoc

/-! ### Links between the documents of a file -/

namespace FileContext

variable {ctx : FileContext} {outer : Option String} {ts : List (Syntax.Tree NodeKind)}
  {d e : ClassDoc}

/-- The members of a conforming type conform. -/
theorem conforming_of_mem_membersOf {t s : Syntax.Tree NodeKind} (h : t.Conforming)
    (hs : s ∈ membersOf t) : s.Conforming := by
  unfold membersOf at hs
  split at hs
  · cases hs
  · next body hbody =>
    have hconforming := (Syntax.Tree.conforming_iff.mp h).2 body (List.mem_of_find?_eq_some hbody)
    exact (Syntax.Tree.conforming_iff.mp hconforming).2 s hs

/-- A type encloses the types among its members. -/
theorem encloses_of_mem_membersOf {t s : Syntax.Tree NodeKind} (hs : s ∈ membersOf t)
    (hkind : s.kind.isTypeDef = true) (hconforming : s.Conforming) :
    (ctx.classDoc outer t).Encloses (ctx.classDoc (some (nestedName outer t.text)) s) ∧
      (ctx.classDoc (some (nestedName outer t.text)) s).simpleName = s.text := by
  have hdot : '.' ∉ s.text.toList :=
    ((Syntax.Tree.conforming_iff.mp hconforming).1.typeDef hkind).2.1
  have hsimple : (ctx.classDoc (some (nestedName outer t.text)) s).simpleName = s.text :=
    lastSegment_append _ hdot
  refine ⟨⟨rfl, rfl, ?_, ?_⟩, hsimple⟩
  · rw [hsimple]
    rfl
  · rw [hsimple]
    exact List.mem_map_of_mem (List.mem_filter.mpr ⟨hs, hkind⟩)

/-- A document is that of a type in the list, or another one encloses it. -/
theorem Lists.exists_outer (h : ctx.Lists outer ts d) (hts : ∀ t ∈ ts, t.Conforming) :
    (∃ t ∈ ts, t.kind.isTypeDef = true ∧ d = ctx.classDoc outer t) ∨
      ∃ e, ctx.Lists outer ts e ∧ e.Encloses d := by
  induction h with
  | direct ht hkind => exact .inl ⟨_, ht, hkind, rfl⟩
  | inside ht hkind _ ih =>
    have hmembers := fun s hs => conforming_of_mem_membersOf (s := s) (hts _ ht) hs
    refine .inr ?_
    rcases ih hmembers with ⟨s, hs, hskind, rfl⟩ | ⟨e, he, hencloses⟩
    · exact ⟨_, .direct ht hkind, (encloses_of_mem_membersOf hs hskind (hmembers s hs)).1⟩
    · exact ⟨e, .inside ht hkind he, hencloses⟩

/-- A nested name of a document is that of a document which it encloses. -/
theorem Lists.exists_nested (h : ctx.Lists outer ts e) (hts : ∀ t ∈ ts, t.Conforming) {n : String}
    (hn : n ∈ e.nested) : ∃ d, ctx.Lists outer ts d ∧ e.Encloses d ∧ d.simpleName = n := by
  induction h with
  | direct ht hkind =>
    obtain ⟨s, hs, rfl⟩ := List.mem_map.mp hn
    obtain ⟨hs, hskind⟩ := List.mem_filter.mp hs
    exact ⟨_, .inside ht hkind (.direct hs hskind),
      encloses_of_mem_membersOf hs hskind (conforming_of_mem_membersOf (hts _ ht) hs)⟩
  | inside ht hkind _ ih =>
    obtain ⟨d, hd, hencloses⟩ := ih (fun s hs => conforming_of_mem_membersOf (hts _ ht) hs) hn
    exact ⟨d, .inside ht hkind hd, hencloses⟩

/-- **The documents that a file declares are linked both ways.** -/
theorem nesting_declared {tree : Syntax.Tree NodeKind} (h : tree.Conforming) :
    ClassDoc.Nesting (ctx.declared tree) := by
  have hchildren := (Syntax.Tree.conforming_iff.mp h).2
  constructor
  · intro d hd houter
    rcases mem_declared_cases hd with hd | rfl
    · rcases (lists_of_mem hd).exists_outer hchildren with ⟨t, -, -, rfl⟩ | ⟨e, he, hencloses⟩
      · cases houter
      · exact ⟨e, mem_declared_of_mem (mem_of_lists he), hencloses⟩
    · cases houter
  · intro e he n hn
    rcases mem_declared_cases he with he | rfl
    · obtain ⟨d, hd, hencloses⟩ := (lists_of_mem he).exists_nested hchildren hn
      exact ⟨d, mem_declared_of_mem (mem_of_lists hd), hencloses⟩
    · cases hn

end FileContext

end ApiDoc
