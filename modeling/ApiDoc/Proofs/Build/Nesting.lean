import ApiDoc.Proofs.Access.Conformance
import ApiDoc.Proofs.Build.Order
import ApiDoc.Proofs.Doc.Nesting

/-!
# Nested types of a batch

The types that a file declares are linked both ways, but collisions are settled type by type: of the
types that a batch declares under one qualified name a single one stays, whatever it nests and
whatever package it is in. So a link of a class in the root leads to a class of the right qualified
name in any case, and to the right class as far as the contenders for that name agree
(`processAll_nesting`). Where they do not, a link may lead one way only (`nesting_links_broken`).
-/

namespace ApiDoc

/-- In a consistent root, a package holds its own classes under their names. -/
theorem Root.Consistent.classInPackage?_eq_some {r : Root} (h : r.Consistent) {c : ClassDoc}
    (hc : c ∈ r.classes) : r.classInPackage? c.packagePath c.name = some c := by
  obtain ⟨i, hi⟩ := List.mem_iff_getElem?.mp hc
  have hheld : r.idIn? c.packagePath c.name = some ⟨i⟩ := h.held_iff.mpr ⟨c, hi, rfl, rfl⟩
  obtain ⟨p, hp, hid⟩ := Option.bind_eq_some_iff.mp hheld
  show ((r.packages.get? c.packagePath).bind fun p => _) = some c
  rw [hp, Option.bind_some]
  show ((p.classes.get? c.name).bind fun id => _) = some c
  rw [hid, Option.bind_some, hi]

/-! ### The types that a file declares -/

namespace Content

/-- The documents of the types that a file declares, a name as often as it is declared. -/
def declared (settings : Settings) (file source : String) : List ClassDoc :=
  match FileKind.ofName file with
  | .description => []
  | .source language =>
    match language.parse source with
    | .error _ => []
    | .ok tree =>
      ((Build.fileContext settings file).declared tree).map fun d => { d with sourceFile := file }

/-- A file declares nothing, or what is in its tree. -/
theorem declared_cases (settings : Settings) (file source : String) :
    ((ofFile settings file source).documents = [] ∧ declared settings file source = []) ∨
      ∃ tree, tree.Conforming ∧
        (ofFile settings file source).documents =
          ((Build.fileContext settings file).assemble tree).values.map
            (fun d => { d with sourceFile := file }) ∧
        declared settings file source =
          ((Build.fileContext settings file).declared tree).map
            fun d => { d with sourceFile := file } := by
  unfold ofFile declared Build.classesOf
  cases FileKind.ofName file with
  | description =>
    dsimp only
    split <;> exact .inl ⟨rfl, rfl⟩
  | source language =>
    dsimp only
    cases hparse : language.parse source with
    | error e => exact .inl ⟨rfl, rfl⟩
    | ok tree =>
      exact .inr ⟨tree, (Syntax.conforming_parse hparse).2.2, NameMap.values_map _ _, rfl⟩

theorem nesting_declared (settings : Settings) (file source : String) :
    ClassDoc.Nesting (declared settings file source) := by
  rcases declared_cases settings file source with ⟨-, hnone⟩ | ⟨tree, htree, -, hdeclared⟩
  · rw [hnone]
    exact .nil
  · rw [hdeclared]
    exact (FileContext.nesting_declared htree).map_sourceFile file

theorem mem_declared_of_mem_documents {settings : Settings} {file source : String} {d : ClassDoc}
    (h : d ∈ (ofFile settings file source).documents) : d ∈ declared settings file source := by
  rcases declared_cases settings file source with ⟨hnone, -⟩ | ⟨tree, -, hdocuments, hdeclared⟩
  · rw [hnone] at h
    cases h
  · rw [hdocuments] at h
    rw [hdeclared]
    obtain ⟨d', hd', rfl⟩ := List.mem_map.mp h
    obtain ⟨entry, hentry, rfl⟩ := List.mem_map.mp hd'
    exact List.mem_map_of_mem (FileContext.mem_declared_of_mem_entries entry hentry).1

/-- One of the types that a file declares under a name is among its documents. -/
theorem exists_document {settings : Settings} {file source : String} {d : ClassDoc}
    (h : d ∈ declared settings file source) :
    ∃ e ∈ (ofFile settings file source).documents, e.qualifiedName = d.qualifiedName := by
  rcases declared_cases settings file source with ⟨-, hnone⟩ | ⟨tree, -, hdocuments, hdeclared⟩
  · rw [hnone] at h
    cases h
  · rw [hdeclared] at h
    rw [hdocuments]
    obtain ⟨d', hd', rfl⟩ := List.mem_map.mp h
    obtain ⟨e, he, hemem, hname⟩ := FileContext.exists_assembled hd'
    refine ⟨_, List.mem_map_of_mem he, ?_⟩
    show qualify e.packagePath e.name = qualify d'.packagePath d'.name
    rw [hname, FileContext.packagePath_of_mem_declared hemem,
      FileContext.packagePath_of_mem_declared hd']

end Content

/-! ### The types that a batch declares -/

namespace Build

variable (settings : Settings) (files : List (String × String))

/-- The documents of the types that the files of a batch declare. -/
def declarations : List ClassDoc :=
  files.flatMap fun f => Content.declared settings f.1 f.2

theorem nesting_declarations : ClassDoc.Nesting (declarations settings files) :=
  .flatMap fun f _ => Content.nesting_declared settings f.1 f.2

/-- The qualified name of `name` in a package is declared in that package alone. -/
def DeclaredOnlyIn (path name : String) : Prop :=
  ∀ d ∈ declarations settings files, d.qualifiedName = qualify path name → d.packagePath = path

/-- If one of the types that are declared under a qualified name nests `n`, all of them do. -/
def DeclaredAlike (q n : String) : Prop :=
  ∀ d ∈ declarations settings files, ∀ e ∈ declarations settings files,
    d.qualifiedName = q → e.qualifiedName = q → n ∈ d.nested → n ∈ e.nested

instance (path name : String) : Decidable (DeclaredOnlyIn settings files path name) :=
  inferInstanceAs (Decidable (∀ d ∈ _, _))

instance (q n : String) : Decidable (DeclaredAlike settings files q n) :=
  inferInstanceAs (Decidable (∀ d ∈ _, ∀ e ∈ _, _))

namespace Aggregates

variable {settings files} {b : Build} {c d : ClassDoc}

/-- A class of the root is one of the declared ones. -/
theorem mem_declarations (h : Aggregates settings files b) (hc : c ∈ b.root.classes) :
    c ∈ declarations settings files := by
  have hnamed : b.root.classNamed? c.qualifiedName = some c :=
    h.ready.consistent.classNamed?_eq_some_iff.mpr ⟨hc, rfl⟩
  rw [h.classNamed?_eq] at hnamed
  obtain ⟨f, hf, hdoc⟩ := List.mem_flatMap.mp (CollisionPolicy.mem_of_held hnamed).1
  exact List.mem_flatMap.mpr ⟨f, hf, Content.mem_declared_of_mem_documents hdoc⟩

/-- One of the types that are declared under a qualified name has it in the root. It is found in the
package of all of them, if they are in one package. -/
theorem exists_holder (h : Aggregates settings files b) (hd : d ∈ declarations settings files) :
    ∃ c ∈ b.root.classes, c.qualifiedName = d.qualifiedName ∧
      (DeclaredOnlyIn settings files d.packagePath d.name →
        b.root.classInPackage? d.packagePath d.name = some c) := by
  obtain ⟨f, hf, hdoc⟩ := List.mem_flatMap.mp hd
  obtain ⟨e, he, hequal⟩ := Content.exists_document hdoc
  have hsome : (settings.collisionPolicy.held (documents settings files) d.qualifiedName).isSome :=
    (CollisionPolicy.isSome_held _ _ _).mpr ⟨e, List.mem_flatMap.mpr ⟨f, hf, he⟩, hequal⟩
  rw [← h.classNamed?_eq] at hsome
  obtain ⟨c, hc⟩ := Option.isSome_iff_exists.mp hsome
  obtain ⟨hmem, hq⟩ := h.ready.consistent.classNamed?_eq_some_iff.mp hc
  refine ⟨c, hmem, hq, ?_⟩
  intro honly
  have hpath : c.packagePath = d.packagePath := honly c (h.mem_declarations hmem) hq
  have hname : c.name = d.name := by
    rw [ClassDoc.qualifiedName, ClassDoc.qualifiedName, hpath] at hq
    exact qualify_injective _ hq
  rw [← hpath, ← hname]
  exact h.ready.consistent.classInPackage?_eq_some hmem

end Aggregates

/-- A class with a nested one, and then a class of the same name without. -/
def redeclaringBatch : List (String × String) :=
  [("X.java", "class A { class B { } }"), ("Y.java", "class A { }")]

/-- Nested classes, and then a class in another package that has the qualified name of one. -/
def overlappingBatch : List (String × String) :=
  [("a/X.java", "class b { class C { class D { } } }"), ("a/b/C.java", "class C { }")]

/-- Links may lead one way only: the outer class of `A.B` has come to nest nothing, and the class
that `b` nests and that `b.C.D` is nested in is not in their package any more. -/
theorem nesting_links_broken :
    (∃ b outcomes, processAll { settings := {} } redeclaringBatch = .ok (b, outcomes) ∧
      (∃ c ∈ b.root.classes, c.packagePath = "" ∧ c.outer = some "A" ∧ c.simpleName = "B") ∧
      (b.root.classInPackage? "" "A").map ClassDoc.nested = some []) ∧
    ∃ b outcomes, processAll { settings := {} } overlappingBatch = .ok (b, outcomes) ∧
      (∃ c ∈ b.root.classes, c.packagePath = "a" ∧ c.name = "b" ∧ "C" ∈ c.nested) ∧
      (∃ c ∈ b.root.classes, c.packagePath = "a" ∧ c.outer = some "b.C") ∧
      b.root.classInPackage? "a" "b.C" = none :=
  ⟨⟨_, _, processAll_eq (ready_initial _) _, by decide +kernel⟩,
    ⟨_, _, processAll_eq (ready_initial _) _, by decide +kernel⟩⟩

/-- **Links between nested types are mutual, as far as their names are settled alike.** Whatever
files a fresh build processes under whatever policy: a class with an outer type is named for it, and
a class of the root has the qualified name of that type. It is the type of that name in the same
package, unless the name is declared in another package too, and it nests the class, unless types
with and without such a nested type are declared under the name. For a name that a class nests, a
class of the root has the qualified name of that type, and it is in the same package, unless the
name is declared in another package too. -/
theorem processAll_nesting :
    ∃ b outcomes, processAll { settings } files = .ok (b, outcomes) ∧
      ∀ c ∈ b.root.classes,
        (∀ o, c.outer = some o → c.name = o ++ "." ++ c.simpleName ∧
          ∃ e ∈ b.root.classes, e.qualifiedName = qualify c.packagePath o ∧
            (DeclaredOnlyIn settings files c.packagePath o →
              b.root.classInPackage? c.packagePath o = some e) ∧
            (DeclaredAlike settings files (qualify c.packagePath o) c.simpleName →
              c.simpleName ∈ e.nested)) ∧
        ∀ n ∈ c.nested, ∃ e ∈ b.root.classes,
          e.qualifiedName = qualify c.packagePath (c.name ++ "." ++ n) ∧
            (DeclaredOnlyIn settings files c.packagePath (c.name ++ "." ++ n) →
              b.root.classInPackage? c.packagePath (c.name ++ "." ++ n) = some e) := by
  have h := aggregates_takeInAll settings files
  have hnesting := nesting_declarations settings files
  refine ⟨_, _, processAll_eq (ready_initial settings) files, ?_⟩
  generalize (takeInAll { settings } files).1 = b at *
  intro c hc
  have hdeclared := h.mem_declarations hc
  constructor
  · intro o ho
    obtain ⟨d, hd, hencloses⟩ := hnesting.exists_outer c hdeclared (by rw [ho]; rfl)
    obtain rfl : o = d.name := Option.some.inj (ho.symm.trans hencloses.outer)
    rw [hencloses.packagePath]
    obtain ⟨e, he, hq, hin⟩ := h.exists_holder hd
    refine ⟨hencloses.name, e, he, hq, hin, ?_⟩
    -- The type that encloses the class nests it, and so does the one that came to hold the name.
    intro halike
    exact halike d hd e (h.mem_declarations he) rfl hq hencloses.simpleName_mem
  · intro n hn
    obtain ⟨d, hd, hencloses, rfl⟩ := hnesting.exists_nested c hdeclared n hn
    rw [← hencloses.name, ← hencloses.packagePath]
    exact h.exists_holder hd

/-- A class that is declared twice and nests the same class both times. -/
theorem processAll_nesting_twice :
    let files := [("X.java", "class A { class B { } }"), ("Y.java", "class A { enum B { } }")]
    DeclaredOnlyIn {} files "" "A" ∧ DeclaredAlike {} files "A" "B" ∧
      ∃ b outcomes, processAll { settings := {} } files = .ok (b, outcomes) ∧
        ∃ c ∈ b.root.classes, c.outer = some "A" ∧ c.name = "A.B" ∧
          ∃ e, b.root.classInPackage? "" "A" = some e ∧ "B" ∈ e.nested := by
  intro files
  have honly : DeclaredOnlyIn {} files "" "A" := by decide +kernel
  have halike : DeclaredAlike {} files "A" "B" := by decide +kernel
  obtain ⟨b, outcomes, hrun, hlinks⟩ := processAll_nesting {} files
  have hclass : ∃ c ∈ b.root.classes,
      c.packagePath = "" ∧ c.outer = some "A" ∧ c.simpleName = "B" := by
    have hb := hrun
    rw [processAll_eq (ready_initial _)] at hb
    obtain rfl : (takeInAll _ files).1 = b := congrArg Prod.fst (Except.ok.inj hb)
    decide +kernel
  obtain ⟨c, hc, hpath, houter, hsimple⟩ := hclass
  obtain ⟨hname, e, -, -, hin, hnested⟩ := (hlinks c hc).1 "A" houter
  rw [hpath] at hin hnested
  rw [hsimple] at hname hnested
  exact ⟨honly, halike, b, outcomes, hrun, c, hc, houter, hname, e, hin honly, hnested halike⟩

end Build

end ApiDoc
