import ApiDoc.Proofs.Root.Reachable
import Mathlib.Data.Set.Function

/-!
# Roots that differ in their numbers only

Classes are numbered in the order they come, so that two roots with the same classes and the same
descriptions of packages need not be equal. They are alike (`Root.Alike`): the numbers of one are
those of the other under a renaming, and resolving both keeps it that way. Nothing of a listing
shows the difference.
-/

namespace ApiDoc

/-! ### Renaming the numbers in a document -/

namespace TypeRef

/-- A reference whose class goes by another number. -/
def rename (σ : ClassId → ClassId) (t : TypeRef) : TypeRef :=
  { t with resolved := t.resolved.map σ }

@[simp] theorem resolved_rename (σ : ClassId → ClassId) (t : TypeRef) :
    (t.rename σ).resolved = t.resolved.map σ := rfl

@[simp] theorem isBuiltin_rename (σ : ClassId → ClassId) (t : TypeRef) :
    (t.rename σ).isBuiltin = t.isBuiltin := rfl

end TypeRef

namespace MethodDoc

theorem typeRefs_mapTypeRefs (f : TypeRef → TypeRef) (m : MethodDoc) :
    (m.mapTypeRefs f).typeRefs = m.typeRefs.map f := by
  have hresult : (m.returnType.map f).toList = m.returnType.toList.map f := by
    cases m.returnType <;> rfl
  simp [typeRefs, mapTypeRefs, hresult, Function.comp_def]

theorem mapTypeRefs_mapTypeRefs (f g : TypeRef → TypeRef) (m : MethodDoc) :
    (m.mapTypeRefs f).mapTypeRefs g = m.mapTypeRefs fun t => g (f t) := by
  simp [mapTypeRefs, Function.comp_def]

end MethodDoc

namespace ClassDoc

/-- A document in which classes go by other numbers. -/
def rename (σ : ClassId → ClassId) (c : ClassDoc) : ClassDoc :=
  c.mapTypeRefs (TypeRef.rename σ)

@[simp] theorem qualifiedName_mapTypeRefs (f : TypeRef → TypeRef) (c : ClassDoc) :
    (c.mapTypeRefs f).qualifiedName = c.qualifiedName := by
  unfold qualifiedName mapTypeRefs
  rfl

theorem typeRefs_mapTypeRefs (f : TypeRef → TypeRef) (c : ClassDoc) :
    (c.mapTypeRefs f).typeRefs = c.typeRefs.map f := by
  have hsuper : (c.superclass.map f).toList = c.superclass.toList.map f := by
    cases c.superclass <;> rfl
  simp [typeRefs, mapTypeRefs, hsuper, Function.comp_def, List.flatMap_map, List.map_flatMap,
    MethodDoc.typeRefs_mapTypeRefs]

theorem mapTypeRefs_mapTypeRefs (f g : TypeRef → TypeRef) (c : ClassDoc) :
    (c.mapTypeRefs f).mapTypeRefs g = c.mapTypeRefs fun t => g (f t) := by
  simp [mapTypeRefs, Function.comp_def, MethodDoc.mapTypeRefs_mapTypeRefs]

/-- The entry of a class in a listing says whether its superclass was found, and not its number. -/
theorem ofDoc_rename (σ : ClassId → ClassId) (c : ClassDoc) :
    Report.ClassEntry.ofDoc (c.rename σ) = Report.ClassEntry.ofDoc c := by
  have hsuper : (c.rename σ).superclass.map Report.SuperclassEntry.ofRef =
      c.superclass.map Report.SuperclassEntry.ofRef := by
    show (c.superclass.map (TypeRef.rename σ)).map _ = _
    cases c.superclass with
    | none => rfl
    | some t => simp [Report.SuperclassEntry.ofRef, TypeRef.rename]
  unfold Report.ClassEntry.ofDoc
  rw [hsuper, rename, qualifiedName_mapTypeRefs]
  rfl

end ClassDoc

/-! ### Looking up types under other numbers -/

section

variable {index index' : NameMap ClassId} {σ : ClassId → ClassId}

theorem Lookup.byRef_rename (h : ∀ q, index'.get? q = (index.get? q).map σ) (owner : ClassDoc)
    (ref : TypeRef) : byRef index' owner ref = (byRef index owner ref).map σ := by
  have hfind : ∀ candidates : List String,
      candidates.findSome? index'.get? = (candidates.findSome? index.get?).map σ := by
    intro candidates
    induction candidates with
    | nil => rfl
    | cons q qs ih =>
      rw [List.findSome?_cons, List.findSome?_cons, h]
      cases index.get? q with
      | none => exact ih
      | some id => rfl
  unfold byRef byName
  split
  · rfl
  · split
    · rfl
    · exact hfind _

/-- A class is resolved to the same classes, under their other numbers. -/
theorem Root.resolveClass_rename (h : ∀ q, index'.get? q = (index.get? q).map σ)
    (doc : ClassDoc) : resolveClass index' doc = (resolveClass index doc).rename σ := by
  rw [resolveClass, resolveClass, ClassDoc.rename, ClassDoc.mapTypeRefs_mapTypeRefs]
  refine congrArg (fun f => doc.mapTypeRefs f) (funext fun ref => ?_)
  rw [Lookup.byRef_rename h, TypeRef.rename]

end

namespace Root

/-- Counting references does not depend on the order of the classes. -/
theorem summarize_perm {docs docs' : List ClassDoc} (h : docs.Perm docs') :
    summarize docs = summarize docs' := by
  have hrefs := h.flatMap_right ClassDoc.typeRefs
  rw [summarize, summarize, hrefs.countP_eq, hrefs.countP_eq]

/-- It does not depend on the numbers of the classes. -/
theorem summarize_rename (σ : ClassId → ClassId) (docs : List ClassDoc) :
    summarize (docs.map (ClassDoc.rename σ)) = summarize docs := by
  have hrefs : (docs.map (ClassDoc.rename σ)).flatMap ClassDoc.typeRefs =
      (docs.flatMap ClassDoc.typeRefs).map (TypeRef.rename σ) := by
    rw [List.flatMap_map, List.map_flatMap]
    exact List.flatMap_congr fun doc _ => doc.typeRefs_mapTypeRefs _
  unfold summarize
  rw [hrefs]
  simp [List.countP_map, Function.comp_def]

/-! ### Resolving a root -/

theorem classNamed?_resolve {r : Root} (h : r.isResolved = false) (q : String) :
    r.resolve.classNamed? q = (r.classNamed? q).map (resolveClass r.index) := by
  rw [resolve_eq h]
  unfold classNamed?
  dsimp only
  cases r.index.get? q with
  | none => rfl
  | some id => exact List.getElem?_map

theorem qualifiedName_comp_resolveClass (index : NameMap ClassId) :
    ClassDoc.qualifiedName ∘ resolveClass index = ClassDoc.qualifiedName := by
  funext doc
  rw [Function.comp_apply, resolveClass, ClassDoc.qualifiedName_mapTypeRefs]

theorem consistent_resolve {r : Root} (h : r.Consistent) : r.resolve.Consistent :=
  consistent_perform h .resolve

/-! ### Alike roots -/

/-- The numbers of the classes of a root. -/
def numbers (r : Root) : Set ClassId := { id | id.index < r.classes.length }

theorem numbers_resolve {r : Root} (h : r.isResolved = false) : r.resolve.numbers = r.numbers := by
  rw [resolve_eq h, numbers, numbers, List.length_map]

/-- The number in `r'` of the class that has a number in `r`, by way of its qualified name. -/
def renumber (r r' : Root) (id : ClassId) : ClassId :=
  ((r.classes[id.index]?).bind fun doc => r'.index.get? doc.qualifiedName).getD id

/-- The qualified name of the class that a reference was found to mean. -/
def meaning? (r : Root) (t : TypeRef) : Option String :=
  t.resolved.bind fun id => (r.classes[id.index]?).map ClassDoc.qualifiedName

/-- Two roots with the same classes, and with the same packages, described in the same words. -/
structure Alike (r r' : Root) : Prop where
  consistent : r.Consistent
  consistent' : r'.Consistent
  classes_perm : r.classes.Perm r'.classes
  description?_eq : ∀ path, r'.description? path = r.description? path

namespace Alike

variable {r r' : Root}

theorem classNamed?_eq (h : r.Alike r') (q : String) : r'.classNamed? q = r.classNamed? q := by
  refine Option.ext fun doc => ?_
  rw [h.consistent.classNamed?_eq_some_iff, h.consistent'.classNamed?_eq_some_iff,
    h.classes_perm.mem_iff]

theorem names_index_eq (h : r.Alike r') : r'.index.names = r.index.names := by
  refine NameMap.names_eq_of_mem_iff fun q => ?_
  rw [h.consistent'.mem_names_index, h.consistent.mem_names_index, h.classNamed?_eq]

/-- A class goes by its other number in the other root. -/
theorem renumber_spec (h : r.Alike r') {id : ClassId} {doc : ClassDoc}
    (hdoc : r.classes[id.index]? = some doc) :
    r'.index.get? doc.qualifiedName = some (r.renumber r' id) ∧
      r'.classes[(r.renumber r' id).index]? = some doc := by
  obtain ⟨j, hj⟩ := List.mem_iff_getElem?.1 (h.classes_perm.mem_iff.1 (List.mem_of_getElem? hdoc))
  have hindex : r'.index.get? doc.qualifiedName = some ⟨j⟩ :=
    h.consistent'.indexed_iff.2 ⟨doc, hj, rfl⟩
  -- The class may stand in any slot `j` of the other root; its name leads there.
  have hnumber : r.renumber r' id = ⟨j⟩ := by
    rw [renumber, hdoc, Option.bind_some, hindex, Option.getD_some]
  rw [hnumber]
  exact ⟨hindex, hj⟩

theorem get?_index_eq (h : r.Alike r') (q : String) :
    r'.index.get? q = (r.index.get? q).map (r.renumber r') := by
  cases hid : r.index.get? q with
  | some id =>
    obtain ⟨doc, hdoc, rfl⟩ := h.consistent.indexed_iff.1 hid
    exact (h.renumber_spec hdoc).1
  | none =>
    have hnone : q ∉ r'.index.names := by
      rw [h.names_index_eq, NameMap.mem_names_iff, hid]
      exact nofun
    cases hid' : r'.index.get? q with
    | none => rfl
    | some id => exact absurd (NameMap.mem_names_iff.2 ⟨id, hid'⟩) hnone

/-- The renaming maps the classes in the slots of one root to those of the other. -/
theorem getElem?_renumber (h : r.Alike r') (id : ClassId) :
    r'.classes[(r.renumber r' id).index]? = r.classes[id.index]? := by
  cases hdoc : r.classes[id.index]? with
  | some doc => exact (h.renumber_spec hdoc).2
  | none =>
    -- A number that no class has is left alone, and is none of the other root's.
    rw [renumber, hdoc, Option.bind_none, Option.getD_none, List.getElem?_eq_none_iff,
      ← h.classes_perm.length_eq]
    exact List.getElem?_eq_none_iff.1 hdoc

theorem bijOn_renumber (h : r.Alike r') : Set.BijOn (r.renumber r') r.numbers r'.numbers := by
  refine ⟨?_, ?_, ?_⟩
  · intro id hid
    have hdoc := List.getElem?_eq_getElem hid
    exact (List.getElem?_eq_some_iff.1 (h.renumber_spec hdoc).2).1
  · intro id hid other hother heq
    have hdoc := List.getElem?_eq_getElem hid
    have hslot := (h.renumber_spec hdoc).2
    rw [heq, h.getElem?_renumber] at hslot
    exact h.consistent.eq_of_qualifiedName_eq hslot hdoc rfl
  · intro id hid
    have hdoc := List.getElem?_eq_getElem hid
    obtain ⟨i, hi⟩ :=
      List.mem_iff_getElem?.1 (h.classes_perm.mem_iff.2 (List.mem_of_getElem? hdoc))
    let other : ClassId := ⟨i⟩
    have hslot : r'.classes[(r.renumber r' other).index]? = some _ := (h.renumber_spec hi).2
    refine ⟨other, (List.getElem?_eq_some_iff.1 hi).1, ?_⟩
    exact h.consistent'.eq_of_qualifiedName_eq hdoc hslot rfl

/-! ### Alike roots after resolving -/

/-- A class of a resolved root is that of the other one, up to the numbers. -/
theorem classNamed?_resolve_eq (h : r.Alike r') (hr : r.isResolved = false)
    (hr' : r'.isResolved = false) (q : String) :
    r'.resolve.classNamed? q =
      (r.resolve.classNamed? q).map (ClassDoc.rename (r.renumber r')) := by
  rw [classNamed?_resolve hr, classNamed?_resolve hr', h.classNamed?_eq, Option.map_map]
  refine congrArg (fun f => (r.classNamed? q).map f) (funext fun doc => ?_)
  exact resolveClass_rename h.get?_index_eq doc

theorem summary_resolve_eq (h : r.Alike r') (hr : r.isResolved = false)
    (hr' : r'.isResolved = false) : r'.resolve.summary = r.resolve.summary := by
  rw [resolve_eq hr, resolve_eq hr']
  -- First the numbers, then the order.
  calc summarize (r'.classes.map (resolveClass r'.index))
      = summarize ((r'.classes.map (resolveClass r.index)).map
          (ClassDoc.rename (r.renumber r'))) := by
        rw [List.map_map]
        refine congrArg summarize (List.map_congr_left fun doc _ => ?_)
        exact resolveClass_rename h.get?_index_eq doc
    _ = summarize (r'.classes.map (resolveClass r.index)) := summarize_rename _ _
    _ = summarize (r.classes.map (resolveClass r.index)) :=
        summarize_perm (h.classes_perm.symm.map _)

/-- References are found to mean the same, whatever the numbers. -/
theorem meanings_resolve_eq (h : r.Alike r') (hr : r.isResolved = false)
    (hr' : r'.isResolved = false) (q : String) :
    (r'.resolve.classNamed? q).map (fun doc => doc.typeRefs.map r'.resolve.meaning?) =
      (r.resolve.classNamed? q).map fun doc => doc.typeRefs.map r.resolve.meaning? := by
  -- A class keeps its qualified name when it is renumbered and when it is resolved.
  have hslot : ∀ id, (r'.resolve.classes[(r.renumber r' id).index]?).map ClassDoc.qualifiedName =
      (r.resolve.classes[id.index]?).map ClassDoc.qualifiedName := by
    intro id
    rw [resolve_eq hr, resolve_eq hr']
    dsimp only
    rw [List.getElem?_map, List.getElem?_map, h.getElem?_renumber, Option.map_map, Option.map_map,
      qualifiedName_comp_resolveClass, qualifiedName_comp_resolveClass]
  have hmeaning : ∀ t : TypeRef,
      r'.resolve.meaning? (t.rename (r.renumber r')) = r.resolve.meaning? t := by
    intro t
    unfold meaning?
    rw [TypeRef.resolved_rename]
    cases t.resolved with
    | none => rfl
    | some id => exact hslot id
  rw [h.classNamed?_resolve_eq hr hr', Option.map_map]
  refine congrArg (fun f => (r.resolve.classNamed? q).map f) (funext fun doc => ?_)
  simp only [Function.comp_apply, ClassDoc.rename, ClassDoc.typeRefs_mapTypeRefs, List.map_map,
    Function.comp_def, hmeaning]

/-! ### Listings of alike roots -/

open Report (Listing ClassEntry PackageEntry)

/-- Packages are listed alike. -/
theorem packages_eq (h : r.Alike r') :
    r'.packages.values.map PackageEntry.ofDoc = r.packages.values.map PackageEntry.ofDoc := by
  have hentries : r'.packages.map PackageEntry.ofDoc = r.packages.map PackageEntry.ofDoc := by
    apply NameMap.ext_get?
    intro path
    have hdescription := h.description?_eq path
    unfold description? at hdescription
    rw [NameMap.get?_map, NameMap.get?_map]
    cases hp : r.packages.get? path with
    | none =>
      rw [hp, Option.map_none, Option.map_eq_none_iff] at hdescription
      rw [hdescription, Option.map_none]
    | some p =>
      rw [hp, Option.map_some] at hdescription
      obtain ⟨p', hp', htext⟩ := Option.map_eq_some_iff.1 hdescription
      -- The two packages have the path, the text and the class names in common, and an entry is
      -- these.
      have hpath : p'.path = p.path := by
        rw [h.consistent.pathsKnown path p hp, h.consistent'.pathsKnown path p' hp']
      have hnames : p'.classes.names = p.classes.names := by
        refine NameMap.names_eq_of_mem_iff fun name => ?_
        rw [h.consistent.mem_names_package hp, h.consistent'.mem_names_package hp']
        simp only [h.classes_perm.mem_iff]
      rw [hp', Option.map_some, Option.map_some]
      unfold PackageEntry.ofDoc PackageDoc.dottedName
      rw [hpath, htext, hnames]
  rw [← NameMap.values_map, ← NameMap.values_map, hentries]

/-- Classes of resolved roots are listed alike. -/
theorem classes_listing_eq (h : r.Alike r') (hr : r.isResolved = false)
    (hr' : r'.isResolved = false) (resolution resolution' : Summary)
    (diagnostics diagnostics' : List Diagnostic) :
    (Listing.ofRoot r'.resolve resolution' diagnostics').classes =
      (Listing.ofRoot r.resolve resolution diagnostics).classes := by
  have hc := consistent_resolve h.consistent
  have hc' := consistent_resolve h.consistent'
  have hnames : r'.resolve.index.names = r.resolve.index.names := by
    rw [resolve_eq hr, resolve_eq hr']
    exact h.names_index_eq
  rw [hc.classes_listing, hc'.classes_listing, hc.sortedClasses_eq, hc'.sortedClasses_eq, hnames,
    List.map_filterMap, List.map_filterMap]
  refine List.filterMap_congr fun q _ => ?_
  rw [h.classNamed?_resolve_eq hr hr', Option.map_map]
  refine congrArg (fun f => (r.resolve.classNamed? q).map f) (funext fun doc => ?_)
  exact doc.ofDoc_rename _

end Alike

end Root

end ApiDoc
