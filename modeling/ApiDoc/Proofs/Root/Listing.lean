import ApiDoc.Project.Report
import ApiDoc.Proofs.Root.Put
import Mathlib.Data.List.Nodup

/-!
# What a consistent root shows

A consistent root passes its own check, and a report lists its classes twice in two arrangements: in
order of their qualified names, and package by package. Both list every class once, so either is a
permutation of the other.
-/

namespace ApiDoc.Root

/-! ### The check -/

/-- A check of every item of a list succeeds if it does for each of them. -/
theorem forM_eq_ok {ε α : Type} {f : α → Except ε Unit} {l : List α}
    (h : ∀ a ∈ l, f a = .ok ()) : l.forM f = .ok () := by
  induction l with
  | nil => rfl
  | cons a l ih =>
    have htail : l.forM f = .ok () := ih fun b hb => h b (List.mem_cons_of_mem _ hb)
    show (f a >>= fun _ => l.forM f) = .ok ()
    rw [h a List.mem_cons_self, htail]
    rfl

namespace Consistent

variable {r : Root}

/-- A package holds a number if and only if its class belongs to the package. -/
theorem mem_values_classes (h : r.Consistent) {path : String} {p : PackageDoc} {id : ClassId}
    {doc : ClassDoc} (hp : r.packages.get? path = some p)
    (hdoc : r.classes[id.index]? = some doc) :
    id ∈ p.classes.values ↔ path = doc.packagePath := by
  have hin : ∀ name, r.idIn? path name = p.classes.get? name := by
    intro name
    rw [idIn?, hp]
    rfl
  rw [NameMap.mem_values_iff]
  constructor
  · rintro ⟨name, hname⟩
    obtain ⟨d, hd, hpath, -⟩ := h.held_iff.1 ((hin name).trans hname)
    rw [hdoc] at hd
    cases hd
    exact hpath.symm
  · intro hpath
    refine ⟨doc.name, ?_⟩
    rw [← hin]
    exact h.held_iff.2 ⟨doc, hdoc, hpath.symm, rfl⟩

/-- A class is held by its own package and no other. -/
theorem ownersOf_eq (h : r.Consistent) {id : ClassId} {doc : ClassDoc}
    (hdoc : r.classes[id.index]? = some doc) : r.ownersOf id = [doc.packagePath] := by
  have hmem : doc.packagePath ∈ r.packages.names := by
    have hheld : r.idIn? doc.packagePath doc.name = some id := h.held_iff.2 ⟨doc, hdoc, rfl, rfl⟩
    obtain ⟨p, hp, -⟩ := Option.bind_eq_some_iff.1 hheld
    exact NameMap.mem_names_iff.2 ⟨p, hp⟩
  -- Packages are told apart by their paths, so the owners are the paths equal to that of the class.
  have howners : r.ownersOf id = r.packages.names.filter (· == doc.packagePath) := by
    show ((r.packages.entries.map Prod.snd).filter fun p => p.classes.values.contains id).map
      PackageDoc.path = (r.packages.entries.map Prod.fst).filter (· == doc.packagePath)
    rw [List.filter_map, List.map_map, List.filter_map]
    have hfilter : r.packages.entries.filter
          ((fun p : PackageDoc => p.classes.values.contains id) ∘ Prod.snd) =
        r.packages.entries.filter ((· == doc.packagePath) ∘ Prod.fst) := by
      apply List.filter_congr
      intro e he
      have hp : r.packages.get? e.1 = some e.2 := NameMap.get?_eq_some_iff.2 he
      rw [Bool.eq_iff_iff]
      simpa using h.mem_values_classes hp hdoc
    rw [hfilter]
    apply List.map_congr_left
    intro e he
    exact h.pathsKnown e.1 e.2 (NameMap.get?_eq_some_iff.2 (List.mem_of_mem_filter he))
  rw [howners, List.filter_beq, List.count_eq_one_of_mem r.packages.nodup_names hmem]
  rfl

/-- A consistent root passes its check. -/
theorem check_eq_ok (h : r.Consistent) : r.check = .ok () := by
  have hindex : r.index.entries.forM (fun e => r.checkIndexed e.1 e.2) = .ok () := by
    apply forM_eq_ok
    intro e he
    obtain ⟨doc, hdoc, hname⟩ := h.indexed_iff.1 (NameMap.get?_eq_some_iff.2 he)
    simp [checkIndexed, hdoc, hname, h.ownersOf_eq hdoc]
  have hheld : r.packages.values.forM
      (fun package => package.classes.values.forM (r.checkHeld package)) = .ok () := by
    apply forM_eq_ok
    intro p hp
    apply forM_eq_ok
    intro id hid
    obtain ⟨path, hpath⟩ := NameMap.mem_values_iff.1 hp
    obtain ⟨name, hname⟩ := NameMap.mem_values_iff.1 hid
    have hin : r.idIn? path name = some id := by rw [idIn?, hpath]; exact hname
    obtain ⟨doc, hdoc, -, -⟩ := h.held_iff.1 hin
    simp [checkHeld, hdoc, h.get?_index hdoc]
  rw [check, hindex]
  exact hheld

/-! ### Classes in order of their names -/

/-- The classes in order are the classes of the indexed names. -/
theorem sortedClasses_eq (h : r.Consistent) :
    r.sortedClasses.map Prod.snd = r.index.names.filterMap r.classNamed? := by
  show ((r.index.entries.map Prod.snd).filterMap fun id =>
      (r.classes[id.index]?).map fun doc => (id, doc)).map Prod.snd =
    (r.index.entries.map Prod.fst).filterMap r.classNamed?
  rw [List.filterMap_map, List.map_filterMap, List.filterMap_map]
  apply List.filterMap_congr
  intro e he
  have hid : r.index.get? e.1 = some e.2 := NameMap.get?_eq_some_iff.2 he
  obtain ⟨doc, hdoc, -⟩ := h.indexed_iff.1 hid
  simp [hdoc, classNamed?_of_get?_index hid hdoc]

theorem qualifiedNames_sortedClasses (h : r.Consistent) :
    (r.sortedClasses.map Prod.snd).map ClassDoc.qualifiedName = r.index.names := by
  rw [h.sortedClasses_eq, List.map_filterMap]
  refine (List.filterMap_congr ?_).trans List.filterMap_some
  intro q hq
  obtain ⟨doc, hdoc⟩ := Option.isSome_iff_exists.1 (h.mem_names_index.1 hq)
  rw [hdoc, Option.map_some, (h.classNamed?_eq_some_iff.1 hdoc).2]

theorem nodup_qualifiedNames (h : r.Consistent) :
    (r.classes.map ClassDoc.qualifiedName).Nodup := by
  refine List.pairwise_map.2 (List.pairwise_iff_getElem.2 ?_)
  intro i j hi hj hij hname
  have heq : (⟨i⟩ : ClassId) = ⟨j⟩ :=
    h.eq_of_qualifiedName_eq (List.getElem?_eq_getElem hj) (List.getElem?_eq_getElem hi) hname
  cases heq
  exact Nat.lt_irrefl _ hij

/-- The classes in order are the classes of the slots. -/
theorem sortedClasses_perm (h : r.Consistent) :
    (r.sortedClasses.map Prod.snd).Perm r.classes := by
  have hsorted : (r.sortedClasses.map Prod.snd).Nodup := by
    apply List.Nodup.of_map ClassDoc.qualifiedName
    rw [h.qualifiedNames_sortedClasses]
    exact r.index.nodup_names
  refine (List.perm_ext_iff_of_nodup hsorted h.nodup_qualifiedNames.of_map).2 ?_
  intro doc
  rw [h.sortedClasses_eq, List.mem_filterMap]
  constructor
  · rintro ⟨q, -, hq⟩
    exact (h.classNamed?_eq_some_iff.1 hq).1
  · intro hdoc
    have hq := h.classNamed?_eq_some_iff.2 ⟨hdoc, rfl⟩
    exact ⟨doc.qualifiedName, h.mem_names_index.2 (by rw [hq]; rfl), hq⟩

/-! ### Classes package by package -/

/-- A name stands in a package if and only if a class has that name and that package. -/
theorem mem_names_package (h : r.Consistent) {path name : String} {p : PackageDoc}
    (hp : r.packages.get? path = some p) :
    name ∈ p.classes.names ↔ ∃ doc ∈ r.classes, doc.packagePath = path ∧ doc.name = name := by
  have hin : r.idIn? path name = p.classes.get? name := by
    rw [idIn?, hp]
    rfl
  rw [NameMap.mem_names_iff]
  constructor
  · rintro ⟨id, hid⟩
    obtain ⟨doc, hdoc, hplace⟩ := h.held_iff.1 (hin.trans hid)
    exact ⟨doc, List.mem_of_getElem? hdoc, hplace⟩
  · rintro ⟨doc, hdoc, hplace⟩
    obtain ⟨i, hi⟩ := List.mem_iff_getElem?.1 hdoc
    refine ⟨⟨i⟩, ?_⟩
    rw [← hin]
    exact h.held_iff.2 ⟨doc, hi, hplace⟩

end Consistent

/-- The places of a root where a class is held: a package path and a name. -/
def places (r : Root) : List (String × String) :=
  r.packages.entries.flatMap fun e => e.2.classes.names.map fun name => (e.1, name)

theorem nodup_places (r : Root) : r.places.Nodup := by
  refine List.nodup_flatMap.2 ⟨?_, ?_⟩
  · intro e _
    exact e.2.classes.nodup_names.map fun _ _ h => (Prod.mk.inj h).2
  · have hnames : r.packages.entries.Pairwise fun a b => a.1 ≠ b.1 :=
      List.pairwise_map.1 r.packages.nodup_names
    refine hnames.imp ?_
    intro a b hab x ha hb
    obtain ⟨_, -, rfl⟩ := List.mem_map.1 ha
    obtain ⟨_, -, heq⟩ := List.mem_map.1 hb
    exact hab (Prod.mk.inj heq).1.symm

namespace Consistent

variable {r : Root}

/-- The places of a root are those of its classes. -/
theorem mem_places (h : r.Consistent) {path name : String} :
    (path, name) ∈ r.places ↔ ∃ doc ∈ r.classes, doc.packagePath = path ∧ doc.name = name := by
  constructor
  · intro hmem
    obtain ⟨e, he, hname⟩ := List.mem_flatMap.1 hmem
    obtain ⟨_, hname, heq⟩ := List.mem_map.1 hname
    cases heq
    exact (h.mem_names_package (NameMap.get?_eq_some_iff.2 he)).1 hname
  · rintro ⟨doc, hdoc, rfl, rfl⟩
    obtain ⟨i, hi⟩ := List.mem_iff_getElem?.1 hdoc
    have hheld : r.idIn? doc.packagePath doc.name = some ⟨i⟩ :=
      h.held_iff.2 ⟨doc, hi, rfl, rfl⟩
    obtain ⟨p, hp, hid⟩ := Option.bind_eq_some_iff.1 hheld
    refine List.mem_flatMap.2 ⟨(doc.packagePath, p), NameMap.get?_eq_some_iff.1 hp, ?_⟩
    exact List.mem_map.2 ⟨doc.name, NameMap.mem_names_iff.2 ⟨_, hid⟩, rfl⟩

/-- The qualified names of the places are the indexed names, each once. -/
theorem qualify_places_perm (h : r.Consistent) :
    (r.places.map fun place => qualify place.1 place.2).Perm r.index.names := by
  have hnodup : (r.places.map fun place => qualify place.1 place.2).Nodup := by
    -- Two places of one qualified name are the place of one class.
    refine r.nodup_places.map_on ?_
    rintro ⟨path, name⟩ hplace ⟨path', name'⟩ hplace' hq
    obtain ⟨doc, hdoc, rfl, rfl⟩ := h.mem_places.1 hplace
    obtain ⟨doc', hdoc', rfl, rfl⟩ := h.mem_places.1 hplace'
    have h₁ : r.classNamed? doc.qualifiedName = some doc :=
      h.classNamed?_eq_some_iff.2 ⟨hdoc, rfl⟩
    have h₂ : r.classNamed? doc.qualifiedName = some doc' :=
      h.classNamed?_eq_some_iff.2 ⟨hdoc', hq.symm⟩
    rw [h₁] at h₂
    cases h₂
    rfl
  refine (List.perm_ext_iff_of_nodup hnodup r.index.nodup_names).2 ?_
  intro q
  rw [h.mem_names_index, List.mem_map]
  constructor
  · rintro ⟨⟨path, name⟩, hplace, rfl⟩
    obtain ⟨doc, hdoc, rfl, rfl⟩ := h.mem_places.1 hplace
    show (r.classNamed? doc.qualifiedName).isSome
    rw [h.classNamed?_eq_some_iff.2 ⟨hdoc, rfl⟩]
    rfl
  · intro hq
    obtain ⟨doc, hdoc⟩ := Option.isSome_iff_exists.1 hq
    obtain ⟨hmem, hname⟩ := h.classNamed?_eq_some_iff.1 hdoc
    exact ⟨(doc.packagePath, doc.name), h.mem_places.2 ⟨doc, hmem, rfl, rfl⟩, hname⟩

/-! ### The listing of a root -/

open Report (Listing ClassEntry PackageEntry)

variable (resolution : Summary) (diagnostics : List Diagnostic)

theorem qualifiedName_comp_ofDoc :
    ClassEntry.qualifiedName ∘ ClassEntry.ofDoc = ClassDoc.qualifiedName := by
  funext doc
  rw [Function.comp_apply, ClassEntry.ofDoc]

/-- The classes of a listing are in order already, so that sorting them again moves none. -/
theorem classes_listing (h : r.Consistent) :
    (Listing.ofRoot r resolution diagnostics).classes =
      (r.sortedClasses.map Prod.snd).map ClassEntry.ofDoc := by
  have hsorted : (((r.sortedClasses.map Prod.snd).map ClassEntry.ofDoc).map
      ClassEntry.qualifiedName).Pairwise (· < ·) := by
    rw [List.map_map, qualifiedName_comp_ofDoc, h.qualifiedNames_sortedClasses]
    exact r.index.sorted_names
  have hmap : r.sortedClasses.map (fun c => ClassEntry.ofDoc c.2) =
      (r.sortedClasses.map Prod.snd).map ClassEntry.ofDoc := by
    rw [List.map_map]
    rfl
  rw [Listing.ofRoot, hmap]
  refine List.mergeSort_of_pairwise ((List.pairwise_map.1 hsorted).imp ?_)
  intro a b hab
  rw [decide_eq_true_eq]
  refine String.not_lt.1 fun hba => ?_
  exact String.lt_irrefl _ (String.lt_trans hab hba)

/-- The qualified names of a listing are the indexed names, in order. -/
theorem qualifiedNames_listing (h : r.Consistent) :
    (Listing.ofRoot r resolution diagnostics).classes.map ClassEntry.qualifiedName =
      r.index.names := by
  rw [h.classes_listing, List.map_map, qualifiedName_comp_ofDoc]
  exact h.qualifiedNames_sortedClasses

/-- The classes that the packages of a listing name are those of the places. -/
theorem packages_listing (h : r.Consistent) :
    ((Listing.ofRoot r resolution diagnostics).packages.flatMap fun p =>
      p.classes.map (qualify p.path)) =
      r.places.map fun place => qualify place.1 place.2 := by
  show ((r.packages.entries.map Prod.snd).map PackageEntry.ofDoc).flatMap _ = _
  rw [List.flatMap_map, List.flatMap_map, places, List.map_flatMap]
  apply List.flatMap_congr
  intro e he
  have hpath : e.2.path = e.1 := h.pathsKnown e.1 e.2 (NameMap.get?_eq_some_iff.2 he)
  show e.2.classes.names.map (qualify e.2.path) = _
  rw [hpath, List.map_map, Function.comp_def]

end Consistent

end ApiDoc.Root
