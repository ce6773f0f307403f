import ApiDoc.Proofs.Build.Aggregate
import ApiDoc.Proofs.Root.Renumbering

/-!
# Files may come in any order

If no two files of a batch bring a class of one qualified name, and no package is described twice,
then the order of the files shows in the numbers of the classes and in the order of the reports, and
nowhere else. By `Aggregates`, either order holds the documents of all files; without collisions
these are the classes of the root, so that the two roots are alike.
-/

namespace ApiDoc

/-- A package does not give two names one qualified name. -/
theorem qualify_injective (path : String) : Function.Injective (qualify path) := by
  intro name name' h
  unfold qualify at h
  dsimp only at h
  split at h
  · exact h
  · generalize packageName path ++ "." = front at h
    rw [← String.toList_inj, String.toList_append, String.toList_append] at h
    exact String.toList_inj.1 (List.append_cancel_left h)

/-! ### Documents without a collision -/

namespace CollisionPolicy

variable (policy : CollisionPolicy) {docs : List ClassDoc}

/-- Where no name comes twice, each document holds its own. -/
theorem held_eq_some_iff (h : (docs.map ClassDoc.qualifiedName).Nodup) {q : String}
    {d : ClassDoc} : policy.held docs q = some d ↔ d ∈ docs ∧ d.qualifiedName = q := by
  refine ⟨mem_of_held, ?_⟩
  rintro ⟨hd, rfl⟩
  obtain ⟨e, he⟩ := Option.isSome_iff_exists.1 ((policy.isSome_held docs _).2 ⟨d, hd, rfl⟩)
  obtain ⟨hmem, hname⟩ := mem_of_held he
  rw [he, List.inj_on_of_nodup_map h hmem hd hname]

theorem collisionsAfter_eq_nil {seen : List ClassDoc}
    (h : ((seen ++ docs).map ClassDoc.qualifiedName).Nodup) :
    policy.collisionsAfter seen docs = [] := by
  induction docs generalizing seen with
  | nil => rfl
  | cons d docs ih =>
    have hnone : policy.held seen d.qualifiedName = none := by
      rw [← Option.not_isSome_iff_eq_none, isSome_held]
      rintro ⟨e, he, hname⟩
      rw [List.map_append, List.nodup_append] at h
      exact h.2.2 _ (List.mem_map_of_mem he) _ (List.mem_map_of_mem List.mem_cons_self) hname
    rw [List.append_cons] at h
    rw [collisionsAfter, hnone, ih h, List.append_nil]
    cases policy <;> rfl

end CollisionPolicy

namespace Build

variable (settings : Settings)

/-- Two files bring a class of one qualified name. -/
def ShareClass (f g : String × String) : Prop :=
  ∃ d ∈ (Content.ofFile settings f.1 f.2).documents,
    ∃ e ∈ (Content.ofFile settings g.1 g.2).documents, d.qualifiedName = e.qualifiedName

instance (f g : String × String) : Decidable (ShareClass settings f g) :=
  inferInstanceAs (Decidable (∃ d ∈ _, ∃ e ∈ _, _))

/-- A file brings no qualified name twice. -/
theorem nodup_documents_ofFile (file source : String) :
    ((Content.ofFile settings file source).documents.map ClassDoc.qualifiedName).Nodup := by
  let docs := (Content.ofFile settings file source).documents
  have hqualified : docs.map ClassDoc.qualifiedName =
      (docs.map ClassDoc.name).map (qualify (packagePathOf file)) := by
    rw [List.map_map]
    refine List.map_congr_left fun d hd => ?_
    rw [Function.comp_apply, ClassDoc.qualifiedName, (Content.place_of_mem_documents hd).1]
  have hnames := NameMap.nodup_of_sorted (Content.sorted_names_documents settings file source)
  rw [hqualified]
  exact hnames.map (qualify_injective _)

theorem nodup_documents {files : List (String × String)}
    (h : files.Pairwise fun f g => ¬ShareClass settings f g) :
    ((documents settings files).map ClassDoc.qualifiedName).Nodup := by
  rw [documents, List.map_flatMap]
  refine List.nodup_flatMap.2 ⟨fun f _ => nodup_documents_ofFile settings f.1 f.2, ?_⟩
  refine h.imp fun hfg => ?_
  intro q hf hg
  obtain ⟨d, hd, rfl⟩ := List.mem_map.1 hf
  obtain ⟨e, he, hname⟩ := List.mem_map.1 hg
  exact hfg ⟨d, hd, e, he, hname.symm⟩

/-- Without a collision, the classes of the root are the documents of the files. -/
theorem Aggregates.classes_perm {settings : Settings} {files : List (String × String)} {b : Build}
    (h : Aggregates settings files b)
    (hnodup : ((documents settings files).map ClassDoc.qualifiedName).Nodup) :
    b.root.classes.Perm (documents settings files) := by
  have hconsistent := h.ready.consistent
  refine (List.perm_ext_iff_of_nodup hconsistent.nodup_qualifiedNames.of_map hnodup.of_map).2 ?_
  intro d
  -- Both sides are told by who holds the qualified name of `d`.
  have hmem : d ∈ b.root.classes ↔ b.root.classNamed? d.qualifiedName = some d := by
    rw [hconsistent.classNamed?_eq_some_iff]
    exact (and_iff_left rfl).symm
  rw [hmem, h.classNamed?_eq, CollisionPolicy.held_eq_some_iff _ hnodup]
  exact and_iff_left rfl

/-- Without a collision, the reports are those of the files that cannot be read. -/
theorem Aggregates.diagnostics_eq {settings : Settings} {files : List (String × String)}
    {b : Build} (h : Aggregates settings files b)
    (hnodup : ((documents settings files).map ClassDoc.qualifiedName).Nodup) :
    b.diagnostics = failures settings files := by
  have hcollisions : settings.collisionPolicy.collisionsAfter [] (documents settings files) = [] :=
    CollisionPolicy.collisionsAfter_eq_nil _ (by rw [List.nil_append]; exact hnodup)
  have hnone := h.collisions_eq.trans hcollisions
  rw [← h.failures_eq, List.filter_eq_self.2]
  intro d hd
  simpa using List.filter_eq_nil_iff.1 hnone d hd

/-! ### Reordered batches -/

section

variable {files files' : List (String × String)} (hperm : files.Perm files')
include hperm

theorem documents_perm : (documents settings files).Perm (documents settings files') :=
  hperm.flatMap_right _

theorem nodup_documents_of_perm (hclasses : files.Pairwise fun f g => ¬ShareClass settings f g) :
    ((documents settings files').map ClassDoc.qualifiedName).Nodup :=
  ((documents_perm settings hperm).map _).nodup_iff.1 (nodup_documents settings hclasses)

theorem failures_perm : (failures settings files).Perm (failures settings files') :=
  hperm.flatMap_right _

theorem hasPackage_perm (path : String) :
    HasPackage settings files path ↔ HasPackage settings files' path := by
  simp only [HasPackage, hperm.mem_iff]

/-- A package that is described at most once has the same description in any order. -/
theorem lastDescription_perm {path : String}
    (hone : (descriptions settings files path).length ≤ 1) :
    lastDescription settings files' path = lastDescription settings files path := by
  have hdescriptions :
      (descriptions settings files path).Perm (descriptions settings files' path) :=
    hperm.filterMap _
  unfold lastDescription
  match hlist : descriptions settings files path with
  | [] =>
    rw [hlist] at hdescriptions
    rw [← hdescriptions.nil_eq]
  | [text] =>
    rw [hlist] at hdescriptions
    rw [List.singleton_perm.1 hdescriptions]
  | _ :: _ :: _ =>
    rw [hlist] at hone
    exact absurd hone (by simp)

end

/-- Builds of a batch in two orders have alike roots. -/
theorem Aggregates.alike {settings : Settings} {files files' : List (String × String)}
    {b b' : Build} (h : Aggregates settings files b) (h' : Aggregates settings files' b')
    (hperm : files.Perm files') (hclasses : files.Pairwise fun f g => ¬ShareClass settings f g)
    (hone : ∀ path, (descriptions settings files path).length ≤ 1) : b.root.Alike b'.root where
  consistent := h.ready.consistent
  consistent' := h'.ready.consistent
  classes_perm := by
    have hclasses_left := h.classes_perm (nodup_documents settings hclasses)
    have hclasses_right := h'.classes_perm (nodup_documents_of_perm settings hperm hclasses)
    exact (hclasses_left.trans (documents_perm settings hperm)).trans hclasses_right.symm
  description?_eq := by
    intro path
    rw [h.description?_eq, h'.description?_eq, lastDescription_perm settings hperm (hone path)]
    simp only [hasPackage_perm settings hperm]

open Report (Listing)

/-- **The order of files does not matter.** If no two files of a batch bring a class of one
qualified name and no package is described twice, then building the batch in any other order and
resolving it gives the same packages, classes and counts of references and the same reports up to
order. The classes of each qualified name are equal up to a renaming of the numbers, which is a
bijection and under which every reference is found to mean the same qualified name, or none. -/
theorem resolved_build_independent_of_order (settings : Settings)
    {files files' : List (String × String)} (hperm : files.Perm files')
    (hclasses : files.Pairwise fun f g => ¬ShareClass settings f g)
    (hone : ∀ path, (descriptions settings files path).length ≤ 1) :
    ∃ b outcomes b' outcomes', processAll { settings } files = .ok (b, outcomes) ∧
      processAll { settings } files' = .ok (b', outcomes') ∧
      let listing := Listing.ofBuild b.resolve
      let listing' := Listing.ofBuild b'.resolve
      listing'.packages = listing.packages ∧ listing'.classes = listing.classes ∧
      listing'.resolution = listing.resolution ∧
      listing'.diagnostics.Perm listing.diagnostics ∧
      let r := b.resolve.root
      let r' := b'.resolve.root
      ∃ σ : ClassId → ClassId, Set.BijOn σ r.numbers r'.numbers ∧
        (∀ q, r'.index.get? q = (r.index.get? q).map σ) ∧
        (∀ q, r'.classNamed? q = (r.classNamed? q).map (ClassDoc.rename σ)) ∧
        ∀ q, (r'.classNamed? q).map (fun doc => doc.typeRefs.map r'.meaning?) =
          (r.classNamed? q).map fun doc => doc.typeRefs.map r.meaning? := by
  have h := aggregates_takeInAll settings files
  have h' := aggregates_takeInAll settings files'
  have halike := h.alike h' hperm hclasses hone
  have hopen := h.ready.isOpen
  have hopen' := h'.ready.isOpen
  refine ⟨_, _, _, _, processAll_eq (ready_initial settings) files,
    processAll_eq (ready_initial settings) files', ?_⟩
  -- From here on the two builds are known by what was said of them above.
  generalize (takeInAll { settings } files).1 = b at *
  generalize (takeInAll { settings } files').1 = b' at *
  refine ⟨?_, halike.classes_listing_eq hopen hopen' _ _ _ _,
    halike.summary_resolve_eq hopen hopen', ?_, b.root.renumber b'.root, ?_, ?_,
    halike.classNamed?_resolve_eq hopen hopen', halike.meanings_resolve_eq hopen hopen'⟩
  · show b'.root.resolve.packages.values.map _ = b.root.resolve.packages.values.map _
    rw [Root.resolve_eq hopen, Root.resolve_eq hopen']
    exact halike.packages_eq
  · show b'.diagnostics.Perm b.diagnostics
    rw [h.diagnostics_eq (nodup_documents settings hclasses),
      h'.diagnostics_eq (nodup_documents_of_perm settings hperm hclasses)]
    exact (failures_perm settings hperm).symm
  · show Set.BijOn _ b.root.resolve.numbers b'.root.resolve.numbers
    rw [Root.numbers_resolve hopen, Root.numbers_resolve hopen']
    exact halike.bijOn_renumber
  · show ∀ q, b'.root.resolve.index.get? q = (b.root.resolve.index.get? q).map _
    rw [Root.resolve_eq hopen, Root.resolve_eq hopen']
    exact halike.get?_index_eq

/-- A class and its superclass, which come in either order. -/
theorem resolved_build_independent_of_order_reversed :
    let files := [("p/A.groovy", "class A extends B {}"), ("p/package.html", "<body>x</body>"),
      ("p/B.java", "class B {}")]
    (files.Pairwise fun f g => ¬ShareClass {} f g) ∧
      (∀ path, (descriptions {} files path).length ≤ 1) ∧
      ∃ b outcomes b' outcomes', processAll { settings := {} } files = .ok (b, outcomes) ∧
        processAll { settings := {} } files.reverse = .ok (b', outcomes') ∧
        (Listing.ofBuild b'.resolve).classes = (Listing.ofBuild b.resolve).classes ∧
        ∃ σ : ClassId → ClassId, ∀ q, b'.resolve.root.classNamed? q =
          (b.resolve.root.classNamed? q).map (ClassDoc.rename σ) := by
  intro files
  have hclasses : files.Pairwise fun f g => ¬ShareClass {} f g := by decide +kernel
  -- Only the second file has a text, so no package is described twice.
  have hone : ∀ path, (descriptions {} files path).length ≤ 1 := by
    have hfirst : (Content.ofFile {} "p/A.groovy" "class A extends B {}").text? = none := by
      decide +kernel
    have hlast : (Content.ofFile {} "p/B.java" "class B {}").text? = none := by decide +kernel
    intro path
    simp only [files, descriptions, List.filterMap_cons, hfirst, hlast, ite_self,
      List.filterMap_nil]
    split <;> simp
  obtain ⟨b, outcomes, b', outcomes', hrun, hrun', -, hlisted, -, -, σ, -, -, hnamed, -⟩ :=
    resolved_build_independent_of_order {} files.reverse_perm.symm hclasses hone
  exact ⟨hclasses, hone, b, outcomes, b', outcomes', hrun, hrun', hlisted, σ, hnamed⟩

end Build

end ApiDoc
