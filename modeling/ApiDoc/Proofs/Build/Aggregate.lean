import ApiDoc.Proofs.Build.Content

/-!
# A batch of files as one list of documents

Files are taken in one after the other, and each of them moves numbers, packages and reports about.
What comes of it can be said without any of that: put the documents of all files behind each other,
and the policy picks the one that holds each qualified name. `Aggregates` says so of a build and the
files it has taken in; one file keeps it true (`Aggregates.takeIn`), and so does a batch.
-/

namespace ApiDoc

namespace Build

/-! ### What a batch holds -/

variable (settings : Settings)

/-- The class documents of a batch, file by file, those of a file in order of their names. -/
def documents (files : List (String × String)) : List ClassDoc :=
  files.flatMap fun f => (Content.ofFile settings f.1 f.2).documents

/-- The reports of the files of a batch that cannot be read. -/
def failures (files : List (String × String)) : List Diagnostic :=
  files.flatMap fun f => (Content.ofFile settings f.1 f.2).failures f.1

/-- Does a file of the batch that can be read belong to the package? -/
def HasPackage (files : List (String × String)) (path : String) : Prop :=
  ∃ f ∈ files, (Content.ofFile settings f.1 f.2).isReadable ∧ packagePathOf f.1 = path

instance (files : List (String × String)) (path : String) :
    Decidable (HasPackage settings files path) :=
  inferInstanceAs (Decidable (∃ f ∈ files, _))

/-- The descriptions of a package, in order. -/
def descriptions (files : List (String × String)) (path : String) : List String :=
  files.filterMap fun f =>
    if packagePathOf f.1 = path then (Content.ofFile settings f.1 f.2).text? else none

/-- The last description of a package; one that has none is described by the empty text. -/
def lastDescription (files : List (String × String)) (path : String) : String :=
  (descriptions settings files path).getLast?.getD ""

/-! ### One more file -/

section

variable (files : List (String × String)) (f : String × String)

theorem documents_concat : documents settings (files ++ [f]) =
    documents settings files ++ (Content.ofFile settings f.1 f.2).documents := by
  simp [documents]

theorem failures_concat : failures settings (files ++ [f]) =
    failures settings files ++ (Content.ofFile settings f.1 f.2).failures f.1 := by
  simp [failures]

theorem hasPackage_concat (path : String) : HasPackage settings (files ++ [f]) path ↔
    HasPackage settings files path ∨
      ((Content.ofFile settings f.1 f.2).isReadable ∧ packagePathOf f.1 = path) := by
  unfold HasPackage
  constructor
  · rintro ⟨g, hg, hread, hpath⟩
    rcases List.mem_append.1 hg with hg | hg
    · exact .inl ⟨g, hg, hread, hpath⟩
    · rw [List.mem_singleton.1 hg] at hread hpath
      exact .inr ⟨hread, hpath⟩
  · rintro (⟨g, hg, hread, hpath⟩ | ⟨hread, hpath⟩)
    · exact ⟨g, List.mem_append_left _ hg, hread, hpath⟩
    · exact ⟨f, List.mem_append_right _ List.mem_cons_self, hread, hpath⟩

/-- The description of a package is the latest one. -/
theorem lastDescription_concat (path : String) : lastDescription settings (files ++ [f]) path =
    if packagePathOf f.1 = path
    then (Content.ofFile settings f.1 f.2).text?.getD (lastDescription settings files path)
    else lastDescription settings files path := by
  unfold lastDescription descriptions
  rw [List.filterMap_append]
  split
  · next hpath =>
    cases htext : (Content.ofFile settings f.1 f.2).text? with
    | none => simp [hpath, htext]
    | some text => simp [hpath, htext]
  · next hpath => simp [hpath]

end

/-- A package that has no file has no description. -/
theorem lastDescription_of_not_hasPackage {files : List (String × String)} {path : String}
    (h : ¬HasPackage settings files path) : lastDescription settings files path = "" := by
  have hnone : descriptions settings files path = [] := by
    refine List.filterMap_eq_nil_iff.2 ?_
    intro f hf
    split
    · next hpath =>
      cases hcontent : Content.ofFile settings f.1 f.2 with
      | classes docs => rfl
      | description text => exact absurd ⟨f, hf, by rw [hcontent]; rfl, hpath⟩ h
      | failure category message => rfl
    · rfl
  rw [lastDescription, hnone]
  rfl

end Build

/-! ### Reports of collisions -/

namespace CollisionPolicy

variable (policy : CollisionPolicy)

theorem collisionsAfter_append (seen docs more : List ClassDoc) :
    policy.collisionsAfter seen (docs ++ more) =
      policy.collisionsAfter seen docs ++ policy.collisionsAfter (seen ++ docs) more := by
  induction docs generalizing seen with
  | nil => simp [collisionsAfter]
  | cons d docs ih => simp [collisionsAfter, ih]

/-- Nothing is reported where later classes replace earlier ones silently. -/
theorem collisionsAfter_overwrite (seen docs : List ClassDoc) :
    CollisionPolicy.overwrite.collisionsAfter seen docs = [] := by
  induction docs generalizing seen with
  | nil => rfl
  | cons d docs ih =>
    rw [collisionsAfter, ih, List.append_nil]
    cases CollisionPolicy.overwrite.held seen d.qualifiedName <;> rfl

/-- Collisions are reported as such. -/
theorem category_of_mem_collisionsAfter {seen docs : List ClassDoc} {d : Diagnostic}
    (h : d ∈ policy.collisionsAfter seen docs) : d.category = .classCollision := by
  induction docs generalizing seen with
  | nil => cases h
  | cons doc docs ih =>
    rcases List.mem_append.1 h with h | h
    · unfold reports at h
      split at h
      · rw [List.mem_singleton.1 h]
        rfl
      · rw [List.mem_singleton.1 h]
        rfl
      · cases h
    · exact ih h

theorem filter_collisionsAfter (seen docs : List ClassDoc) :
    (policy.collisionsAfter seen docs).filter (fun d => d.category = .classCollision) =
      policy.collisionsAfter seen docs := by
  refine List.filter_eq_self.2 fun d hd => ?_
  simpa using policy.category_of_mem_collisionsAfter hd

theorem filter_ne_collisionsAfter (seen docs : List ClassDoc) :
    (policy.collisionsAfter seen docs).filter (fun d => d.category ≠ .classCollision) = [] := by
  refine List.filter_eq_nil_iff.2 fun d hd => ?_
  simpa using policy.category_of_mem_collisionsAfter hd

end CollisionPolicy

/-! ### Builds that have taken in a batch -/

namespace Build

/-- The build holds what comes of taking in the files. -/
structure Aggregates (settings : Settings) (files : List (String × String)) (b : Build) : Prop where
  ready : b.Ready
  settings_eq : b.settings = settings
  policy_eq : b.root.policy = settings.collisionPolicy
  classNamed?_eq : ∀ q,
    b.root.classNamed? q = settings.collisionPolicy.held (documents settings files) q
  collisions_eq : b.diagnostics.filter (fun d => d.category = .classCollision) =
    settings.collisionPolicy.collisionsAfter [] (documents settings files)
  failures_eq : b.diagnostics.filter (fun d => d.category ≠ .classCollision) =
    failures settings files
  description?_eq : ∀ path, b.root.description? path =
    if HasPackage settings files path then some (lastDescription settings files path) else none

namespace Aggregates

variable {settings : Settings} {files : List (String × String)} {b : Build}

/-- A build that has taken in nothing. -/
theorem initial (settings : Settings) : Aggregates settings [] { settings } where
  ready := ready_initial settings
  settings_eq := rfl
  policy_eq := rfl
  classNamed?_eq := by simp [documents, Root.classNamed?]
  collisions_eq := rfl
  failures_eq := rfl
  description?_eq := by simp [HasPackage, Root.description?]

/-- A package that is there, or is created, keeps its description; in the view of a batch it is the
last one, empty where there is none. -/
theorem getD_description? (h : Aggregates settings files b) (path : String) :
    (b.root.description? path).getD "" = lastDescription settings files path := by
  rw [h.description?_eq]
  split
  · rfl
  · next hnone => rw [lastDescription_of_not_hasPackage settings hnone, Option.getD_none]

/-- A file that can be read creates its package, and describes it if the file holds a description;
then the packages are as the longer batch has them. -/
theorem description?_concat (h : Aggregates settings files b) {f : String × String} {r : Root}
    (hread : (Content.ofFile settings f.1 f.2).isReadable)
    (hr : ∀ path, r.description? path =
      if path = packagePathOf f.1
      then some ((Content.ofFile settings f.1 f.2).text?.getD ((b.root.description? path).getD ""))
      else b.root.description? path) (path : String) :
    r.description? path =
      if HasPackage settings (files ++ [f]) path
      then some (lastDescription settings (files ++ [f]) path) else none := by
  rw [hr, lastDescription_concat, h.getD_description?, h.description?_eq]
  by_cases hpath : path = packagePathOf f.1
  · have hpackage : HasPackage settings (files ++ [f]) path :=
      (hasPackage_concat settings files f path).2 (.inr ⟨hread, hpath.symm⟩)
    rw [if_pos hpath, if_pos hpackage, if_pos hpath.symm]
  · have hpackage : HasPackage settings (files ++ [f]) path ↔ HasPackage settings files path := by
      rw [hasPackage_concat]
      exact or_iff_left fun hf => hpath hf.2.symm
    rw [if_neg hpath, if_neg (Ne.symm hpath)]
    simp only [hpackage]

/-- Taking in class documents. -/
theorem takeIn_classes (h : Aggregates settings files b) {file source : String}
    {docs : NameMap ClassDoc} (hcontent : Content.ofFile settings file source = .classes docs) :
    Aggregates settings (files ++ [(file, source)]) (b.takeIn file (.classes docs)).1 := by
  let start : Root.Stored := { root := b.root.onPackage (packagePathOf file) id }
  have htake : (b.takeIn file (.classes docs)).1 =
      { b with
        root := (start.putAll file docs.values).root
        diagnostics := b.diagnostics ++ (start.putAll file docs.values).diagnostics } := by
    rw [← Content.placed_eq_values hcontent]
    rfl
  have hstart : start.root.Consistent :=
    h.ready.consistent.onPackage _ (fun _ => rfl) fun _ => rfl
  have hplace : ∀ d ∈ docs.values, d.packagePath = packagePathOf file ∧ d.sourceFile = file := by
    intro d hd
    have hmem : d ∈ (Content.ofFile settings file source).documents := by
      rw [hcontent]
      exact hd
    exact Content.place_of_mem_documents hmem
  -- Creating the package moves no class, so that the documents go on from those of the batch.
  have hseen : ∀ q, start.root.classNamed? q =
      start.root.policy.held (documents settings files) q := by
    intro q
    show b.root.classNamed? q = b.root.policy.held _ q
    rw [h.classNamed?_eq, h.policy_eq]
  obtain ⟨hclasses, hdiagnostics⟩ :=
    Root.Stored.putAll_held hstart hseen fun d hd => (hplace d hd).2
  have hpolicy : start.root.policy = settings.collisionPolicy := h.policy_eq
  rw [hpolicy] at hclasses hdiagnostics
  have hdocuments : documents settings (files ++ [(file, source)]) =
      documents settings files ++ docs.values := by
    rw [documents_concat, hcontent]
    rfl
  constructor
  case ready => exact h.ready.takeIn file _
  case settings_eq => rw [settings_takeIn, h.settings_eq]
  case policy_eq => rw [policy_takeIn h.ready, h.policy_eq]
  case classNamed?_eq =>
    intro q
    rw [htake, hdocuments]
    exact hclasses q
  case collisions_eq =>
    rw [htake, hdocuments, CollisionPolicy.collisionsAfter_append, ← h.collisions_eq]
    show (b.diagnostics ++ (start.putAll file docs.values).diagnostics).filter _ = _
    rw [List.filter_append, hdiagnostics, List.nil_append, List.nil_append,
      CollisionPolicy.filter_collisionsAfter]
  case failures_eq =>
    rw [htake, failures_concat, hcontent, ← h.failures_eq]
    show (b.diagnostics ++ (start.putAll file docs.values).diagnostics).filter _ = _
    rw [List.filter_append, hdiagnostics, List.nil_append,
      CollisionPolicy.filter_ne_collisionsAfter]
    rfl
  case description?_eq =>
    rw [htake]
    refine h.description?_concat (f := (file, source)) (by rw [hcontent]; rfl) ?_
    intro path
    have hpackage : ∀ other, start.root.description? other =
        if other = packagePathOf file then some ((b.root.description? (packagePathOf file)).getD "")
        else b.root.description? other :=
      b.root.description?_onPackage_of_description _ fun _ => rfl
    -- The documents are put into a package that is there by now, and describe nothing.
    have hthere := (hpackage (packagePathOf file)).trans (if_pos rfl)
    show (start.putAll file docs.values).root.description? path = _
    rw [Root.Stored.description?_putAll hstart file (fun d hd => (hplace d hd).1) hthere,
      hpackage, hcontent]
    split
    · next hpath => rw [hpath]; rfl
    · rfl

/-- Taking in a description. -/
theorem takeIn_description (h : Aggregates settings files b) {file source text : String}
    (hcontent : Content.ofFile settings file source = .description text) :
    Aggregates settings (files ++ [(file, source)]) (b.takeIn file (.description text)).1 where
  ready := h.ready.takeIn file _
  settings_eq := h.settings_eq
  policy_eq := h.policy_eq
  classNamed?_eq := by
    intro q
    rw [documents_concat, hcontent, Content.documents, List.append_nil]
    exact h.classNamed?_eq q
  collisions_eq := by
    rw [documents_concat, hcontent, Content.documents, List.append_nil]
    exact h.collisions_eq
  failures_eq := by
    rw [failures_concat, hcontent, Content.failures, List.append_nil]
    exact h.failures_eq
  description?_eq := by
    refine h.description?_concat (f := (file, source)) (by rw [hcontent]; rfl) ?_
    intro path
    rw [hcontent]
    exact b.root.description?_onPackage _ (fun p => { p with description := text }) path

/-- Taking in a file that cannot be read. -/
theorem takeIn_failure (h : Aggregates settings files b) {file source message : String}
    {category : Category}
    (hcontent : Content.ofFile settings file source = .failure category message) :
    Aggregates settings (files ++ [(file, source)])
      (b.takeIn file (.failure category message)).1 where
  ready := h.ready.takeIn file _
  settings_eq := h.settings_eq
  policy_eq := h.policy_eq
  classNamed?_eq := by
    intro q
    rw [documents_concat, hcontent, Content.documents, List.append_nil]
    exact h.classNamed?_eq q
  collisions_eq := by
    rw [documents_concat, hcontent, Content.documents, List.append_nil, ← h.collisions_eq]
    show (b.diagnostics ++ [_]).filter _ = _
    rw [List.filter_append, List.filter_cons_of_neg, List.filter_nil, List.append_nil]
    simpa using Content.category_ofFile hcontent
  failures_eq := by
    rw [failures_concat, hcontent, Content.failures, ← h.failures_eq]
    show (b.diagnostics ++ [_]).filter _ = _
    rw [List.filter_append, List.filter_cons_of_pos, List.filter_nil]
    simpa using Content.category_ofFile hcontent
  description?_eq := by
    intro path
    -- a file that cannot be read has no package, so no description of one changes
    have hpackage : HasPackage settings (files ++ [(file, source)]) path ↔
        HasPackage settings files path := by
      rw [hasPackage_concat, hcontent]
      simp [Content.isReadable]
    have hlast : lastDescription settings (files ++ [(file, source)]) path =
        lastDescription settings files path := by
      rw [lastDescription_concat, hcontent]
      split <;> rfl
    simp only [hpackage, hlast]
    exact h.description?_eq path

/-- One more file. -/
theorem takeIn (h : Aggregates settings files b) (file source : String) :
    Aggregates settings (files ++ [(file, source)])
      (b.takeIn file (.ofFile settings file source)).1 := by
  cases hcontent : Content.ofFile settings file source with
  | classes docs => exact h.takeIn_classes hcontent
  | description text => exact h.takeIn_description hcontent
  | failure category message => exact h.takeIn_failure hcontent

/-- A further batch. -/
theorem takeInAll (h : Aggregates settings files b) (more : List (String × String)) :
    Aggregates settings (files ++ more) (b.takeInAll more).1 := by
  induction more generalizing files b with
  | nil =>
    rw [List.append_nil]
    exact h
  | cons f more ih =>
    obtain ⟨file, source⟩ := f
    rw [List.append_cons, Build.takeInAll, h.settings_eq]
    exact ih (h.takeIn file source)

end Aggregates

/-- What a batch comes to. -/
theorem aggregates_takeInAll (settings : Settings) (files : List (String × String)) :
    Aggregates settings files (takeInAll { settings } files).1 :=
  (Aggregates.initial settings).takeInAll files

/-- **A batch is the fold of its documents.** Whatever files a fresh build processes, none is
refused. The documents of a file are in order of their names and belong to it and to its package.
With the documents of all files behind each other: the qualified names are those of the documents;
each is held by the last document that has it, or by the first one if first ones are kept; a
collision is reported, unless that is to be silent, for each document whose name is held already;
the packages are those of the files that can be read, and each is described by its last
description. -/
theorem processAll_aggregates (settings : Settings) (files : List (String × String)) :
    ∃ b outcomes, processAll { settings } files = .ok (b, outcomes) ∧
      (∀ f ∈ files,
        ((Content.ofFile settings f.1 f.2).documents.map ClassDoc.name).Pairwise (· < ·) ∧
        ∀ d ∈ (Content.ofFile settings f.1 f.2).documents,
          d.packagePath = packagePathOf f.1 ∧ d.sourceFile = f.1) ∧
      (∀ q, q ∈ b.root.index.names ↔ ∃ d ∈ documents settings files, d.qualifiedName = q) ∧
      (∀ q, b.root.classNamed? q =
        settings.collisionPolicy.held (documents settings files) q) ∧
      b.diagnostics.filter (fun d => d.category = .classCollision) =
        settings.collisionPolicy.collisionsAfter [] (documents settings files) ∧
      (settings.collisionPolicy = .overwrite →
        b.diagnostics.filter (fun d => d.category = .classCollision) = []) ∧
      (∀ path, path ∈ b.root.packages.names ↔ HasPackage settings files path) ∧
      ∀ path p, b.root.packages.get? path = some p →
        p.description = lastDescription settings files path := by
  have h := aggregates_takeInAll settings files
  refine ⟨_, _, processAll_eq (ready_initial settings) files, ?_, ?_, h.classNamed?_eq,
    h.collisions_eq, ?_, ?_, ?_⟩
  · intro f _
    exact ⟨Content.sorted_names_documents settings f.1 f.2,
      fun d hd => Content.place_of_mem_documents hd⟩
  · intro q
    rw [h.ready.consistent.mem_names_index, h.classNamed?_eq, CollisionPolicy.isSome_held]
  · intro hpolicy
    rw [h.collisions_eq, hpolicy, CollisionPolicy.collisionsAfter_overwrite]
  · intro path
    -- a package is there exactly if it has a description, be it empty
    have hview := h.description?_eq path
    rw [NameMap.mem_names_iff]
    constructor
    · rintro ⟨p, hp⟩
      rw [Root.description?, hp] at hview
      by_contra hnone
      rw [if_neg hnone] at hview
      cases hview
    · intro hpackage
      rw [if_pos hpackage] at hview
      obtain ⟨p, hp, -⟩ := Option.map_eq_some_iff.1 hview
      exact ⟨p, hp⟩
  · intro path p hp
    have hlast := h.getD_description? path
    rw [Root.description?, hp] at hlast
    exact hlast

end Build

end ApiDoc
