import ApiDoc.Proofs.Doc.Declared
import ApiDoc.Proofs.Root.Reachable

/-!
# What a file adds to a build

What a file holds does not depend on the build that reads it: it is class documents, the description
of a package, or a failure (`Content.ofFile`), which says what is wrong with the file
(`Build.explains_of_failure`). An open build takes in the content of each file
(`process_eq`), so that a batch of files becomes a fold over their contents.

The documents that a file assembles already carry the name, the package and the file that they are
put under, so putting them into the root changes none of them (`placed_eq_values`).
-/

namespace ApiDoc

variable {settings : Settings} {file source : String} {docs : NameMap ClassDoc} {b : Build}

/-! ### The content of a file -/

/-- What a file holds. -/
inductive Content where
  /-- Class documents, by their names in the package of the file. -/
  | classes (docs : NameMap ClassDoc)
  /-- The description of the package. -/
  | description (text : String)
  /-- Nothing that can be read. -/
  | failure (category : Category) (message : String)

namespace Content

/-- Read the content of a file. -/
def ofFile (settings : Settings) (file source : String) : Content :=
  match FileKind.ofName file with
  | .description =>
    match Markup.Body.extract source with
    | .ok text => .description text
    | .error e => .failure .markup e.message
  | .source language =>
    match Build.classesOf settings language file source with
    | .ok docs => .classes docs
    | .error e => .failure e.category e.message

/-- Can the file be read? -/
def isReadable : Content → Bool
  | .classes _ | .description _ => true
  | .failure _ _ => false

/-- The class documents of a file, in order of their names. -/
def documents : Content → List ClassDoc
  | .classes docs => docs.values
  | .description _ | .failure _ _ => []

/-- The package description of a file. -/
def text? : Content → Option String
  | .description text => some text
  | .classes _ | .failure _ _ => none

/-- The failure of a file as a report. -/
def failures (file : String) : Content → List Diagnostic
  | .failure category message => [{ file, category, message }]
  | .classes _ | .description _ => []

end Content

/-! ### Why a file cannot be read -/

namespace Build

/-- A report says why a file cannot be read: its markup is malformed if it describes a package, and
otherwise it cannot be split into tokens or does not follow the grammar. -/
def Explains (d : Diagnostic) (file source : String) : Prop :=
  d.file = file ∧
    match FileKind.ofName file with
    | .description => ∃ e, Markup.Body.extract source = .error e ∧
        d.category = .markup ∧ d.message = e.message
    | .source language => ∃ e, language.parse source = .error e ∧
        d.category = (if e.fault.isLexical then .tokenStream else .grammar) ∧
        d.message = e.message

/-- Assembling never fails. -/
theorem parse_eq_error_of_classesOf {language : Syntax.Language} {e : Syntax.ParseError}
    (h : classesOf settings language file source = .error e) :
    language.parse source = .error e := by
  unfold classesOf at h
  cases hparse : language.parse source with
  | error e' =>
    rw [hparse] at h
    cases h
    rfl
  | ok tree =>
    rw [hparse] at h
    cases h

theorem explains_of_failure {message : String} {category : Category}
    (h : Content.ofFile settings file source = .failure category message) :
    Explains { file, category, message } file source := by
  refine ⟨rfl, ?_⟩
  unfold Content.ofFile at h
  cases hkind : FileKind.ofName file with
  | description =>
    rw [hkind] at h
    cases hbody : Markup.Body.extract source with
    | ok text => rw [hbody] at h; cases h
    | error e =>
      rw [hbody] at h
      cases h
      exact ⟨e, rfl, rfl, rfl⟩
  | source language =>
    rw [hkind] at h
    dsimp only at h
    cases hdocs : classesOf settings language file source with
    | ok docs => rw [hdocs] at h; cases h
    | error e =>
      rw [hdocs] at h
      cases h
      exact ⟨e, parse_eq_error_of_classesOf hdocs, rfl, rfl⟩

end Build

namespace Content

/-- A failure is about the text of the file: no class has been met. -/
theorem category_ofFile {category : Category} {message : String}
    (h : ofFile settings file source = .failure category message) : category ≠ .classCollision := by
  obtain ⟨-, hcause⟩ := Build.explains_of_failure h
  split at hcause
  · obtain ⟨e, -, hcategory, -⟩ := hcause
    rw [show category = .markup from hcategory]
    exact nofun
  · obtain ⟨e, -, hcategory, -⟩ := hcause
    rw [show category = _ from hcategory]
    split <;> exact nofun

/-- Class documents are assembled from the tree of a source file. -/
theorem exists_tree_of_ofFile (h : ofFile settings file source = .classes docs) :
    ∃ (language : Syntax.Language) (tree : Syntax.Tree Syntax.NodeKind),
      language.parse source = .ok tree ∧
      docs = ((Build.fileContext settings file).assemble tree).map
        fun d => { d with sourceFile := file } := by
  unfold ofFile at h
  split at h
  · split at h <;> cases h
  · next language _ =>
    split at h
    · next assembled hdocs =>
      cases h
      unfold Build.classesOf at hdocs
      cases hparse : language.parse source with
      | error e =>
        rw [hparse] at hdocs
        cases hdocs
      | ok tree =>
        rw [hparse] at hdocs
        cases hdocs
        exact ⟨language, tree, hparse, rfl⟩
    · cases h

/-- The documents of a file know where they belong. -/
theorem place_of_ofFile (h : ofFile settings file source = .classes docs) :
    ∀ e ∈ docs.entries,
      e.2.name = e.1 ∧ e.2.packagePath = packagePathOf file ∧ e.2.sourceFile = file := by
  obtain ⟨_, tree, -, rfl⟩ := exists_tree_of_ofFile h
  intro e he
  obtain ⟨e', he', rfl⟩ := List.mem_map.1 he
  obtain ⟨hname, hpath⟩ := (Build.fileContext settings file).place_of_mem_assemble tree e' he'
  exact ⟨hname, hpath, rfl⟩

theorem place_of_mem_documents {d : ClassDoc} (h : d ∈ (ofFile settings file source).documents) :
    d.packagePath = packagePathOf file ∧ d.sourceFile = file := by
  cases hcontent : ofFile settings file source with
  | classes docs =>
    rw [hcontent] at h
    obtain ⟨e, he, rfl⟩ := List.mem_map.1 h
    exact (place_of_ofFile hcontent e he).2
  | description text => rw [hcontent] at h; cases h
  | failure category message => rw [hcontent] at h; cases h

/-- The documents of a file are in order of their names. -/
theorem sorted_names_documents (settings : Settings) (file source : String) :
    ((ofFile settings file source).documents.map ClassDoc.name).Pairwise (· < ·) := by
  cases hcontent : ofFile settings file source with
  | classes docs =>
    have hnames : docs.values.map ClassDoc.name = docs.names := by
      rw [NameMap.values, NameMap.names, List.map_map]
      exact List.map_congr_left fun e he => (place_of_ofFile hcontent e he).1
    rw [documents, hnames]
    exact docs.sorted_names
  | description text => exact .nil
  | failure category message => exact .nil

/-- So they are put into the root as they are. -/
theorem placed_eq_values (h : ofFile settings file source = .classes docs) :
    Root.placed (packagePathOf file) docs = docs.values := by
  apply List.map_congr_left
  intro e he
  obtain ⟨hname, hpath, -⟩ := place_of_ofFile h e he
  rw [← hname, ← hpath]

end Content

/-! ### Taking in a file -/

namespace Build

open Root (Stored placed)

/-- A build that has taken in the content of a file, and what became of the file. -/
def takeIn (b : Build) (file : String) : Content → Build × FileOutcome
  | .classes docs =>
    let path := packagePathOf file
    let stored := Stored.putAll { root := b.root.onPackage path id } file (placed path docs)
    ({ b with root := stored.root, diagnostics := b.diagnostics ++ stored.diagnostics },
      .classes stored.ids)
  | .description text =>
    let path := packagePathOf file
    ({ b with root := b.root.onPackage path fun p => { p with description := text } },
      .description)
  | .failure category message => (b.report file category message, .skipped)

/-- **A file is refused if and only if the root is resolved**; otherwise its content is taken in. -/
theorem process_eq (b : Build) (file source : String) :
    b.process file source =
      if b.root.isResolved then .error (.alreadyResolved ("process " ++ file))
      else .ok (b.takeIn file (.ofFile b.settings file source)) := by
  refine (Root.checkOpen_bind b.root ("process " ++ file) _).trans ?_
  split
  · rfl
  · -- The root is asked again by `describe` and `put`, and is still open.
    next hopen =>
    unfold Content.ofFile
    cases FileKind.ofName file with
    | description =>
      dsimp only [addDescription]
      cases Markup.Body.extract source with
      | error e => rfl
      | ok text =>
        dsimp only
        rw [Root.describe_eq, if_neg hopen]
        rfl
    | source language =>
      dsimp only [addSource]
      cases classesOf b.settings language file source with
      | error e => rfl
      | ok docs =>
        dsimp only
        rw [Root.put_eq, if_neg hopen]
        rfl

/-- A build between two files: its root is consistent and takes in further files. -/
structure Ready (b : Build) : Prop where
  consistent : b.root.Consistent
  isOpen : b.root.isResolved = false

theorem ready_initial (settings : Settings) : Ready { settings } where
  consistent := .initial settings.collisionPolicy
  isOpen := rfl

@[simp] theorem settings_takeIn (b : Build) (file : String) (content : Content) :
    (b.takeIn file content).1.settings = b.settings := by
  cases content <;> rfl

/-- A build is ready again once it has taken in a file. -/
theorem Ready.takeIn (h : b.Ready) (file : String) (content : Content) :
    (b.takeIn file content).1.Ready := by
  cases content with
  | classes docs =>
    have hstart : (b.root.onPackage (packagePathOf file) id).Consistent :=
      h.consistent.onPackage _ (fun _ => rfl) fun _ => rfl
    exact
      { consistent := Stored.consistent_putAll hstart file _
        isOpen := Stored.isResolved_putAll hstart rfl file _ }
  | description text =>
    exact
      { consistent := h.consistent.onPackage (packagePathOf file)
          (f := fun p => { p with description := text }) (fun _ => rfl) fun _ => rfl
        isOpen := rfl }
  | failure category message => exact { h with }

theorem policy_takeIn (h : b.Ready) (file : String) (content : Content) :
    (b.takeIn file content).1.root.policy = b.root.policy := by
  cases content with
  | classes docs =>
    exact Stored.policy_putAll (h.consistent.onPackage _ (fun _ => rfl) fun _ => rfl) file _
  | description text => rfl
  | failure category message => rfl

/-! ### Batches of files -/

/-- Process files one after the other, up to the first one that is refused. Each file is a name and
a source. -/
def processAll (b : Build) : List (String × String) → Except RootError (Build × List FileOutcome)
  | [] => .ok (b, [])
  | (file, source) :: files => do
    let (b, outcome) ← b.process file source
    let (b, outcomes) ← b.processAll files
    return (b, outcome :: outcomes)

/-- Take in the contents of files one after the other. -/
def takeInAll (b : Build) : List (String × String) → Build × List FileOutcome
  | [] => (b, [])
  | (file, source) :: files =>
    let first := b.takeIn file (.ofFile b.settings file source)
    let rest := first.1.takeInAll files
    (rest.1, first.2 :: rest.2)

/-- A ready build refuses no file. -/
theorem processAll_eq (h : b.Ready) (files : List (String × String)) :
    b.processAll files = .ok (b.takeInAll files) := by
  induction files generalizing b with
  | nil => rfl
  | cons f files ih =>
    obtain ⟨file, source⟩ := f
    have hopen : ¬b.root.isResolved = true := by rw [h.isOpen]; exact nofun
    rw [processAll, process_eq, if_neg hopen, takeInAll]
    simp only [bind, Except.bind, ih (h.takeIn file _), pure, Except.pure]

end Build

end ApiDoc
