import ApiDoc.Proofs.Build.Failure
import ApiDoc.Proofs.Build.Order

/-!
# Several files of one name

A name can stand for a file under each root of the source path. The search policy says which of them
are read, and a build of names is the build of the batch of files that it selects (`addNames_eq`).

If all of them are read, in the order of the source path, then the copies of a name collide in every
class that they share, and which copy is documented is up to the collision policy: the last one
where a later class replaces an earlier one, and the first one where first classes are kept
(`lastMatch_documents`).
-/

namespace ApiDoc

variable {b : Build} {classes : NameMap ClassDoc}

/-- The text of a file that was found. -/
def SourcePath.Found.text (f : SourcePath.Found) : String :=
  String.ofList (Text.Utf8.decode f.content.toList)

namespace CollisionPolicy

/-! ### Documents of which only some contend for a name -/

theorem held_eq_none {policy : CollisionPolicy} {docs : List ClassDoc} {q : String}
    (h : ∀ d ∈ docs, d.qualifiedName ≠ q) : policy.held docs q = none := by
  rw [← Option.not_isSome_iff_eq_none, isSome_held]
  rintro ⟨d, hd, hname⟩
  exact h d hd hname

/-- Of two lists of classes, the first one has precedence if first classes are kept, and the second
one otherwise. -/
theorem held_append (policy : CollisionPolicy) (docs more : List ClassDoc) (q : String) :
    policy.held (docs ++ more) q =
      if policy = .keepFirst then (policy.held docs q).or (policy.held more q)
      else (policy.held more q).or (policy.held docs q) := by
  unfold held
  rw [List.filter_append]
  cases policy with
  | keepFirst => exact List.head?_append
  | report => exact List.getLast?_append
  | overwrite => exact List.getLast?_append

/-- The class that holds a name among the classes of several groups, when one group alone brings
classes of that name. -/
theorem held_flatMap (policy : CollisionPolicy) {α : Type} [DecidableEq α]
    {group : α → List ClassDoc} {a : α} {q : String} {as : List α}
    (h : ∀ a' ∈ as, a' ≠ a → ∀ d ∈ group a', d.qualifiedName ≠ q) :
    policy.held (as.flatMap group) q = if a ∈ as then policy.held (group a) q else none := by
  induction as with
  | nil => exact policy.held_nil q
  | cons a' as ih =>
    have hrest := ih fun a'' ha'' => h a'' (List.mem_cons_of_mem _ ha'')
    rw [List.flatMap_cons, held_append, hrest]
    by_cases ha : a' = a
    · -- The group may come again further on, with the same class as here.
      subst ha
      rw [if_pos List.mem_cons_self]
      cases policy.held (group a') q with
      | none => simp
      | some d => by_cases hmore : a' ∈ as <;> simp [hmore]
    · have hnone : policy.held (group a') q = none :=
        held_eq_none (h a' List.mem_cons_self ha)
      simp [hnone, Ne.symm ha]

end CollisionPolicy

namespace Build

/-! ### The batch that names stand for -/

section

variable (settings : Settings) (tree : FileTree)

/-- The files of a name that are read. -/
def selected (name : String) : List SourcePath.Found :=
  match select settings tree name with
  | .files found => found
  | .ambiguous _ => []

/-- Files that are read under one name. -/
def under (name : String) (found : List SourcePath.Found) : List (String × String) :=
  found.map fun f => (name, f.text)

/-- The files that some names stand for, in the order in which they are read. -/
def batch (names : List String) : List (String × String) :=
  names.flatMap fun name => under name (selected settings tree name)

end

theorem Ready.takeInAll (h : b.Ready) (files : List (String × String)) :
    (b.takeInAll files).1.Ready := by
  induction files generalizing b with
  | nil => exact h
  | cons f files ih =>
    obtain ⟨file, source⟩ := f
    rw [Build.takeInAll]
    exact ih (h.takeIn file (.ofFile b.settings file source))

/-- A ready build takes in all files of a name. -/
theorem addFiles_eq (h : b.Ready) (name : String) (found : List SourcePath.Found) :
    addFiles name b found = ((b.takeInAll (under name found)).1, none) := by
  induction found generalizing b with
  | nil => rfl
  | cons f fs ih =>
    have hprocess : b.process name (String.ofList (Text.Utf8.decode f.content.toList)) =
        .ok (b.takeIn name (.ofFile b.settings name f.text)) := by
      rw [process_eq, h.isOpen]
      rfl
    have hready := h.takeIn name (.ofFile b.settings name f.text)
    rw [addFiles, hprocess, under, List.map_cons, takeInAll]
    generalize b.takeIn name (.ofFile b.settings name f.text) = step at hready ⊢
    obtain ⟨b', outcome⟩ := step
    exact ih hready

/-- **Adding names is taking in the batch that they stand for.** The reports differ, since names
that are ambiguous are reported as well. -/
theorem addNames_eq (tree : FileTree) (h : b.Ready) (names : List String) :
    ∃ diagnostics, addNames tree b names =
      ({ (b.takeInAll (batch b.settings tree names)).1 with diagnostics }, none) := by
  induction names generalizing b with
  | nil => exact ⟨b.diagnostics, rfl⟩
  | cons name names ih =>
    unfold addNames
    cases hselect : select b.settings tree name with
    | files found =>
      have hbatch : batch b.settings tree (name :: names) =
          under name found ++ batch b.settings tree names := by
        simp [batch, selected, hselect]
      obtain ⟨diagnostics, hrest⟩ := ih (h.takeInAll (under name found))
      refine ⟨diagnostics, ?_⟩
      simp only [addFiles_eq h]
      rw [hrest, hbatch, takeInAll_append, settings_takeInAll]
    | ambiguous paths =>
      have hbatch : batch b.settings tree (name :: names) = batch b.settings tree names := by
        simp [batch, selected, hselect, under]
      obtain ⟨added, hreports⟩ := b.takeInAll_withDiagnostics (batch b.settings tree names)
      obtain ⟨diagnostics, hrest⟩ := ih (b := b.report name .ambiguousSource
        ("found under more than one source root: " ++ ", ".intercalate paths))
        ⟨h.consistent, h.isOpen⟩
      refine ⟨diagnostics, hrest.trans ?_⟩
      -- The report is all that this name changes.
      rw [hbatch]
      unfold report
      rw [hreports]

/-! ### All copies of a name -/

section

variable (settings : Settings) (tree : FileTree)

/-- The class documents of all files of a name, in the order of the source path. -/
def copies (name : String) : List ClassDoc :=
  documents settings (under name (settings.sourcePath.locate tree name))

/-- No class is declared under two of the names. -/
def Separate (names : List String) : Prop :=
  ∀ name ∈ names, ∀ other ∈ names, other ≠ name →
    ∀ d ∈ copies settings tree name, ∀ e ∈ copies settings tree other,
      e.qualifiedName ≠ d.qualifiedName

instance (names : List String) : Decidable (Separate settings tree names) :=
  inferInstanceAs (Decidable (∀ name ∈ names, ∀ other ∈ names, _ → ∀ d ∈ _, ∀ e ∈ _, _))

end

variable {settings : Settings} {tree : FileTree}

theorem documents_batch_lastMatch (h : settings.searchPolicy = .lastMatch) (names : List String) :
    documents settings (batch settings tree names) = names.flatMap (copies settings tree) := by
  unfold documents batch
  rw [List.flatMap_assoc]
  apply List.flatMap_congr
  intro name _
  simp [selected, select, h, copies, documents]

theorem ofFile_of_classesOf {language : Syntax.Language} {file source : String}
    (hkind : FileKind.ofName file = .source language)
    (h : classesOf settings language file source = .ok classes) :
    Content.ofFile settings file source = .classes classes := by
  unfold Content.ofFile
  rw [hkind]
  simp only [h]

/-- The classes of the last copy of a name come last. -/
theorem copies_eq_append {name : String} {f : SourcePath.Found}
    (hlast : (settings.sourcePath.locate tree name).getLast? = some f)
    (hclasses : Content.ofFile settings name f.text = .classes classes) :
    ∃ earlier, copies settings tree name = earlier ++ classes.values := by
  obtain ⟨earlier, hfound⟩ := List.getLast?_eq_some_iff.1 hlast
  refine ⟨documents settings (under name earlier), ?_⟩
  rw [copies, hfound, under, List.map_append, List.map_singleton, documents_concat, hclasses]
  rfl

/-- So they are the ones that are held, unless first classes are kept. -/
theorem held_append_of_mem {file source : String}
    (hclasses : Content.ofFile settings file source = .classes classes) {policy : CollisionPolicy}
    (hpolicy : policy ≠ .keepFirst) (earlier : List ClassDoc) {doc : ClassDoc}
    (hdoc : doc ∈ classes.values) :
    policy.held (earlier ++ classes.values) doc.qualifiedName = some doc := by
  have hnodup := nodup_documents_ofFile settings file source
  rw [hclasses] at hnodup
  have hown : policy.held classes.values doc.qualifiedName = some doc :=
    (policy.held_eq_some_iff hnodup).2 ⟨hdoc, rfl⟩
  rw [CollisionPolicy.held_append, if_neg hpolicy, hown, Option.some_or]

/-- **Which copy is documented where all copies are read.** No name is refused. If the last copy of
a name can be read, then each of its classes is documented by the document of that copy, provided
that a later class replaces an earlier one. If first classes are kept, then it is documented by the
document of the first copy that can be read and declares it, so that the last copy is passed over
wherever an earlier one declares the class. -/
theorem lastMatch_documents {names : List String} (hsearch : settings.searchPolicy = .lastMatch)
    (hseparate : Separate settings tree names) :
    ∃ b, addNames tree { settings } names = (b, none) ∧
      ∀ name ∈ names, ∀ (f : SourcePath.Found) (language : Syntax.Language)
          (classes : NameMap ClassDoc),
        (settings.sourcePath.locate tree name).getLast? = some f →
        FileKind.ofName name = .source language →
        classesOf settings language name f.text = .ok classes →
        ∀ doc ∈ classes.values,
          (settings.collisionPolicy ≠ .keepFirst →
            b.resolve.root.classNamed? doc.qualifiedName =
              some (Root.resolveClass b.root.index doc)) ∧
          (settings.collisionPolicy = .keepFirst →
            ∃ first, (copies settings tree name).find?
                (fun d => d.qualifiedName = doc.qualifiedName) = some first ∧
              b.resolve.root.classNamed? doc.qualifiedName =
                some (Root.resolveClass b.root.index first)) := by
  obtain ⟨diagnostics, hadd⟩ := addNames_eq tree (ready_initial settings) names
  refine ⟨_, hadd, ?_⟩
  intro name hname f language classes hlast hkind hclasses doc hdoc
  have hcontent := ofFile_of_classesOf hkind hclasses
  obtain ⟨earlier, hcopies⟩ := copies_eq_append hlast hcontent
  have hmem : doc ∈ copies settings tree name := by
    rw [hcopies]
    exact List.mem_append_right _ hdoc
  have haggregates := aggregates_takeInAll settings (batch settings tree names)
  generalize (takeInAll { settings } (batch settings tree names)).1 = b at *
  -- The files of the other names do not contend for the class.
  have hheld : b.root.classNamed? doc.qualifiedName =
      settings.collisionPolicy.held (copies settings tree name) doc.qualifiedName := by
    rw [haggregates.classNamed?_eq, documents_batch_lastMatch hsearch,
      CollisionPolicy.held_flatMap (a := name), if_pos hname]
    intro other hother hne e he
    exact hseparate name hname other hother hne doc hmem e he
  have hfinal : b.root.resolve.classNamed? doc.qualifiedName =
      (b.root.classNamed? doc.qualifiedName).map (Root.resolveClass b.root.index) :=
    Root.classNamed?_resolve haggregates.ready.isOpen _
  constructor
  · intro hpolicy
    show b.root.resolve.classNamed? doc.qualifiedName = _
    rw [hfinal, hheld, hcopies, held_append_of_mem hcontent hpolicy earlier hdoc, Option.map_some]
  · intro hpolicy
    have hfirst : settings.collisionPolicy.held (copies settings tree name) doc.qualifiedName =
        (copies settings tree name).find? fun d => d.qualifiedName = doc.qualifiedName := by
      rw [hpolicy]
      exact List.head?_filter
    have hsome := (settings.collisionPolicy.isSome_held (copies settings tree name)
      doc.qualifiedName).2 ⟨doc, hmem, rfl⟩
    obtain ⟨first, hsome⟩ := Option.isSome_iff_exists.1 hsome
    refine ⟨first, hfirst.symm.trans hsome, ?_⟩
    show b.root.resolve.classNamed? doc.qualifiedName = _
    rw [hfinal, hheld, hsome, Option.map_some]

/-- A file under two roots: a class without members, and later one with a property. -/
def twoCopies : FileTree :=
  .dir
    [("x", .dir [("A.groovy", .file "class A \x7b \x7d".toUTF8)]),
      ("y", .dir [("A.groovy", .file "class A \x7b def b \x7d".toUTF8)])]

/-- Both roots are searched, and all copies are read. -/
def bothRoots (policy : CollisionPolicy) : Settings :=
  { sourcePath := ["x", "y"], searchPolicy := .lastMatch, collisionPolicy := policy }

/-- The last copy can be read. -/
theorem exists_last_twoCopies (policy : CollisionPolicy) :
    ∃ f classes, ((bothRoots policy).sourcePath.locate twoCopies "A.groovy").getLast? = some f ∧
      classesOf (bothRoots policy) .groovy "A.groovy" f.text = .ok classes ∧
      ∃ doc ∈ classes.values, doc.qualifiedName = "A" ∧
        doc.properties.map FieldDoc.name = ["b"] := by
  have hread : (((bothRoots policy).sourcePath.locate twoCopies "A.groovy").getLast?.bind fun f =>
      (classesOf (bothRoots policy) .groovy "A.groovy" f.text).toOption).map (fun classes =>
        classes.values.map fun doc => (doc.qualifiedName, doc.properties.map FieldDoc.name)) =
      some [("A", ["b"])] := by
    cases policy <;> decide +kernel
  obtain ⟨classes, hsome, hvalues⟩ := Option.map_eq_some_iff.1 hread
  obtain ⟨f, hlast, hclasses⟩ := Option.bind_eq_some_iff.1 hsome
  obtain ⟨doc, hdoc, hnames⟩ := List.map_eq_singleton_iff.1 hvalues
  have hok : classesOf (bothRoots policy) .groovy "A.groovy" f.text = .ok classes := by
    cases hparsed : classesOf (bothRoots policy) .groovy "A.groovy" f.text with
    | error e => rw [hparsed] at hclasses; cases hclasses
    | ok parsed => rw [hparsed] at hclasses; cases hclasses; rfl
  rw [Prod.mk.injEq] at hnames
  refine ⟨f, classes, hlast, hok, doc, ?_, hnames⟩
  rw [hdoc]
  exact List.mem_singleton_self doc

/-- The copy under the second root replaces the other one. -/
theorem lastMatch_documents_property :
    let settings := bothRoots .report
    settings.searchPolicy = .lastMatch ∧ Separate settings twoCopies ["A.groovy"] ∧
      ∃ b, addNames twoCopies { settings } ["A.groovy"] = (b, none) ∧
        ∃ doc, doc.properties.map FieldDoc.name = ["b"] ∧
          b.resolve.root.classNamed? "A" = some (Root.resolveClass b.root.index doc) := by
  intro settings
  have hseparate : Separate settings twoCopies ["A.groovy"] := by decide +kernel
  obtain ⟨b, hadd, hcopies⟩ := lastMatch_documents rfl hseparate
  obtain ⟨f, classes, hlast, hclasses, doc, hdoc, hname, hproperties⟩ :=
    exists_last_twoCopies .report
  obtain ⟨hreplaced, -⟩ := hcopies "A.groovy" List.mem_cons_self f .groovy classes hlast
    (by decide +kernel) hclasses doc hdoc
  refine ⟨rfl, hseparate, b, hadd, doc, hproperties, ?_⟩
  rw [← hname]
  exact hreplaced (by decide)

/-- Where first classes are kept, the class is documented by the copy under the first root, although
the last copy can be read. -/
theorem lastMatch_keeps_first_copy :
    let settings := bothRoots .keepFirst
    let b := (addNames twoCopies { settings } ["A.groovy"]).1
    ∃ f classes, (settings.sourcePath.locate twoCopies "A.groovy").getLast? = some f ∧
      classesOf settings .groovy "A.groovy" f.text = .ok classes ∧
      ∃ doc ∈ classes.values, b.resolve.root.classNamed? doc.qualifiedName ≠
        some (Root.resolveClass b.root.index doc) := by
  intro settings b
  obtain ⟨f, classes, hlast, hclasses, doc, hdoc, hname, hproperties⟩ :=
    exists_last_twoCopies .keepFirst
  refine ⟨f, classes, hlast, hclasses, doc, hdoc, ?_⟩
  -- The document of the class has no property.
  have hfirst : (b.resolve.root.classNamed? "A").map
      (fun doc => doc.properties.map FieldDoc.name) = some [] := by
    decide +kernel
  have hnames : (Root.resolveClass b.root.index doc).properties.map FieldDoc.name = ["b"] := by
    rw [← hproperties]
    simp [Root.resolveClass, ClassDoc.mapTypeRefs]
  rw [hname]
  intro hdocumented
  rw [hdocumented, Option.map_some, hnames] at hfirst
  cases hfirst

end Build

end ApiDoc
