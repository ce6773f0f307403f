import ApiDoc.Proofs.Build.Aggregate

/-!
# A failed file leaves no trace but its report

A file that cannot be read is skipped: the build goes on as if the file had not been there, but for
one report (`skipped_file_is_contained`). The only call that fails is one on a resolved root.

A call that fails gives no new build, so that "it changes nothing" would hold of any definition of
`process`. To say it properly, processing is written down once more as a change in place
(`InPlace.process`), where what has been done before a failure stays done, and shown to be the same.
-/

namespace ApiDoc.Build

/-! ### Batches, piece by piece -/

theorem takeInAll_append (b : Build) (files more : List (String × String)) :
    b.takeInAll (files ++ more) =
      (((b.takeInAll files).1.takeInAll more).1,
        (b.takeInAll files).2 ++ ((b.takeInAll files).1.takeInAll more).2) := by
  induction files generalizing b with
  | nil => rfl
  | cons f files ih =>
    obtain ⟨file, source⟩ := f
    rw [List.cons_append, takeInAll, takeInAll, ih]
    rfl

theorem length_takeInAll (b : Build) (files : List (String × String)) :
    (b.takeInAll files).2.length = files.length := by
  induction files generalizing b with
  | nil => rfl
  | cons f files ih =>
    obtain ⟨file, source⟩ := f
    rw [takeInAll, List.length_cons, List.length_cons, ih]

@[simp] theorem settings_takeInAll (b : Build) (files : List (String × String)) :
    (b.takeInAll files).1.settings = b.settings := by
  induction files generalizing b with
  | nil => rfl
  | cons f files ih =>
    obtain ⟨file, source⟩ := f
    rw [takeInAll, ih, settings_takeIn]

/-- What became of a file in the middle of a batch. -/
theorem getElem?_takeInAll (b : Build) (front back : List (String × String))
    (file source : String) :
    (b.takeInAll (front ++ (file, source) :: back)).2[front.length]? =
      some ((b.takeInAll front).1.takeIn file (.ofFile b.settings file source)).2 := by
  rw [takeInAll_append, takeInAll, settings_takeInAll, ← length_takeInAll b front]
  dsimp only
  rw [List.getElem?_append_right (Nat.le_refl _), Nat.sub_self, List.getElem?_cons_zero]

/-! ### What was reported before does not matter -/

/-- The reports that taking in a file adds. -/
def news (b : Build) (file : String) : Content → List Diagnostic
  | .classes docs =>
    let path := packagePathOf file
    let stored := Root.Stored.putAll { root := b.root.onPackage path id } file
      (Root.placed path docs)
    stored.diagnostics
  | .description _ => []
  | .failure category message => [{ file, category, message }]

theorem takeIn_withDiagnostics (b : Build) (file : String) (content : Content)
    (before : List Diagnostic) :
    takeIn { b with diagnostics := before } file content =
      ({ (b.takeIn file content).1 with diagnostics := before ++ b.news file content },
        (b.takeIn file content).2) := by
  cases content with
  | classes docs => rfl
  | description text => rw [news, List.append_nil]; rfl
  | failure category message => rfl

/-- Earlier reports stay in front and change nothing else. -/
theorem takeInAll_withDiagnostics (b : Build) (files : List (String × String)) :
    ∃ added, ∀ before, takeInAll { b with diagnostics := before } files =
      ({ (b.takeInAll files).1 with diagnostics := before ++ added }, (b.takeInAll files).2) := by
  -- What is added must not depend on `before`, hence the order of the quantifiers.
  induction files generalizing b with
  | nil => exact ⟨[], fun before => by rw [List.append_nil]; rfl⟩
  | cons f files ih =>
    obtain ⟨file, source⟩ := f
    let content := Content.ofFile b.settings file source
    obtain ⟨added, hadded⟩ := ih (b.takeIn file content).1
    refine ⟨b.news file content ++ added, fun before => ?_⟩
    rw [takeInAll, takeInAll]
    dsimp only
    rw [takeIn_withDiagnostics, hadded, List.append_assoc]

/-! ### Skipped and refused files -/

theorem process_refused_iff (b : Build) (file source : String) :
    (∃ e, b.process file source = .error e) ↔ b.root.isResolved := by
  rw [process_eq]
  split
  · next hresolved => simp [hresolved]
  · next hopen => simp [hopen]

/-- Only files that cannot be read are skipped. -/
theorem takeIn_eq_skipped {b : Build} {file : String} {content : Content}
    (h : (b.takeIn file content).2 = .skipped) :
    ∃ category message, content = .failure category message := by
  cases content with
  | classes docs => cases h
  | description text => cases h
  | failure category message => exact ⟨category, message, rfl⟩

/-- Leaving out a skipped file in the middle of a batch. -/
theorem takeInAll_without_skipped (b : Build) {front : List (String × String)}
    (back : List (String × String)) {file source : String}
    (h : ((b.takeInAll front).1.takeIn file (.ofFile b.settings file source)).2 = .skipped) :
    ∃ d added, Explains d file source ∧
      (b.takeInAll (front ++ (file, source) :: back)).1.root =
        (b.takeInAll (front ++ back)).1.root ∧
      (b.takeInAll (front ++ (file, source) :: back)).1.diagnostics =
        (b.takeInAll front).1.diagnostics ++ d :: added ∧
      (b.takeInAll (front ++ back)).1.diagnostics = (b.takeInAll front).1.diagnostics ++ added ∧
      ∃ outcomes, (b.takeInAll (front ++ (file, source) :: back)).2 =
          (b.takeInAll front).2 ++ .skipped :: outcomes ∧
        (b.takeInAll (front ++ back)).2 = (b.takeInAll front).2 ++ outcomes := by
  obtain ⟨category, message, hcontent⟩ := takeIn_eq_skipped h
  let d : Diagnostic := { file, category, message }
  let reached := (b.takeInAll front).1
  -- The rest of the batch runs from `reached`, with the report of the file or without it.
  obtain ⟨added, hadded⟩ := takeInAll_withDiagnostics reached back
  have hwith : b.takeInAll (front ++ (file, source) :: back) =
      (({ (reached.takeInAll back).1 with
          diagnostics := (reached.diagnostics ++ [d]) ++ added } : Build),
        (b.takeInAll front).2 ++ .skipped :: (reached.takeInAll back).2) := by
    rw [takeInAll_append, takeInAll, settings_takeInAll, hcontent]
    dsimp only [takeIn, report]
    rw [hadded]
  have hwithout : b.takeInAll (front ++ back) =
      (({ (reached.takeInAll back).1 with diagnostics := reached.diagnostics ++ added } : Build),
        (b.takeInAll front).2 ++ (reached.takeInAll back).2) := by
    rw [takeInAll_append]
    exact congrArg (fun x : Build × List FileOutcome => (x.1, (b.takeInAll front).2 ++ x.2))
      (hadded reached.diagnostics)
  refine ⟨d, added, explains_of_failure hcontent, ?_, ?_, ?_, (reached.takeInAll back).2, ?_, ?_⟩
  · rw [hwith, hwithout]
  · rw [hwith, List.append_assoc]
    rfl
  · rw [hwithout]
  · rw [hwith]
  · rw [hwithout]

/-! ### Processing in place -/

/-- A change of a build. What it has done by the time it fails stays done. -/
abbrev InPlace := EStateM RootError Build

namespace InPlace

open Root (Stored placed)

/-- Fail if the root is resolved. -/
def checkOpen (operation : String) : InPlace Unit := do
  if (← get).root.isResolved then throw (.alreadyResolved operation)

/-- Change a package, which is created if need be. -/
def onPackage (path : String) (f : PackageDoc → PackageDoc) : InPlace Unit :=
  modify fun b => { b with root := b.root.onPackage path f }

/-- Report a problem with a file. -/
def report (file : String) (category : Category) (message : String) : InPlace FileOutcome := do
  modify fun b => b.report file category message
  return .skipped

/-- Store one class, behind those with the given numbers. -/
def putClass (file : String) (ids : List ClassId) (doc : ClassDoc) : InPlace (List ClassId) := do
  let b ← get
  let stored := Stored.put { root := b.root, ids, diagnostics := b.diagnostics } file doc
  set { b with root := stored.root, diagnostics := stored.diagnostics }
  return stored.ids

/-- Add a package description. -/
def describe (path text : String) : InPlace FileOutcome := do
  checkOpen "set a package description"
  onPackage path fun p => { p with description := text }
  return .description

/-- Add the classes of a file to its package. -/
def put (path file : String) (classes : NameMap ClassDoc) : InPlace FileOutcome := do
  checkOpen "add classes"
  onPackage path id
  return .classes (← (placed path classes).foldlM (putClass file) [])

/-- Add a file, one change after the other. -/
def process (file source : String) : InPlace FileOutcome := do
  checkOpen ("process " ++ file)
  match FileKind.ofName file with
  | .description =>
    match Markup.Body.extract source with
    | .error e => report file .markup e.message
    | .ok text => describe (packagePathOf file) text
  | .source language =>
    match classesOf (← get).settings language file source with
    | .error e => report file e.category e.message
    | .ok classes => put (packagePathOf file) file classes

theorem run_bind_of_eq_ok {α β : Type} {x : InPlace α} {b after : Build} {a : α}
    (h : x.run b = .ok a after) (f : α → InPlace β) : (x >>= f).run b = (f a).run after := by
  rw [EStateM.run] at h
  simp only [EStateM.run, bind, EStateM.bind, h]

theorem run_get (b : Build) : (get : InPlace Build).run b = .ok b b := rfl

theorem run_checkOpen (operation : String) (b : Build) :
    (checkOpen operation).run b =
      if b.root.isResolved then .error (.alreadyResolved operation) b else .ok () b := by
  refine (run_bind_of_eq_ok (run_get b) _).trans ?_
  split <;> rfl

theorem run_checkOpen_bind {α : Type} (operation : String) (x : InPlace α) (b : Build) :
    (checkOpen operation >>= fun _ => x).run b =
      if b.root.isResolved then .error (.alreadyResolved operation) b else x.run b := by
  have hcheck := run_checkOpen operation b
  split
  · next hresolved =>
    rw [if_pos hresolved, EStateM.run] at hcheck
    simp only [EStateM.run, bind, EStateM.bind, hcheck]
  · next hopen =>
    rw [if_neg hopen] at hcheck
    exact run_bind_of_eq_ok hcheck _

theorem put_withDiagnostics (s : Stored) (before : List Diagnostic) (file : String)
    (doc : ClassDoc) :
    Stored.put { s with diagnostics := before ++ s.diagnostics } file doc =
      { s.put file doc with diagnostics := before ++ (s.put file doc).diagnostics } := by
  unfold Stored.put
  dsimp only
  cases s.root.index.get? doc.qualifiedName with
  | none => rfl
  | some id =>
    dsimp only
    cases s.root.classes[id.index]? with
    | none => rfl
    | some previous =>
      dsimp only
      cases s.root.policy <;> simp only [List.append_assoc]

theorem putAll_withDiagnostics (s : Stored) (before : List Diagnostic) (file : String)
    (docs : List ClassDoc) :
    Stored.putAll { s with diagnostics := before ++ s.diagnostics } file docs =
      { s.putAll file docs with diagnostics := before ++ (s.putAll file docs).diagnostics } := by
  induction docs generalizing s with
  | nil => rfl
  | cons doc docs ih =>
    have hstep := ih (s.put file doc)
    rw [← put_withDiagnostics] at hstep
    exact hstep

theorem run_putClasses (file : String) (ids : List ClassId) (docs : List ClassDoc) (b : Build) :
    (docs.foldlM (putClass file) ids).run b =
      let stored := Stored.putAll { root := b.root, ids, diagnostics := b.diagnostics } file docs
      .ok stored.ids { b with root := stored.root, diagnostics := stored.diagnostics } := by
  induction docs generalizing ids b with
  | nil => rfl
  | cons doc docs ih =>
    let stored := Stored.put { root := b.root, ids, diagnostics := b.diagnostics } file doc
    exact ih stored.ids { b with root := stored.root, diagnostics := stored.diagnostics }

theorem run_describe (path text : String) {b : Build} (h : ¬b.root.isResolved) :
    (describe path text).run b =
      .ok .description
        { b with root := b.root.onPackage path fun p => { p with description := text } } := by
  rw [describe, run_checkOpen_bind, if_neg h]
  rfl

theorem run_put (path file : String) (classes : NameMap ClassDoc) {b : Build}
    (h : ¬b.root.isResolved) :
    (put path file classes).run b =
      let stored := Stored.putAll { root := b.root.onPackage path id } file (placed path classes)
      .ok (.classes stored.ids)
        { b with root := stored.root, diagnostics := b.diagnostics ++ stored.diagnostics } := by
  have hall := run_putClasses file [] (placed path classes)
    { b with root := b.root.onPackage path id }
  -- In place, collisions are reported behind what is there, and not collected first.
  have hdiagnostics := putAll_withDiagnostics { root := b.root.onPackage path id } b.diagnostics
    file (placed path classes)
  dsimp only at hall hdiagnostics
  rw [List.append_nil] at hdiagnostics
  rw [hdiagnostics] at hall
  rw [put, run_checkOpen_bind, if_neg h,
    run_bind_of_eq_ok (rfl : (onPackage path id).run b = .ok () _), run_bind_of_eq_ok hall]
  rfl

/-- Processing in place does what processing does, and what fails has done nothing. -/
theorem run_process (file source : String) (b : Build) :
    (InPlace.process file source).run b =
      match b.process file source with
      | .ok (after, outcome) => .ok outcome after
      | .error e => .error e b := by
  rw [process_eq, process, run_checkOpen_bind]
  split
  · rfl
  · -- The root is open; describing and putting ask once more and do not fail.
    next hopen =>
    unfold Content.ofFile
    cases FileKind.ofName file with
    | description =>
      dsimp only
      cases Markup.Body.extract source with
      | error e => rfl
      | ok text => exact run_describe _ text hopen
    | source language =>
      dsimp only
      rw [run_bind_of_eq_ok (run_get b)]
      cases classesOf b.settings language file source with
      | error e => rfl
      | ok classes => exact run_put _ file classes hopen

end InPlace

/-! ### Containment -/

theorem eraseIdx_middle {α : Type} (front : List α) (x : α) (back : List α) :
    (front ++ x :: back).eraseIdx front.length = front ++ back := by
  rw [List.eraseIdx_append_of_length_le (Nat.le_refl _), Nat.sub_self, List.eraseIdx_cons_zero]

/-- **A file that fails is contained.** A batch without one of its skipped files builds the same
root, and its reports lack just one, which says why the file is skipped. Only a resolved root makes
processing fail, and processing that fails has changed nothing. -/
theorem skipped_file_is_contained (settings : Settings) (files : List (String × String)) :
    (∃ b outcomes, processAll { settings } files = .ok (b, outcomes) ∧
      outcomes.length = files.length ∧
      ∀ i, outcomes[i]? = some .skipped → ∃ file source b' k d,
        files[i]? = some (file, source) ∧
        processAll { settings } (files.eraseIdx i) = .ok (b', outcomes.eraseIdx i) ∧
        b'.root = b.root ∧ b'.resolve.root = b.resolve.root ∧
        b.diagnostics[k]? = some d ∧ b'.diagnostics = b.diagnostics.eraseIdx k ∧
        Explains d file source) ∧
    ∀ (c : Build) (file source : String),
      ((∃ e, c.process file source = .error e) ↔ c.root.isResolved) ∧
      (∀ outcome after, (InPlace.process file source).run c = .ok outcome after ↔
        c.process file source = .ok (after, outcome)) ∧
      ∀ e after, (InPlace.process file source).run c = .error e after ↔
        c.process file source = .error e ∧ after = c := by
  have hrun := processAll_eq (ready_initial settings)
  constructor
  · refine ⟨(takeInAll { settings } files).1, (takeInAll { settings } files).2, hrun files,
      length_takeInAll _ files, fun i hi => ?_⟩
    have hlt : i < files.length := by
      rw [← length_takeInAll { settings } files]
      exact (List.getElem?_eq_some_iff.1 hi).1
    -- The file stands between the first `i` files and the others.
    obtain ⟨front, ⟨file, source⟩, back, rfl, rfl⟩ :
        ∃ front f back, files = front ++ f :: back ∧ front.length = i :=
      ⟨files.take i, files[i], files.drop (i + 1), by simp, by simp; omega⟩
    have hfront := length_takeInAll { settings } front
    have hskipped :=
      Option.some.inj ((getElem?_takeInAll { settings } front back file source).symm.trans hi)
    obtain ⟨d, added, hd, hroot, hwith, hwithout, outcomes, houtcomes, houtcomes'⟩ :=
      takeInAll_without_skipped { settings } back hskipped
    refine ⟨file, source, (takeInAll { settings } (front ++ back)).1,
      (takeInAll { settings } front).1.diagnostics.length, d, ?_, ?_, hroot.symm, ?_, ?_, ?_, hd⟩
    · simp
    · rw [eraseIdx_middle, hrun, houtcomes, ← hfront, eraseIdx_middle, ← houtcomes']
    · rw [resolve, resolve, hroot]
    · rw [hwith]
      simp
    · rw [hwith, hwithout, eraseIdx_middle]
  · intro c file source
    refine ⟨c.process_refused_iff file source, ?_⟩
    rw [InPlace.run_process]
    cases c.process file source with
    | error e => simp [eq_comm]
    | ok p => simp [Prod.ext_iff, and_comm]

/-- A malformed description between two classes. -/
theorem skipped_file_is_contained_between :
    ∃ b b', processAll { settings := {} }
        [("p/A.groovy", "class A {}"), ("p/package.html", "oops"), ("p/B.java", "class B {}")] =
        .ok (b, [.classes [⟨0⟩], .skipped, .classes [⟨1⟩]]) ∧
      processAll { settings := {} } [("p/A.groovy", "class A {}"), ("p/B.java", "class B {}")] =
        .ok (b', [.classes [⟨0⟩], .classes [⟨1⟩]]) ∧
      b'.root = b.root ∧
      ∃ k d, b.diagnostics[k]? = some d ∧ b'.diagnostics = b.diagnostics.eraseIdx k ∧
        Explains d "p/package.html" "oops" := by
  obtain ⟨⟨b, outcomes, hrun, -, hskip⟩, -⟩ := skipped_file_is_contained {}
    [("p/A.groovy", "class A {}"), ("p/package.html", "oops"), ("p/B.java", "class B {}")]
  have houtcomes : ((processAll { settings := {} }
      [("p/A.groovy", "class A {}"), ("p/package.html", "oops"), ("p/B.java", "class B {}")]).map
        Prod.snd).toOption = some [.classes [⟨0⟩], .skipped, .classes [⟨1⟩]] := by
    decide +kernel
  rw [hrun] at houtcomes
  cases houtcomes
  obtain ⟨file, source, b', k, d, hfile, hrest, hroot, -, hd, hdiagnostics, hexplains⟩ :=
    hskip 1 rfl
  cases hfile
  exact ⟨b, b', hrun, hrest, hroot, k, d, hd, hdiagnostics, hexplains⟩

end ApiDoc.Build
