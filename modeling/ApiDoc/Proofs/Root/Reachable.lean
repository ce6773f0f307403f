import ApiDoc.Proofs.Root.Listing

/-!
# Roots that operations lead to

A root starts empty and changes by four operations, in any order. Each of them keeps it consistent
and moves no number, so the two indices never come apart: `consistent_performAll` is the run lemma,
and `reachable_root_in_step` says what it means for the index, the packages, the check and the
report.
-/

namespace ApiDoc.Root

variable {r : Root}

/-! ### Operations -/

/-- The operations that change a root. -/
inductive Operation where
  | ensurePackage (path : String)
  | describe (path description : String)
  | put (path file : String) (classes : NameMap ClassDoc)
  | resolve

/-- The root behind an attempt to change it. One that is refused leaves the root as it is. -/
def behind (r : Root) : Except RootError Root → Root
  | .ok changed => changed
  | .error _ => r

/-- Carry out an operation. -/
def perform (r : Root) : Operation → Root
  | .ensurePackage path => r.behind (r.ensurePackage path)
  | .describe path description => r.behind (r.describe path description)
  | .put path file classes => r.behind ((r.put path file classes).map Stored.root)
  | .resolve => r.resolve

/-- Carry out operations one after the other. -/
def performAll (r : Root) (operations : List Operation) : Root :=
  operations.foldl perform r

theorem ensurePackage_eq (r : Root) (path : String) :
    r.ensurePackage path =
      if r.isResolved then .error (.alreadyResolved "create a package")
      else .ok (r.onPackage path id) :=
  checkOpen_bind r "create a package" _

theorem describe_eq (r : Root) (path description : String) :
    r.describe path description =
      if r.isResolved then .error (.alreadyResolved "set a package description")
      else .ok (r.onPackage path fun p => { p with description }) :=
  checkOpen_bind r "set a package description" _

theorem resolve_eq (h : r.isResolved = false) :
    r.resolve =
      { r with
        classes := r.classes.map (resolveClass r.index)
        summary := summarize (r.classes.map (resolveClass r.index))
        stage := .resolved } := by
  rw [resolve, if_neg (by rw [h]; exact Bool.false_ne_true)]

/-- A resolved root stays as it is. -/
theorem perform_of_isResolved (h : r.isResolved = true) (operation : Operation) :
    r.perform operation = r := by
  cases operation with
  | ensurePackage path => rw [perform, ensurePackage_eq, if_pos h]; rfl
  | describe path description => rw [perform, describe_eq, if_pos h]; rfl
  | put path file classes => rw [perform, put_eq, if_pos h]; rfl
  | resolve => rw [perform, resolve, if_pos h]

/-- What an operation does to a root that is not resolved: it changes what is said of a package,
puts classes into one, or resolves the root. -/
theorem perform_cases (h : r.isResolved = false) (operation : Operation) :
    (∃ path f, (∀ p : PackageDoc, (f p).path = p.path) ∧ (∀ p, (f p).classes = p.classes) ∧
      r.perform operation = r.onPackage path f) ∨
    (∃ path file docs,
      r.perform operation = (Stored.putAll { root := r.onPackage path id } file docs).root) ∨
    r.perform operation =
      { r with
        classes := r.classes.map (resolveClass r.index)
        summary := summarize (r.classes.map (resolveClass r.index))
        stage := .resolved } := by
  have hopen : ¬r.isResolved = true := by rw [h]; exact nofun
  cases operation with
  | ensurePackage path =>
    refine .inl ⟨path, id, fun _ => rfl, fun _ => rfl, ?_⟩
    rw [perform, ensurePackage_eq, if_neg hopen, behind]
  | describe path description =>
    refine .inl ⟨path, fun p => { p with description }, fun _ => rfl, fun _ => rfl, ?_⟩
    rw [perform, describe_eq, if_neg hopen, behind]
  | put path file classes =>
    refine .inr (.inl ⟨path, file, placed path classes, ?_⟩)
    rw [perform, put_eq, if_neg hopen]
    rfl
  | resolve => exact .inr (.inr (by rw [perform, resolve_eq h]))

/-! ### What operations keep -/

/-- Looking up the types of classes moves none of them. -/
theorem Consistent.resolved (h : r.Consistent) (index : NameMap ClassId) (summary : Summary) :
    Consistent { r with
      classes := r.classes.map (resolveClass index), summary, stage := .resolved } where
  indexed_iff := by
    intro q id
    rw [h.indexed_iff, List.getElem?_map]
    cases r.classes[id.index]? with
    | none => simp
    | some doc => simp [show (resolveClass index doc).qualifiedName = doc.qualifiedName from rfl]
  held_iff := by
    intro path name id
    show r.idIn? path name = some id ↔ _
    rw [h.held_iff, List.getElem?_map]
    cases r.classes[id.index]? with
    | none => simp
    | some doc =>
      simp [show (resolveClass index doc).packagePath = doc.packagePath from rfl,
        show (resolveClass index doc).name = doc.name from rfl]
  pathsKnown := h.pathsKnown
  packages_eq_of_empty := nofun

theorem consistent_perform (h : r.Consistent) (operation : Operation) :
    (r.perform operation).Consistent := by
  cases hresolved : r.isResolved with
  | true =>
    rw [perform_of_isResolved hresolved]
    exact h
  | false =>
    rcases perform_cases hresolved operation with
      ⟨path, f, hpath, hclasses, heq⟩ | ⟨path, file, docs, heq⟩ | heq <;> rw [heq]
    · exact h.onPackage path hpath hclasses
    · exact Stored.consistent_putAll (h.onPackage path (fun _ => rfl) fun _ => rfl) file docs
    · exact h.resolved _ _

/-- A qualified name keeps its number. -/
theorem get?_index_perform (h : r.Consistent) (operation : Operation) {q : String} {id : ClassId}
    (hid : r.index.get? q = some id) : (r.perform operation).index.get? q = some id := by
  cases hresolved : r.isResolved with
  | true =>
    rw [perform_of_isResolved hresolved]
    exact hid
  | false =>
    rcases perform_cases hresolved operation with
      ⟨path, f, -, -, heq⟩ | ⟨path, file, docs, heq⟩ | heq <;> rw [heq]
    · exact hid
    · exact Stored.get?_index_putAll (h.onPackage path (fun _ => rfl) fun _ => rfl) file docs hid
    · exact hid

theorem consistent_performAll (h : r.Consistent) (operations : List Operation) :
    (r.performAll operations).Consistent := by
  induction operations generalizing r with
  | nil => exact h
  | cons operation operations ih => exact ih (consistent_perform h operation)

theorem get?_index_performAll (h : r.Consistent) (operations : List Operation) {q : String}
    {id : ClassId} (hid : r.index.get? q = some id) :
    (r.performAll operations).index.get? q = some id := by
  induction operations generalizing r with
  | nil => exact hid
  | cons operation operations ih =>
    exact ih (consistent_perform h operation) (get?_index_perform h operation hid)

/-! ### Reachable roots -/

open Report (Listing ClassEntry)

/-- **The parts of a root never come apart.** Whatever operations lead to a root, its index is a
bijection from qualified names onto slots, each slot is held by the package of its class under the
name of its class and nowhere else, and numbers last. So the root passes its check, and a report
lists its classes once in order of their names, and once package by package. -/
theorem reachable_root_in_step (policy : CollisionPolicy) (operations : List Operation) :
    let r := ({ policy } : Root).performAll operations
    -- the index is a bijection from the qualified names onto the slots
    (∀ q id, r.index.get? q = some id → id.index < r.classes.length) ∧
    (∀ i < r.classes.length, ∃! q, r.index.get? q = some ⟨i⟩) ∧
    -- a slot is indexed under the qualified name of its class
    (∀ q id doc, r.index.get? q = some id → r.classes[id.index]? = some doc →
      qualify doc.packagePath doc.name = q) ∧
    -- a slot is held where its class belongs, and nothing else is held
    (∀ path name id, r.idIn? path name = some id ↔
      ∃ doc, r.classes[id.index]? = some doc ∧ doc.packagePath = path ∧ doc.name = name) ∧
    -- a qualified name keeps its number
    (∀ further q id, r.index.get? q = some id →
      (r.performAll further).index.get? q = some id) ∧
    (r.stage = .empty → r.packages = ∅) ∧
    r.check = .ok () ∧
    -- a report lists every class once, in order, and names the same classes package by package
    ∀ resolution diagnostics,
      let listing := Listing.ofRoot r resolution diagnostics
      let names := listing.classes.map ClassEntry.qualifiedName
      listing.classes.Perm (r.classes.map ClassEntry.ofDoc) ∧
      names.Pairwise (· < ·) ∧
      (listing.packages.flatMap fun p => p.classes.map (qualify p.path)).Perm names := by
  intro r
  have h : r.Consistent := consistent_performAll (.initial policy) operations
  refine ⟨?_, ?_, ?_, fun _ _ _ => h.held_iff, ?_, h.packages_eq_of_empty, h.check_eq_ok, ?_⟩
  · intro q id hid
    obtain ⟨doc, hdoc, -⟩ := h.indexed_iff.1 hid
    exact (List.getElem?_eq_some_iff.1 hdoc).1
  · intro i hi
    have hdoc : r.classes[i]? = some r.classes[i] := List.getElem?_eq_getElem hi
    refine ⟨r.classes[i].qualifiedName, h.indexed_iff.2 ⟨_, hdoc, rfl⟩, ?_⟩
    intro q hq
    obtain ⟨doc, hdoc', hname⟩ := h.indexed_iff.1 hq
    rw [hdoc] at hdoc'
    cases hdoc'
    exact hname.symm
  · intro q id doc hid hdoc
    obtain ⟨d, hd, hname⟩ := h.indexed_iff.1 hid
    rw [hdoc] at hd
    cases hd
    exact hname
  · intro further q id hid
    exact get?_index_performAll h further hid
  · intro resolution diagnostics listing names
    have hnames : names = r.index.names := h.qualifiedNames_listing resolution diagnostics
    refine ⟨?_, ?_, ?_⟩
    · show listing.classes.Perm _
      rw [h.classes_listing]
      exact h.sortedClasses_perm.map ClassEntry.ofDoc
    · rw [hnames]
      exact r.index.sorted_names
    · rw [hnames, h.packages_listing]
      exact h.qualify_places_perm

end ApiDoc.Root
