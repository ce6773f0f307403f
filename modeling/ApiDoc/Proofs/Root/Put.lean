import ApiDoc.Proofs.Root.Consistency

/-!
# Adding classes to a root document

What adding classes does, seen through the two questions that a consistent root answers: which class
has a qualified name, and how a package is described. One class is put by `Stored.put`, in one of
three ways (`Stored.put_cases`); the classes of a file are put one after the other.

The collision policy enters in two places only: which of two classes of one name stays
(`CollisionPolicy.winner`) and what is reported (`CollisionPolicy.reports`).
-/

namespace ApiDoc

variable {q text : String} {doc : ClassDoc} {r : Root} {docs : List ClassDoc}

/-! ### What a policy decides -/

namespace CollisionPolicy

/-- Of the class that holds a qualified name, if there is one, and a new class of that name, the one
that holds it then. -/
def winner : CollisionPolicy → Option ClassDoc → ClassDoc → ClassDoc
  | .keepFirst, some first, _ => first
  | _, _, doc => doc

/-- What is reported when a class of `file` meets the class that holds its qualified name. -/
def reports : CollisionPolicy → String → Option ClassDoc → ClassDoc → List Diagnostic
  | .report, file, some previous, doc => [Root.replacedDiagnostic file previous doc]
  | .keepFirst, file, some previous, doc => [Root.keptDiagnostic file previous doc]
  | _, _, _, _ => []

/-- The class that holds a qualified name after classes came one after the other: the first one of
the name if first ones are kept, and the last one otherwise. -/
def held (policy : CollisionPolicy) (docs : List ClassDoc) (q : String) : Option ClassDoc :=
  let named := docs.filter fun d => d.qualifiedName = q
  match policy with
  | .keepFirst => named.head?
  | .overwrite | .report => named.getLast?

/-- What is reported while classes come one after the other, when those in `seen` came before. -/
def collisionsAfter (policy : CollisionPolicy) : List ClassDoc → List ClassDoc → List Diagnostic
  | _, [] => []
  | seen, d :: ds =>
    policy.reports d.sourceFile (policy.held seen d.qualifiedName) d
      ++ policy.collisionsAfter (seen ++ [d]) ds

@[simp] theorem held_nil (policy : CollisionPolicy) (q : String) : policy.held [] q = none := by
  cases policy <;> rfl

/-- A further class contends for its own qualified name alone. -/
theorem held_concat (policy : CollisionPolicy) (docs : List ClassDoc) (d : ClassDoc) (q : String) :
    policy.held (docs ++ [d]) q =
      if q = d.qualifiedName then some (policy.winner (policy.held docs q) d)
      else policy.held docs q := by
  split
  · next hq =>
    have hfilter : (docs ++ [d]).filter (fun d => d.qualifiedName = q) =
        docs.filter (fun d => d.qualifiedName = q) ++ [d] := by
      rw [List.filter_append, List.filter_cons_of_pos (by simp [hq]), List.filter_nil]
    unfold held
    rw [hfilter]
    cases policy with
    | keepFirst => cases docs.filter fun d => d.qualifiedName = q <;> rfl
    | report => exact List.getLast?_concat
    | overwrite => exact List.getLast?_concat
  · next hq =>
    have hfilter : (docs ++ [d]).filter (fun d => d.qualifiedName = q) =
        docs.filter (fun d => d.qualifiedName = q) := by
      rw [List.filter_append, List.filter_cons_of_neg (by simpa using Ne.symm hq), List.filter_nil,
        List.append_nil]
    unfold held
    rw [hfilter]

/-- A name is held if and only if a class of that name came. -/
theorem isSome_held (policy : CollisionPolicy) (docs : List ClassDoc) (q : String) :
    (policy.held docs q).isSome ↔ ∃ d ∈ docs, d.qualifiedName = q := by
  have hnamed : docs.filter (fun d => d.qualifiedName = q) ≠ [] ↔
      ∃ d ∈ docs, d.qualifiedName = q := by
    rw [Ne, List.filter_eq_nil_iff]
    simp
  rw [← hnamed]
  unfold held
  cases policy <;> simp

/-- The class that holds a name has it, and is one of those that came. -/
theorem mem_of_held {policy : CollisionPolicy} {d : ClassDoc} (h : policy.held docs q = some d) :
    d ∈ docs ∧ d.qualifiedName = q := by
  have hmem : d ∈ docs.filter fun d => d.qualifiedName = q := by
    unfold held at h
    cases policy with
    | keepFirst => exact List.mem_of_head? h
    | report => exact List.mem_of_getLast? h
    | overwrite => exact List.mem_of_getLast? h
  simpa using hmem

end CollisionPolicy

namespace Root

/-! ### The class of a qualified name -/

/-- In a consistent root, the class of a qualified name is the one that has it. -/
theorem Consistent.classNamed?_eq_some_iff (h : r.Consistent) :
    r.classNamed? q = some doc ↔ doc ∈ r.classes ∧ doc.qualifiedName = q := by
  constructor
  · intro hq
    obtain ⟨id, hid, hdoc⟩ := Option.bind_eq_some_iff.1 hq
    obtain ⟨d, hd, hname⟩ := h.indexed_iff.1 hid
    rw [hdoc] at hd
    cases hd
    exact ⟨List.mem_of_getElem? hdoc, hname⟩
  · rintro ⟨hmem, rfl⟩
    obtain ⟨i, hi⟩ := List.mem_iff_getElem?.1 hmem
    have hid : r.index.get? doc.qualifiedName = some ⟨i⟩ := h.indexed_iff.2 ⟨doc, hi, rfl⟩
    rw [classNamed?, hid]
    exact hi

/-- A qualified name is in the index if and only if a class has it. -/
theorem Consistent.mem_names_index (h : r.Consistent) :
    q ∈ r.index.names ↔ (r.classNamed? q).isSome := by
  rw [NameMap.mem_names_iff, Option.isSome_iff_exists]
  constructor
  · rintro ⟨id, hid⟩
    obtain ⟨doc, hdoc, -⟩ := h.indexed_iff.1 hid
    exact ⟨doc, by rw [classNamed?, hid]; exact hdoc⟩
  · rintro ⟨doc, hdoc⟩
    obtain ⟨id, hid, -⟩ := Option.bind_eq_some_iff.1 hdoc
    exact ⟨id, hid⟩

theorem classNamed?_of_get?_index {id : ClassId} (hid : r.index.get? q = some id)
    (hdoc : r.classes[id.index]? = some doc) : r.classNamed? q = some doc := by
  rw [classNamed?, hid]
  exact hdoc

/-- An added class is the one of its qualified name; the others keep theirs. -/
theorem Consistent.classNamed?_addClass (h : r.Consistent) (doc : ClassDoc) (q : String) :
    (r.addClass doc).classNamed? q =
      if q = doc.qualifiedName then some doc else r.classNamed? q := by
  rw [classNamed?, get?_index_addClass]
  split
  · rw [Option.bind_some, getElem?_classes_addClass, if_pos rfl]
  · rw [classNamed?]
    cases hid : r.index.get? q with
    | none => rfl
    | some id =>
      have hne : id ≠ ⟨r.classes.length⟩ := by
        rintro rfl
        obtain ⟨d, hd, -⟩ := h.indexed_iff.1 hid
        have hlt := (List.getElem?_eq_some_iff.1 hd).1
        exact Nat.lt_irrefl _ hlt
      rw [Option.bind_some, Option.bind_some, getElem?_classes_addClass, if_neg hne]

theorem Consistent.classNamed?_replaceClass (h : r.Consistent) {previous : ClassDoc}
    {id : ClassId} (hid : r.index.get? doc.qualifiedName = some id)
    (hslot : r.classes[id.index]? = some previous)
    (q : String) :
    (r.replaceClass id previous doc).classNamed? q =
      if q = doc.qualifiedName then some doc else r.classNamed? q := by
  rw [classNamed?, index_replaceClass]
  split
  · next hq => rw [hq, hid, Option.bind_some, getElem?_classes_replaceClass r hslot, if_pos rfl]
  · next hq =>
    rw [classNamed?]
    cases hother : r.index.get? q with
    | none => rfl
    | some other =>
      -- Two names that share a slot are both the name of the class in it.
      have hne : other ≠ id := by
        rintro rfl
        obtain ⟨d, hd, hname⟩ := h.indexed_iff.1 hother
        obtain ⟨d', hd', hname'⟩ := h.indexed_iff.1 hid
        rw [hd] at hd'
        cases hd'
        exact hq (hname.symm.trans hname')
      rw [Option.bind_some, Option.bind_some, getElem?_classes_replaceClass r hslot, if_neg hne]

/-! ### Descriptions of packages -/

/-- The description of a package, if there is such a package. -/
def description? (r : Root) (path : String) : Option String :=
  (r.packages.get? path).map PackageDoc.description

theorem description?_onPackage (r : Root) (path : String) (f : PackageDoc → PackageDoc)
    (other : String) :
    (r.onPackage path f).description? other =
      if other = path then some (f ((r.packages.get? path).getD { path })).description
      else r.description? other := by
  unfold description? onPackage
  rw [NameMap.get?_insert]
  split <;> rfl

/-- A change that leaves the description of a package alone creates the package at most. -/
theorem description?_onPackage_of_description (r : Root) (path : String)
    {f : PackageDoc → PackageDoc} (hf : ∀ p, (f p).description = p.description) (other : String) :
    (r.onPackage path f).description? other =
      if other = path then some ((r.description? path).getD "") else r.description? other := by
  rw [description?_onPackage, hf]
  split
  · rw [description?]
    cases r.packages.get? path <;> rfl
  · rfl

@[simp] theorem description?_forget (r : Root) (id : ClassId) (doc : ClassDoc) (path : String) :
    (r.forget id doc).description? path = r.description? path := by
  unfold forget
  split
  · rfl
  · next p hp =>
    show ((r.packages.insert doc.packagePath _).get? path).map PackageDoc.description = _
    rw [NameMap.get?_insert, description?]
    split
    · next heq => rw [heq, hp, Option.map_some, Option.map_some, PackageDoc.description_removeIf]
    · rfl

/-- Adding a class to a package that exists describes no package anew. -/
theorem description?_addClass (r : Root) (h : r.description? doc.packagePath = some text)
    (path : String) : (r.addClass doc).description? path = r.description? path := by
  refine (description?_onPackage_of_description _ doc.packagePath
    (f := (·.put doc.name ⟨r.classes.length⟩)) (fun _ => rfl) path).trans ?_
  show (if path = doc.packagePath then some ((r.description? doc.packagePath).getD "")
    else r.description? path) = _
  split
  · next hpath => rw [hpath, h, Option.getD_some]
  · rfl

theorem description?_replaceClass (r : Root) (id : ClassId) {previous : ClassDoc}
    (h : r.description? doc.packagePath = some text) (path : String) :
    (r.replaceClass id previous doc).description? path = r.description? path := by
  refine (description?_onPackage_of_description _ doc.packagePath
    (f := (·.put doc.name id)) (fun _ => rfl) path).trans ?_
  show (if path = doc.packagePath then some (((r.forget id previous).description? _).getD "")
    else (r.forget id previous).description? path) = _
  rw [description?_forget, description?_forget]
  split
  · next hpath => rw [hpath, h, Option.getD_some]
  · rfl

/-! ### One class -/

namespace Stored

/-- A class is put in one of three ways: under a new number, not at all, or in the slot of the class
that holds its qualified name. -/
theorem put_cases {s : Stored} (h : s.root.Consistent) (file : String) (doc : ClassDoc) :
    (s.root.index.get? doc.qualifiedName = none ∧
      s.put file doc =
        { s with root := s.root.addClass doc, ids := s.ids ++ [⟨s.root.classes.length⟩] }) ∨
    ∃ id previous, s.root.index.get? doc.qualifiedName = some id ∧
      s.root.classes[id.index]? = some previous ∧
      doc.qualifiedName = previous.qualifiedName ∧
      ((s.root.policy = .keepFirst ∧
        s.put file doc =
          { s with diagnostics := s.diagnostics ++ [keptDiagnostic file previous doc] }) ∨
      (s.root.policy ≠ .keepFirst ∧
        s.put file doc =
          { root := s.root.replaceClass id previous doc
            ids := s.ids ++ [id]
            diagnostics := s.diagnostics ++ s.root.policy.reports file (some previous) doc })) := by
  cases hid : s.root.index.get? doc.qualifiedName with
  | none => exact .inl ⟨rfl, by rw [put, hid]⟩
  | some id =>
    obtain ⟨previous, hslot, hname⟩ := h.indexed_iff.1 hid
    refine .inr ⟨id, previous, rfl, hslot, hname.symm, ?_⟩
    cases hpolicy : s.root.policy with
    | keepFirst => exact .inl ⟨rfl, by simp only [put, hid, hslot, hpolicy]⟩
    | report =>
      exact .inr ⟨nofun, by simp only [put, hid, hslot, hpolicy, CollisionPolicy.reports]⟩
    | overwrite =>
      exact .inr ⟨nofun, by
        simp only [put, hid, hslot, hpolicy, CollisionPolicy.reports, List.append_nil]⟩

variable {s : Stored}

/-- Putting a class keeps a root consistent. -/
theorem consistent_put (h : s.root.Consistent) (file : String) (doc : ClassDoc) :
    (s.put file doc).root.Consistent := by
  rcases put_cases h file doc with ⟨hnew, heq⟩ | ⟨id, previous, -, hslot, hname, hcase⟩
  · rw [heq]
    exact h.addClass hnew
  · rcases hcase with ⟨-, heq⟩ | ⟨-, heq⟩ <;> rw [heq]
    · exact h
    · exact h.replaceClass hslot hname

theorem policy_put (h : s.root.Consistent) (file : String) (doc : ClassDoc) :
    (s.put file doc).root.policy = s.root.policy := by
  rcases put_cases h file doc with ⟨-, heq⟩ | ⟨id, previous, -, -, -, ⟨-, heq⟩ | ⟨-, heq⟩⟩
  · rw [heq]
    rfl
  · rw [heq]
  · rw [heq]
    exact policy_forget s.root id previous

theorem isResolved_put (h : s.root.Consistent) (hopen : s.root.isResolved = false) (file : String)
    (doc : ClassDoc) : (s.put file doc).root.isResolved = false := by
  rcases put_cases h file doc with ⟨-, heq⟩ | ⟨id, previous, -, -, -, ⟨-, heq⟩ | ⟨-, heq⟩⟩
  · rw [heq]
    rfl
  · rw [heq]
    exact hopen
  · rw [heq]
    rfl

/-- A qualified name keeps its number when a class is put. -/
theorem get?_index_put (h : s.root.Consistent) (file : String) (doc : ClassDoc) {id : ClassId}
    (hid : s.root.index.get? q = some id) : (s.put file doc).root.index.get? q = some id := by
  rcases put_cases h file doc with ⟨hnew, heq⟩ | ⟨other, previous, -, -, -, hcase⟩
  · have hne : q ≠ doc.qualifiedName := by
      intro hq
      rw [hq, hnew] at hid
      cases hid
    rw [heq, get?_index_addClass, if_neg hne]
    exact hid
  · rcases hcase with ⟨-, heq⟩ | ⟨-, heq⟩ <;> rw [heq]
    · exact hid
    · rw [index_replaceClass]
      exact hid

/-- The class of a name, once a class is put: the policy decides about the name of the new class,
and the other names keep their classes. -/
theorem classNamed?_put (h : s.root.Consistent) (file : String) (doc : ClassDoc) (q : String) :
    (s.put file doc).root.classNamed? q =
      if q = doc.qualifiedName then some (s.root.policy.winner (s.root.classNamed? q) doc)
      else s.root.classNamed? q := by
  rcases put_cases h file doc with ⟨hnew, heq⟩ | ⟨id, previous, hid, hslot, -, hcase⟩
  · rw [heq]
    show (s.root.addClass doc).classNamed? q = _
    rw [h.classNamed?_addClass]
    split
    · next hq =>
      have hnone : s.root.classNamed? q = none := by rw [hq, classNamed?, hnew]; rfl
      rw [hnone]
      cases s.root.policy <;> rfl
    · rfl
  · have hprevious := classNamed?_of_get?_index hid hslot
    -- The earlier class stays, or the new one takes its slot.
    rcases hcase with ⟨hpolicy, heq⟩ | ⟨hpolicy, heq⟩ <;> rw [heq]
    · split
      · next hq => rw [hq, hprevious, hpolicy]; rfl
      · rfl
    · show (s.root.replaceClass id previous doc).classNamed? q = _
      rw [h.classNamed?_replaceClass hid hslot]
      split
      · cases hp : s.root.policy with
        | keepFirst => exact absurd hp hpolicy
        | report => rfl
        | overwrite => rfl
      · rfl

/-- What is reported when a class is put: what the policy says of the class that holds the name. -/
theorem diagnostics_put (h : s.root.Consistent) (file : String) (doc : ClassDoc) :
    (s.put file doc).diagnostics = s.diagnostics ++
      s.root.policy.reports file (s.root.classNamed? doc.qualifiedName) doc := by
  rcases put_cases h file doc with ⟨hnew, heq⟩ | ⟨id, previous, hid, hslot, -, hcase⟩
  · have hnone : s.root.classNamed? doc.qualifiedName = none := by rw [classNamed?, hnew]; rfl
    rw [heq, hnone]
    cases s.root.policy <;> exact (List.append_nil _).symm
  · rw [classNamed?_of_get?_index hid hslot]
    rcases hcase with ⟨hpolicy, heq⟩ | ⟨-, heq⟩ <;> rw [heq]
    · rw [hpolicy]
      rfl

/-- Putting a class into a package that exists describes no package anew. -/
theorem description?_put (h : s.root.Consistent) (file : String)
    (hpackage : s.root.description? doc.packagePath = some text) (path : String) :
    (s.put file doc).root.description? path = s.root.description? path := by
  rcases put_cases h file doc with ⟨-, heq⟩ | ⟨id, previous, -, -, -, ⟨-, heq⟩ | ⟨-, heq⟩⟩
  · rw [heq]
    exact description?_addClass s.root hpackage path
  · rw [heq]
  · rw [heq]
    exact description?_replaceClass s.root id hpackage path

/-! ### The classes of a file -/

/-- Put classes of `file`, one after the other. -/
def putAll (s : Stored) (file : String) (docs : List ClassDoc) : Stored :=
  docs.foldl (fun s doc => s.put file doc) s

/-- What putting each class keeps is kept by putting them all. -/
theorem putAll_induction {motive : Stored → Prop} {file : String}
    (step : ∀ (s : Stored) (doc : ClassDoc), doc ∈ docs → motive s → motive (s.put file doc))
    (start : motive s) : motive (s.putAll file docs) := by
  induction docs generalizing s with
  | nil => exact start
  | cons doc docs ih =>
    refine ih (fun s d hd hs => step s d (List.mem_cons_of_mem _ hd) hs) ?_
    exact step s doc List.mem_cons_self start

theorem consistent_putAll (h : s.root.Consistent) (file : String) (docs : List ClassDoc) :
    (s.putAll file docs).root.Consistent :=
  putAll_induction (motive := fun s => s.root.Consistent)
    (fun _ doc _ hs => consistent_put hs file doc) h

theorem policy_putAll (h : s.root.Consistent) (file : String) (docs : List ClassDoc) :
    (s.putAll file docs).root.policy = s.root.policy := by
  refine (putAll_induction (motive := fun t => t.root.Consistent ∧ t.root.policy = s.root.policy)
    (fun t doc _ ht => ⟨consistent_put ht.1 file doc, ?_⟩) ⟨h, rfl⟩).2
  rw [policy_put ht.1, ht.2]

theorem isResolved_putAll (h : s.root.Consistent) (hopen : s.root.isResolved = false)
    (file : String) (docs : List ClassDoc) : (s.putAll file docs).root.isResolved = false :=
  (putAll_induction (motive := fun t => t.root.Consistent ∧ t.root.isResolved = false)
    (fun _ doc _ ht => ⟨consistent_put ht.1 file doc, isResolved_put ht.1 ht.2 file doc⟩)
    ⟨h, hopen⟩).2

theorem get?_index_putAll (h : s.root.Consistent) (file : String) (docs : List ClassDoc)
    {id : ClassId} (hid : s.root.index.get? q = some id) :
    (s.putAll file docs).root.index.get? q = some id :=
  (putAll_induction (motive := fun t => t.root.Consistent ∧ t.root.index.get? q = some id)
    (fun _ doc _ ht => ⟨consistent_put ht.1 file doc, get?_index_put ht.1 file doc ht.2⟩)
    ⟨h, hid⟩).2

/-- Putting classes into one package that exists describes no package anew. -/
theorem description?_putAll (h : s.root.Consistent) (file : String) {package : String}
    (hdocs : ∀ d ∈ docs, d.packagePath = package)
    (hpackage : s.root.description? package = some text) :
    (s.putAll file docs).root.description? = s.root.description? := by
  refine (putAll_induction
    (motive := fun t => t.root.Consistent ∧ t.root.description? = s.root.description?)
    (fun t doc hdoc ht => ⟨consistent_put ht.1 file doc, ?_⟩) ⟨h, rfl⟩).2
  have hthere : t.root.description? doc.packagePath = some text := by
    rw [hdocs doc hdoc, ht.2, hpackage]
  funext path
  rw [description?_put ht.1 file hthere, ht.2]

/-- A root in which each name is held as if the classes in `seen` had come goes on like this when
further classes are put, and reports their collisions. -/
theorem putAll_held {file : String} {seen : List ClassDoc} (h : s.root.Consistent)
    (hseen : ∀ q, s.root.classNamed? q = s.root.policy.held seen q)
    (hfile : ∀ d ∈ docs, d.sourceFile = file) :
    (∀ q, (s.putAll file docs).root.classNamed? q = s.root.policy.held (seen ++ docs) q) ∧
      (s.putAll file docs).diagnostics =
        s.diagnostics ++ s.root.policy.collisionsAfter seen docs := by
  induction docs generalizing s seen with
  | nil =>
    rw [List.append_nil, CollisionPolicy.collisionsAfter, List.append_nil]
    exact ⟨hseen, rfl⟩
  | cons d docs ih =>
    -- The policy itself never changes, so that `seen` may grow by `d` for the classes to come.
    have hnext : ∀ q, (s.put file d).root.classNamed? q =
        (s.put file d).root.policy.held (seen ++ [d]) q := by
      intro q
      rw [classNamed?_put h, policy_put h, CollisionPolicy.held_concat, hseen]
    obtain ⟨hclasses, hdiagnostics⟩ := ih (consistent_put h file d) hnext
      (fun d hd => hfile d (List.mem_cons_of_mem _ hd))
    rw [policy_put h] at hclasses hdiagnostics
    constructor
    · intro q
      rw [List.append_cons, ← hclasses q]
      rfl
    · show ((s.put file d).putAll file docs).diagnostics = _
      rw [hdiagnostics, diagnostics_put h, CollisionPolicy.collisionsAfter, hseen,
        hfile d List.mem_cons_self, List.append_assoc]

end Stored

/-- The classes of a file as they are put into a package: each takes its name and its package from
where it is put. -/
def placed (path : String) (classes : NameMap ClassDoc) : List ClassDoc :=
  classes.entries.map fun e => { e.2 with name := e.1, packagePath := path }

/-- What an operation does once it has checked that the root is open. -/
theorem checkOpen_bind {α : Type} (r : Root) (operation : String) (x : Except RootError α) :
    (r.checkOpen operation >>= fun _ => x) =
      if r.isResolved then .error (.alreadyResolved operation) else x := by
  rw [checkOpen]
  split <;> rfl

/-- The classes of a file are put one after the other into a root that is not resolved. -/
theorem put_eq (r : Root) (path file : String) (classes : NameMap ClassDoc) :
    r.put path file classes =
      if r.isResolved then .error (.alreadyResolved "add classes")
      else .ok (Stored.putAll { root := r.onPackage path id } file (placed path classes)) := by
  refine (checkOpen_bind r "add classes" _).trans ?_
  rw [Stored.putAll, placed, List.foldl_map]
  rfl

end Root

end ApiDoc
