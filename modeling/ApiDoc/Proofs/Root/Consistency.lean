import ApiDoc.Doc.Root
import ApiDoc.Proofs.NameMap

/-!
# The parts of a root document agree

A root keeps its classes in numbered slots and finds them in two ways: by qualified name through the
index, and by package and name through the packages. `Consistent` says that both ways lead to each
slot exactly once.

This is more than `Root.check` looks at. The check asks which packages hold a number; the invariant
also says under which name, and that is what lets a class that is replaced from another package be
forgotten in the right place.
-/

namespace ApiDoc

variable {id : ClassId} {doc : ClassDoc} {f : PackageDoc → PackageDoc}

/-! ### Where a package holds a class -/

/-- Removing a class shows under its name alone, and there only if the number is the given one. -/
theorem PackageDoc.get?_classes_removeIf (p : PackageDoc) (name : String) (id : ClassId)
    (other : String) :
    (p.removeIf name id).classes.get? other =
      if other = name ∧ p.classes.get? other = some id then none else p.classes.get? other := by
  unfold removeIf
  split
  · next hid =>
    show (p.classes.erase name).get? other = _
    rw [NameMap.get?_erase]
    by_cases hother : other = name
    · rw [if_pos hother, if_pos ⟨hother, hother ▸ hid⟩]
    · rw [if_neg hother, if_neg (fun h => hother h.1)]
  · next hid =>
    rw [if_neg]
    rintro ⟨rfl, hother⟩
    exact hid hother

@[simp] theorem PackageDoc.path_removeIf (p : PackageDoc) (name : String) (id : ClassId) :
    (p.removeIf name id).path = p.path := by
  unfold removeIf
  split <;> rfl

@[simp] theorem PackageDoc.description_removeIf (p : PackageDoc) (name : String) (id : ClassId) :
    (p.removeIf name id).description = p.description := by
  unfold removeIf
  split <;> rfl

namespace Root

/-- The number that a package holds under a name. -/
def idIn? (r : Root) (path name : String) : Option ClassId :=
  (r.packages.get? path).bind fun p => p.classes.get? name

/-- Changing a package shows in that package alone. -/
theorem idIn?_onPackage (r : Root) (path : String) (f : PackageDoc → PackageDoc)
    (other name : String) :
    (r.onPackage path f).idIn? other name =
      if other = path then (f ((r.packages.get? path).getD { path })).classes.get? name
      else r.idIn? other name := by
  unfold idIn? onPackage
  rw [NameMap.get?_insert]
  split <;> rfl

/-- A change that leaves the classes of a package alone moves no number. -/
theorem idIn?_onPackage_of_classes (r : Root) (path : String) (hf : ∀ p, (f p).classes = p.classes)
    (other name : String) : (r.onPackage path f).idIn? other name = r.idIn? other name := by
  rw [idIn?_onPackage]
  split
  · next h =>
    subst h
    rw [hf, idIn?]
    cases r.packages.get? other <;> rfl
  · rfl

/-- Putting a class into a package adds one number. -/
theorem idIn?_onPackage_put (r : Root) (path name : String) (id : ClassId)
    (other otherName : String) :
    (r.onPackage path (·.put name id)).idIn? other otherName =
      if other = path ∧ otherName = name then some id else r.idIn? other otherName := by
  rw [idIn?_onPackage]
  by_cases hpath : other = path
  · subst hpath
    rw [if_pos rfl]
    show ((((r.packages.get? other).getD { path := other }).classes).insert name id).get? _ = _
    rw [NameMap.get?_insert]
    by_cases hname : otherName = name
    · rw [if_pos hname, if_pos ⟨rfl, hname⟩]
    · rw [if_neg hname, if_neg (fun h => hname h.2), idIn?]
      cases r.packages.get? other <;> rfl
  · rw [if_neg hpath, if_neg (fun h => hpath h.1)]

/-- Forgetting a class takes its number away from where the class says that it stands, if the number
is there. -/
theorem idIn?_forget (r : Root) (id : ClassId) (doc : ClassDoc) (path name : String) :
    (r.forget id doc).idIn? path name =
      if path = doc.packagePath ∧ name = doc.name ∧ r.idIn? path name = some id then none
      else r.idIn? path name := by
  cases hp : r.packages.get? doc.packagePath with
  | none =>
    have hforget : r.forget id doc = r := by rw [forget, hp]
    rw [hforget]
    split
    · next h =>
      obtain ⟨rfl, -, hid⟩ := h
      simp [idIn?, hp] at hid
    · rfl
  | some p =>
    -- only the package of the class changes, and only if its number stands there under its name
    have hget : (r.forget id doc).packages.get? path =
        if path = doc.packagePath then some (p.removeIf doc.name id)
        else r.packages.get? path := by
      rw [forget, hp, ← NameMap.get?_insert]
    by_cases hpath : path = doc.packagePath
    · subst hpath
      have hold : r.idIn? doc.packagePath name = p.classes.get? name := by rw [idIn?, hp]; rfl
      have hnew : (r.forget id doc).idIn? doc.packagePath name =
          (p.removeIf doc.name id).classes.get? name := by rw [idIn?, hget, if_pos rfl]; rfl
      rw [hnew, hold, PackageDoc.get?_classes_removeIf]
      by_cases hplace : name = doc.name ∧ p.classes.get? name = some id
      · rw [if_pos hplace, if_pos ⟨rfl, hplace⟩]
      · rw [if_neg hplace, if_neg (fun h => hplace h.2)]
    · rw [if_neg (fun h => hpath h.1), idIn?, hget, if_neg hpath, idIn?]

/-! ### Adding and replacing, part by part -/

@[simp] theorem classes_forget (r : Root) (id : ClassId) (doc : ClassDoc) :
    (r.forget id doc).classes = r.classes := by
  unfold forget
  split <;> rfl

@[simp] theorem index_forget (r : Root) (id : ClassId) (doc : ClassDoc) :
    (r.forget id doc).index = r.index := by
  unfold forget
  split <;> rfl

@[simp] theorem policy_forget (r : Root) (id : ClassId) (doc : ClassDoc) :
    (r.forget id doc).policy = r.policy := by
  unfold forget
  split <;> rfl

/-- An added class takes the slot behind the last one. -/
theorem getElem?_classes_addClass (r : Root) (doc : ClassDoc) (id : ClassId) :
    (r.addClass doc).classes[id.index]? =
      if id = ⟨r.classes.length⟩ then some doc else r.classes[id.index]? := by
  show (r.classes ++ [doc])[id.index]? = _
  split
  · next h => rw [h, List.getElem?_concat_length]
  · next h =>
    have hne : id.index ≠ r.classes.length := fun hi => h (by rw [← hi])
    rcases Nat.lt_or_gt_of_ne hne with hlt | hgt
    · rw [List.getElem?_append_left hlt]
    · rw [List.getElem?_eq_none (by simp; omega), List.getElem?_eq_none (by omega)]

theorem get?_index_addClass (r : Root) (doc : ClassDoc) (q : String) :
    (r.addClass doc).index.get? q =
      if q = doc.qualifiedName then some ⟨r.classes.length⟩ else r.index.get? q :=
  NameMap.get?_insert r.index doc.qualifiedName q ⟨r.classes.length⟩

theorem idIn?_addClass (r : Root) (doc : ClassDoc) (path name : String) :
    (r.addClass doc).idIn? path name =
      if path = doc.packagePath ∧ name = doc.name then some ⟨r.classes.length⟩
      else r.idIn? path name :=
  idIn?_onPackage_put _ doc.packagePath doc.name ⟨r.classes.length⟩ path name

/-- Replacing a class changes its own slot alone. -/
theorem getElem?_classes_replaceClass (r : Root) {previous : ClassDoc}
    (hslot : r.classes[id.index]? = some previous) (doc : ClassDoc) (other : ClassId) :
    (r.replaceClass id previous doc).classes[other.index]? =
      if other = id then some doc else r.classes[other.index]? := by
  have hlt : id.index < r.classes.length := (List.getElem?_eq_some_iff.1 hslot).1
  show ((r.forget id previous).classes.set id.index doc)[other.index]? = _
  rw [classes_forget]
  split
  · next h => rw [h, List.getElem?_set_self hlt]
  · next h =>
    have hne : id.index ≠ other.index := by
      intro hi
      apply h
      cases id
      cases other
      cases hi
      rfl
    rw [List.getElem?_set_ne hne]

@[simp] theorem index_replaceClass (r : Root) (id : ClassId) (previous doc : ClassDoc) :
    (r.replaceClass id previous doc).index = r.index :=
  index_forget r id previous

/-- The number of a replaced class moves to where the new class belongs. -/
theorem idIn?_replaceClass (r : Root) (id : ClassId) (previous doc : ClassDoc)
    (path name : String) :
    (r.replaceClass id previous doc).idIn? path name =
      if path = doc.packagePath ∧ name = doc.name then some id
      else if path = previous.packagePath ∧ name = previous.name ∧ r.idIn? path name = some id
        then none
      else r.idIn? path name := by
  show (({ r.forget id previous with classes := _ } : Root).onPackage doc.packagePath
    (·.put doc.name id)).idIn? path name = _
  rw [idIn?_onPackage_put, ← idIn?_forget]
  rfl

/-! ### Paths of packages -/

/-- Every package knows the path it is found under. -/
def PathsKnown (r : Root) : Prop :=
  ∀ (path : String) (p : PackageDoc), r.packages.get? path = some p → p.path = path

/-- Packages keep knowing their paths when one of them changes and keeps its own. -/
theorem PathsKnown.onPackage {r : Root} (h : r.PathsKnown) (path : String)
    (hf : ∀ p, (f p).path = p.path) : (r.onPackage path f).PathsKnown := by
  intro other p hp
  change (r.packages.insert path _).get? other = some p at hp
  rw [NameMap.get?_insert] at hp
  split at hp
  · next heq =>
    subst heq
    cases hp
    rw [hf]
    cases hget : r.packages.get? other with
    | none => rfl
    | some p => exact h _ p hget
  · exact h other p hp

theorem PathsKnown.forget {r : Root} (h : r.PathsKnown) (id : ClassId) (doc : ClassDoc) :
    (r.forget id doc).PathsKnown := by
  unfold Root.forget
  split
  · exact h
  · next q hq =>
    intro path p hp
    change (r.packages.insert _ _).get? path = some p at hp
    rw [NameMap.get?_insert] at hp
    split at hp
    · next heq =>
      cases hp
      rw [PackageDoc.path_removeIf, heq]
      exact h _ q hq
    · exact h path p hp

end Root

/-! ### Consistent roots -/

/-- The index and the packages of a root agree with its slots. -/
structure Root.Consistent (r : Root) : Prop where
  /-- The index finds a slot under the qualified name of its class, and finds nothing else. -/
  indexed_iff : ∀ {q : String} {id : ClassId},
    r.index.get? q = some id ↔ ∃ doc, r.classes[id.index]? = some doc ∧ doc.qualifiedName = q
  /-- A package holds a slot if its class belongs there, under the name of the class. -/
  held_iff : ∀ {path name : String} {id : ClassId},
    r.idIn? path name = some id ↔
      ∃ doc, r.classes[id.index]? = some doc ∧ doc.packagePath = path ∧ doc.name = name
  pathsKnown : r.PathsKnown
  /-- Only a root without packages counts as empty. -/
  packages_eq_of_empty : r.stage = .empty → r.packages = ∅

namespace Root.Consistent

variable {r : Root}

theorem initial (policy : CollisionPolicy) : Root.Consistent { policy } where
  indexed_iff := by simp
  held_iff := by simp [idIn?]
  pathsKnown := by simp [PathsKnown]
  packages_eq_of_empty := fun _ => rfl

/-- A class is found by its qualified name. -/
theorem get?_index (h : r.Consistent) (hdoc : r.classes[id.index]? = some doc) :
    r.index.get? doc.qualifiedName = some id :=
  h.indexed_iff.2 ⟨doc, hdoc, rfl⟩

/-- Classes in different slots have different qualified names. -/
theorem eq_of_qualifiedName_eq (h : r.Consistent) {other : ClassId} {d : ClassDoc}
    (hdoc : r.classes[id.index]? = some doc) (hd : r.classes[other.index]? = some d)
    (hq : d.qualifiedName = doc.qualifiedName) : other = id := by
  have h₁ := h.get?_index hdoc
  have h₂ := h.get?_index hd
  rw [hq, h₁] at h₂
  exact (Option.some.inj h₂).symm

/-- Changing what is said of a package, but not its classes, keeps a root consistent. -/
theorem onPackage (h : r.Consistent) (path : String) (hpath : ∀ p, (f p).path = p.path)
    (hclasses : ∀ p, (f p).classes = p.classes) :
    (r.onPackage path f).Consistent where
  indexed_iff := h.indexed_iff
  held_iff := by
    intro other name id
    rw [idIn?_onPackage_of_classes r path hclasses]
    exact h.held_iff
  pathsKnown := h.pathsKnown.onPackage path hpath
  packages_eq_of_empty := nofun

/-- A class with a new qualified name takes the next slot. -/
theorem addClass (h : r.Consistent) (hnew : r.index.get? doc.qualifiedName = none) :
    (r.addClass doc).Consistent := by
  have hfree : r.classes[r.classes.length]? = none := List.getElem?_eq_none (Nat.le_refl _)
  -- No class of the root has the qualified name of the new one.
  have hother : ∀ {id : ClassId} {d : ClassDoc}, r.classes[id.index]? = some d →
      d.qualifiedName ≠ doc.qualifiedName := by
    intro id d hd hq
    have hid := h.get?_index hd
    rw [hq, hnew] at hid
    cases hid
  constructor
  case indexed_iff =>
    intro q id
    rw [get?_index_addClass, getElem?_classes_addClass]
    by_cases hid : id = ⟨r.classes.length⟩
    · subst hid
      rw [if_pos rfl]
      have hold : r.index.get? q ≠ some ⟨r.classes.length⟩ := by
        intro hq
        obtain ⟨d, hd, -⟩ := h.indexed_iff.1 hq
        rw [hfree] at hd
        cases hd
      split
      · next hq => simp [hq]
      · next hq => simp [hold, Ne.symm hq]
    · rw [if_neg hid]
      split
      · next hq =>
        refine iff_of_false (fun heq => hid (Option.some.inj heq).symm) ?_
        rintro ⟨d, hd, rfl⟩
        exact hother hd hq
      · exact h.indexed_iff
  case held_iff =>
    intro path name id
    rw [idIn?_addClass, getElem?_classes_addClass]
    by_cases hid : id = ⟨r.classes.length⟩
    · subst hid
      rw [if_pos rfl]
      have hold : r.idIn? path name ≠ some ⟨r.classes.length⟩ := by
        intro hheld
        obtain ⟨d, hd, -⟩ := h.held_iff.1 hheld
        rw [hfree] at hd
        cases hd
      split
      · next hplace => simp [hplace]
      · next hplace =>
        refine iff_of_false hold ?_
        rintro ⟨d, hd, hpath, hname⟩
        cases hd
        exact hplace ⟨hpath.symm, hname.symm⟩
    · rw [if_neg hid]
      split
      · -- An old class at the place of the new one would have its qualified name too.
        next hplace =>
        refine iff_of_false (fun heq => hid (Option.some.inj heq).symm) ?_
        rintro ⟨d, hd, hpath, hname⟩
        refine hother hd ?_
        rw [ClassDoc.qualifiedName, ClassDoc.qualifiedName, hpath, hname, hplace.1, hplace.2]
      · exact h.held_iff
  case pathsKnown =>
    have hr : Root.PathsKnown { r with
        classes := r.classes ++ [doc]
        index := r.index.insert doc.qualifiedName ⟨r.classes.length⟩ } := h.pathsKnown
    exact hr.onPackage doc.packagePath (f := (·.put doc.name ⟨r.classes.length⟩)) fun _ => rfl
  case packages_eq_of_empty => exact nofun

/-- A class can take the slot of another one of the same qualified name, whatever package the two
come from. -/
theorem replaceClass (h : r.Consistent) {previous : ClassDoc}
    (hslot : r.classes[id.index]? = some previous)
    (hname : doc.qualifiedName = previous.qualifiedName) :
    (r.replaceClass id previous doc).Consistent := by
  constructor
  case indexed_iff =>
    intro q other
    rw [index_replaceClass, h.indexed_iff, getElem?_classes_replaceClass r hslot]
    by_cases heq : other = id
    · subst heq
      rw [if_pos rfl, hslot]
      simp [hname]
    · rw [if_neg heq]
  case held_iff =>
    intro path name other
    rw [idIn?_replaceClass, getElem?_classes_replaceClass r hslot]
    by_cases heq : other = id
    · subst heq
      rw [if_pos rfl]
      split
      · next hplace => simp [hplace]
      · -- `id` stands at its new place only: its old one, if it is another, was cleared before.
        next hplace =>
        refine iff_of_false ?_ ?_
        · split
          · exact nofun
          · next hprev =>
            intro hheld
            obtain ⟨d, hd, hp, hn⟩ := h.held_iff.1 hheld
            rw [hslot] at hd
            cases hd
            exact hprev ⟨hp.symm, hn.symm, hheld⟩
        · rintro ⟨d, hd, hp, hn⟩
          cases hd
          exact hplace ⟨hp.symm, hn.symm⟩
    · rw [if_neg heq]
      split
      · -- The new place spells the qualified name of `id`, so no other slot stands there.
        next hplace =>
        refine iff_of_false (fun hid => heq (Option.some.inj hid).symm) ?_
        rintro ⟨d, hd, hp, hn⟩
        refine heq (h.eq_of_qualifiedName_eq hslot hd ?_)
        rw [← hname, ClassDoc.qualifiedName, ClassDoc.qualifiedName, hp, hn, hplace.1, hplace.2]
      · split
        · next hprev =>
          have hne : r.idIn? path name ≠ some other := by
            rw [hprev.2.2]
            exact fun hid => heq (Option.some.inj hid).symm
          exact iff_of_false nofun (fun hheld => hne (h.held_iff.2 hheld))
        · exact h.held_iff
  case pathsKnown =>
    have hr : Root.PathsKnown { r.forget id previous with
        classes := (r.forget id previous).classes.set id.index doc } :=
      h.pathsKnown.forget id previous
    exact hr.onPackage doc.packagePath (f := (·.put doc.name id)) fun _ => rfl
  case packages_eq_of_empty => exact nofun

end Root.Consistent

end ApiDoc
