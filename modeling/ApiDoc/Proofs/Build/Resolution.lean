import ApiDoc.Proofs.Build.Content
import ApiDoc.Proofs.Doc.References
import ApiDoc.Proofs.Root.Resolution

/-!
# References are linked once, and for good

A file is read without looking at other files, so no reference of a build is linked before the
build is resolved (`Unlinked.callAll`). Resolving links every reference to what looking up gives,
and from then on nothing moves: `resolving_links_exactly_and_finally`.
-/

namespace ApiDoc

variable {b : Build} {file : String}

/-! ## Documents as they are assembled -/

/-- No reference of the document is linked. -/
def ClassDoc.Unlinked (c : ClassDoc) : Prop := ∀ ref ∈ c.typeRefs, ref.resolved = none

namespace FileContext

variable (ctx : FileContext)

theorem resolved_typeRef (name : String) : (ctx.typeRef name).resolved = none := by
  unfold typeRef
  dsimp only
  split
  · rfl
  · split <;> rfl

theorem unlinked_of_mem_assemble (tree : Syntax.Tree Syntax.NodeKind) :
    ∀ e ∈ (ctx.assemble tree).entries, e.2.Unlinked := by
  intro e he ref href
  obtain ⟨name, hname⟩ := makes_of_mem_assemble he href
  rw [hname]
  exact resolved_typeRef _ name

end FileContext

theorem Content.unlinked_of_mem_documents {settings : Settings} {source : String}
    {docs : NameMap ClassDoc} (h : Content.ofFile settings file source = .classes docs) :
    ∀ e ∈ docs.entries, e.2.Unlinked := by
  obtain ⟨_, tree, -, rfl⟩ := exists_tree_of_ofFile h
  intro e he
  obtain ⟨e', he', rfl⟩ := List.mem_map.1 he
  exact (Build.fileContext settings file).unlinked_of_mem_assemble tree e' he'

/-! ## Builds before they are resolved -/

namespace Root

/-- Putting a class brings no other class into the root. -/
theorem Stored.mem_classes_put {s : Stored} (h : s.root.Consistent) {doc d : ClassDoc}
    (hd : d ∈ (s.put file doc).root.classes) : d = doc ∨ d ∈ s.root.classes := by
  rcases put_cases h file doc with ⟨-, heq⟩ | ⟨id, previous, -, -, -, ⟨-, heq⟩ | ⟨-, heq⟩⟩
  · rw [heq] at hd
    rcases List.mem_append.1 hd with hd | hd
    · exact .inr hd
    · exact .inl (List.mem_singleton.1 hd)
  · rw [heq] at hd
    exact .inr hd
  · rw [heq] at hd
    have hset : d ∈ ((s.root.forget id previous).classes).set id.index doc := hd
    rw [classes_forget] at hset
    exact (List.mem_or_eq_of_mem_set hset).symm

end Root

namespace Build

/-- The parts of the root agree, and nothing is linked before it is resolved. -/
structure Unlinked (b : Build) : Prop where
  consistent : b.root.Consistent
  unlinked : b.root.isResolved = false → ∀ doc ∈ b.root.classes, doc.Unlinked

theorem Unlinked.process {b' : Build} (h : b.Unlinked) {source : String} {outcome : FileOutcome}
    (hprocess : b.process file source = .ok (b', outcome)) : b'.Unlinked := by
  rw [process_eq] at hprocess
  split at hprocess
  · cases hprocess
  · next hopen =>
    have hopen' : b.root.isResolved = false := by simpa using hopen
    obtain rfl : (b.takeIn file (.ofFile b.settings file source)).1 = b' :=
      congrArg Prod.fst (Except.ok.inj hprocess)
    have hready : b.Ready := ⟨h.consistent, hopen'⟩
    refine ⟨(hready.takeIn file _).consistent, fun _ => ?_⟩
    have hold := h.unlinked hopen'
    cases hcontent : Content.ofFile b.settings file source with
    | description text => exact hold
    | failure category message => exact hold
    | classes docs =>
      -- The root is consistent all the way, so that each class is put in a known way.
      have hstart : (b.root.onPackage (packagePathOf file) id).Consistent :=
        h.consistent.onPackage _ (fun _ => rfl) fun _ => rfl
      refine And.right (Root.Stored.putAll_induction
        (s := { root := b.root.onPackage (packagePathOf file) id })
        (motive := fun s => s.root.Consistent ∧ ∀ doc ∈ s.root.classes, doc.Unlinked)
        ?_ ⟨hstart, hold⟩)
      intro s doc hdoc hs
      refine ⟨Root.Stored.consistent_put hs.1 file doc, fun d hd => ?_⟩
      rcases Root.Stored.mem_classes_put hs.1 hd with rfl | hd
      · obtain ⟨e, he, rfl⟩ := List.mem_map.1 hdoc
        exact Content.unlinked_of_mem_documents hcontent e he
      · exact hs.2 d hd

theorem Unlinked.addFiles (h : b.Unlinked) (name : String) (found : List SourcePath.Found) :
    (addFiles name b found).1.Unlinked := by
  induction found generalizing b with
  | nil => exact h
  | cons f fs ih =>
    unfold Build.addFiles
    split
    · exact h
    · next hprocess => exact ih (h.process hprocess)

theorem Unlinked.addNames {tree : FileTree} (h : b.Unlinked) (names : List String) :
    (addNames tree b names).1.Unlinked := by
  induction names generalizing b with
  | nil => exact h
  | cons name names ih =>
    unfold Build.addNames
    split
    · exact ih ⟨h.consistent, h.unlinked⟩
    · next found _ =>
      have hfiles := h.addFiles name found
      split
      · next hfound =>
        rw [hfound] at hfiles
        exact hfiles
      · next hfound =>
        rw [hfound] at hfiles
        exact ih hfiles

theorem Unlinked.resolve (h : b.Unlinked) : b.resolve.Unlinked where
  consistent := Root.consistent_resolve h.consistent
  unlinked hopen := by
    have hresolved : b.root.resolve.isResolved = false := hopen
    rw [Root.isResolved_resolve] at hresolved
    cases hresolved

/-- What can be asked of a build. -/
inductive Call where
  | process (file source : String)
  | addNames (tree : FileTree) (names : List String)
  | resolve

/-- The build behind a call. A file that is refused leaves it as it is. -/
def call (b : Build) : Call → Build
  | .process file source =>
    match b.process file source with
    | .ok (b', _) => b'
    | .error _ => b
  | .addNames tree names => (addNames tree b names).1
  | .resolve => b.resolve

def callAll (b : Build) (calls : List Call) : Build := calls.foldl call b

theorem Unlinked.call (h : b.Unlinked) (c : Call) : (b.call c).Unlinked := by
  cases c with
  | process file source =>
    unfold Build.call
    dsimp only
    split
    · next hprocess => exact h.process hprocess
    · exact h
  | addNames tree names => exact h.addNames names
  | resolve => exact h.resolve

theorem Unlinked.callAll (h : b.Unlinked) (calls : List Call) : (b.callAll calls).Unlinked := by
  induction calls generalizing b with
  | nil => exact h
  | cons c calls ih => exact ih (h.call c)

theorem unlinked_initial (settings : Settings) : Unlinked { settings } where
  consistent := .initial settings.collisionPolicy
  unlinked := by simp

open Root (Operation)

/-- **References are linked exactly, once, and for good.** Before a build is resolved, no reference
of it is linked. Whatever operations lead to an open root, resolving it links the reference in every
place of every class to what looking it up in that class gives, and changes nothing else in the
classes, the index and the packages; that is also what comes of listing the references, looking up
the list, and writing the links back in order, with no link left over. Every number that is stored
is the number of a class, the summary counts the references by whether they are linked, and looking
them up again gives what is stored. No later operation changes anything. -/
theorem resolving_links_exactly_and_finally :
    (∀ (settings : Settings) (calls : List Call),
      let b := ({ settings } : Build).callAll calls
      b.root.isResolved = false →
        ∀ doc ∈ b.root.classes, ∀ ref ∈ doc.typeRefs, ref.resolved = none) ∧
    ∀ (policy : CollisionPolicy) (operations : List Operation),
      let r := ({ policy } : Root).performAll operations
      r.isResolved = false →
      let s := r.resolve
      -- the classes, place by place
      s.classes.length = r.classes.length ∧
      (∀ (i : Nat) (doc doc' : ClassDoc), r.classes[i]? = some doc → s.classes[i]? = some doc' →
        doc.LinkedBy (fun ref => { ref with resolved := Lookup.byRef r.index doc ref }) doc' ∧
        doc.link.run (doc.typeRefs.map (Lookup.byRef r.index doc)) = (doc', [])) ∧
      s.index = r.index ∧ s.packages = r.packages ∧ s.policy = r.policy ∧
      -- what is stored
      (∀ doc' ∈ s.classes, ∀ ref ∈ doc'.typeRefs,
        ref.resolved = Lookup.byRef s.index doc' ref ∧
        ∀ id, ref.resolved = some id → id.index < s.classes.length) ∧
      s.summary.resolved = (r.classes.map fun doc =>
        doc.typeRefs.countP fun ref => (Lookup.byRef r.index doc ref).isSome).sum ∧
      s.summary.unresolved = (r.classes.map fun doc => doc.typeRefs.countP fun ref =>
        (Lookup.byRef r.index doc ref).isNone && !ref.isBuiltin).sum ∧
      -- what comes later
      ∀ further, s.performAll further = s ∧ (s.performAll further).Frozen ∧
        (s.performAll further).resolve.summary = s.summary := by
  refine ⟨fun settings calls => ((unlinked_initial settings).callAll calls).unlinked, ?_⟩
  intro policy operations r hopen s
  have hconsistent : r.Consistent := Root.consistent_performAll (.initial policy) operations
  have hs : s = { r with
      classes := r.classes.map (Root.resolveClass r.index)
      summary := Root.summarize (r.classes.map (Root.resolveClass r.index))
      stage := .resolved } := Root.resolve_eq hopen
  have hclasses : s.classes = r.classes.map (Root.resolveClass r.index) := by rw [hs]
  have hindex : s.index = r.index := by rw [hs]
  have hlength : s.classes.length = r.classes.length := by rw [hclasses, List.length_map]
  have hsummary := Root.summarize_resolveClass r.index r.classes
  have hresolved : s.isResolved = true := r.isResolved_resolve
  refine ⟨hlength, ?_, hindex, by rw [hs], by rw [hs], ?_, ?_, ?_, ?_⟩
  · intro i doc doc' hdoc hdoc'
    have hlinked : doc' = Root.resolveClass r.index doc := by
      rw [hclasses, List.getElem?_map, hdoc] at hdoc'
      exact (Option.some.inj hdoc').symm
    rw [hlinked]
    refine ⟨doc.linkedBy_mapTypeRefs _, ?_⟩
    have hstores := doc.stores_link (f := Lookup.byRef r.index doc) []
    rwa [List.append_nil] at hstores
  · intro doc' hdoc' ref href
    rw [hclasses] at hdoc'
    obtain ⟨doc, -, rfl⟩ := List.mem_map.1 hdoc'
    have hlink := Root.resolved_of_mem_resolveClass href
    rw [hindex, hlength]
    refine ⟨hlink, fun id hid => ?_⟩
    exact Root.index_lt_of_byRef hconsistent (hlink.symm.trans hid)
  · rw [hs]
    exact congrArg Summary.resolved hsummary
  · rw [hs]
    exact congrArg Summary.unresolved hsummary
  · intro further
    rw [Root.performAll_of_isResolved hresolved]
    have hfrozen := Root.frozen_of_isResolved hresolved
    exact ⟨rfl, hfrozen, by rw [hfrozen.resolve]⟩

/-- A class and the superclass that its reference is linked to. -/
theorem resolving_links_exactly_and_finally_superclass :
    let b := ({ settings := {} } : Build).callAll [.process "p/A.groovy" "class A extends B {}"]
    let r := ({ policy := .report } : Root).performAll
      [.put "p" "p/A.groovy" (.ofList
        [("A", { name := "A", packagePath := "p", kind := .classType,
                 superclass := some { name := "B" } }),
          ("B", { name := "B", packagePath := "p", kind := .classType })])]
    b.root.isResolved = false ∧ b.root.classes.length = 1 ∧
      (∀ doc ∈ b.root.classes, ∀ ref ∈ doc.typeRefs, ref.resolved = none) ∧
      r.isResolved = false ∧ r.classes.length = 2 ∧
      (∀ doc' ∈ r.resolve.classes, ∀ ref ∈ doc'.typeRefs,
        ref.resolved = Lookup.byRef r.resolve.index doc' ref) ∧
      r.resolve.performAll [.ensurePackage "q", .resolve] = r.resolve := by
  intro b r
  have hb : b.root.isResolved = false := by decide +kernel
  have hr : r.isResolved = false := by decide +kernel
  obtain ⟨hunlinked, hresolve⟩ := resolving_links_exactly_and_finally
  obtain ⟨-, -, -, -, -, hstored, -, -, hlater⟩ := hresolve .report _ hr
  refine ⟨hb, by decide +kernel, hunlinked {} _ hb, hr, by decide +kernel, ?_, ?_⟩
  · exact fun doc' hdoc' ref href => (hstored doc' hdoc' ref href).1
  · exact (hlater [.ensurePackage "q", .resolve]).1

end Build

end ApiDoc
