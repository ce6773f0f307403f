import ApiDoc.Project.CommandLine
import ApiDoc.Proofs.Build.Selection
import ApiDoc.Proofs.Doc.References
import ApiDoc.Proofs.Root.Resolution

/-!
# Links to documentation elsewhere

A reference leads where the first link leads that covers the qualified name it is guessed to mean
(`ClassDoc.Follows`). That is so in each document as it is assembled, and stays so in the root of a
build, resolved or not.

The links of a build are those of the settings file with those of the command line behind them. So a
link of the command line counts only where no link of the file covers the name, or where both lead
to the same place (`CommandLine.BuildRequest.external_eq_iff`).
-/

namespace ApiDoc

variable {c doc : ClassDoc}

/-! ### Documents that follow links -/

namespace ClassDoc

/-- The qualified name that a reference of the document is guessed to mean, if it may be a class. -/
def guess? (c : ClassDoc) (ref : TypeRef) : Option String :=
  if ref.isBuiltin then none else guessQualified c.imports ref.lookupName

/-- Guessing looks at the imports and at the name. -/
theorem guess?_congr {c' : ClassDoc} {ref ref' : TypeRef} (himports : c.imports = c'.imports)
    (hname : ref.name = ref'.name) : c.guess? ref = c'.guess? ref' := by
  unfold guess? TypeRef.isBuiltin TypeRef.lookupName
  rw [himports, hname]

/-- Every reference leads where the first link leads that covers what it is guessed to mean. -/
def Follows (links : List Link) (c : ClassDoc) : Prop :=
  ∀ ref ∈ c.typeRefs, ref.external =
    (c.guess? ref).bind fun q => (links.find? fun l => l.covers q).map Link.href

/-- Looking up classes changes no link. -/
theorem Follows.resolveClass {links : List Link} (h : c.Follows links) (index : NameMap ClassId) :
    (Root.resolveClass index c).Follows links := by
  intro ref href
  rw [Root.typeRefs_resolveClass] at href
  obtain ⟨original, horiginal, hlooked⟩ := List.mem_map.1 href
  have hname : ref.name = original.name := by rw [← hlooked]
  have hexternal : ref.external = original.external := by rw [← hlooked]
  have hguess : (Root.resolveClass index c).guess? ref = c.guess? original :=
    guess?_congr rfl hname
  rw [hexternal, h original horiginal, hguess]

end ClassDoc

theorem FileContext.name_typeRef (ctx : FileContext) (name : String) :
    (ctx.typeRef name).name = name := by
  unfold typeRef
  dsimp only
  split
  · rfl
  · split <;> rfl

theorem FileContext.external_typeRef (ctx : FileContext) (name : String) :
    (ctx.typeRef name).external =
      (if TypeRef.isBuiltin { name } then none
        else guessQualified ctx.imports (TypeRef.lookupName { name })).bind
          fun q => (ctx.links.find? fun l => l.covers q).map Link.href := by
  unfold typeRef
  dsimp only
  split
  · rfl
  · cases guessQualified ctx.imports (TypeRef.lookupName { name }) <;> rfl

/-- What a spelled type makes follows the links of the file, under the imports of the document. -/
theorem FileContext.Makes.external_eq {ctx : FileContext} {ref : TypeRef}
    (h : Makes { ctx with imports := c.imports } ref) :
    ref.external =
      (c.guess? ref).bind fun q => (ctx.links.find? fun l => l.covers q).map Link.href := by
  obtain ⟨name, hmade⟩ := h
  have hname : ref.name = name := by rw [hmade, name_typeRef]
  have hguess : c.guess? ref = c.guess? { name } := ClassDoc.guess?_congr rfl hname
  rw [hguess, hmade, external_typeRef]
  rfl

theorem Content.follows_of_mem_documents {settings : Settings} {file source : String}
    (h : doc ∈ (ofFile settings file source).documents) : doc.Follows settings.links := by
  cases hcontent : ofFile settings file source with
  | classes docs =>
    rw [hcontent] at h
    obtain ⟨e, he, rfl⟩ := List.mem_map.1 h
    obtain ⟨_, tree, -, rfl⟩ := exists_tree_of_ofFile hcontent
    obtain ⟨e', he', rfl⟩ := List.mem_map.1 he
    intro ref href
    exact (FileContext.makes_of_mem_assemble he' href).external_eq (c := e'.2)
  | description text => rw [hcontent] at h; cases h
  | failure category message => rw [hcontent] at h; cases h

theorem Build.Aggregates.follows {settings : Settings} {files : List (String × String)} {b : Build}
    (h : Aggregates settings files b) (hdoc : doc ∈ b.root.classes) :
    doc.Follows settings.links := by
  have hnamed : b.root.classNamed? doc.qualifiedName = some doc :=
    h.ready.consistent.classNamed?_eq_some_iff.2 ⟨hdoc, rfl⟩
  rw [h.classNamed?_eq] at hnamed
  obtain ⟨f, -, hmem⟩ := List.mem_flatMap.1 (CollisionPolicy.mem_of_held hnamed).1
  exact Content.follows_of_mem_documents hmem

/-! ### Links of a request -/

namespace CommandLine.BuildRequest

variable (b : BuildRequest) (s : Settings) (tree : FileTree)

/-- The names of the files that a request is about. -/
def names : List String :=
  if b.files.isEmpty then s.sourcePath.discover tree else b.files

/-- The resolved build that a request comes to. -/
def build : Build :=
  (Build.addNames tree { settings := b.refine s } (b.names s tree)).1.resolve

/-- A request is never refused. -/
theorem run_eq : b.run s tree = .ok (Report.ofBuild (b.build s tree) b.documents) := by
  obtain ⟨diagnostics, hadd⟩ :=
    Build.addNames_eq tree (Build.ready_initial (b.refine s)) (b.names s tree)
  -- a request leaves the source path as it is
  have hnames : (if b.files.isEmpty then (b.refine s).sourcePath.discover tree else b.files) =
      b.names s tree := rfl
  unfold run
  dsimp only
  rw [hnames, build, hadd]

theorem follows_build (hdoc : doc ∈ (b.build s tree).root.classes) :
    doc.Follows (s.links ++ b.links) := by
  let settings := b.refine s
  obtain ⟨diagnostics, hadd⟩ :=
    Build.addNames_eq tree (Build.ready_initial settings) (b.names s tree)
  have h := Build.aggregates_takeInAll settings (Build.batch settings tree (b.names s tree))
  generalize (Build.takeInAll { settings } (Build.batch settings tree (b.names s tree))).1 = built
    at hadd h
  have hclasses : (b.build s tree).root.classes =
      built.root.classes.map (Root.resolveClass built.root.index) := by
    rw [build, hadd]
    show built.root.resolve.classes = _
    rw [Root.resolve_eq h.ready.isOpen]
  rw [hclasses] at hdoc
  obtain ⟨original, horiginal, rfl⟩ := List.mem_map.1 hdoc
  exact (h.follows horiginal).resolveClass built.root.index

/-- **Links of the settings file go before those of the command line.** A build is carried out and
its report printed. If a reference in it is guessed to mean a name that a link of the command line
covers, but a link of the settings file covers it as well, then the reference leads where the link
of the file leads. So it leads where the first covering link of the command line leads if and only
if the settings file has no link that covers the name, or the first one leads to the same place. -/
theorem external_eq_iff :
    (∀ shared : Shared, shared.settings tree = .ok s →
      Invocation.run { shared, command := .build b } tree =
        .ok (Report.ofBuild (b.build s tree) b.documents)) ∧
    ∀ doc ∈ (b.build s tree).root.classes, ∀ ref ∈ doc.typeRefs, ∀ (q : String) (link : Link),
      doc.guess? ref = some q → b.links.find? (fun l => l.covers q) = some link →
        (∀ configured, s.links.find? (fun l => l.covers q) = some configured →
          ref.external = some configured.href) ∧
        (ref.external = some link.href ↔
          ∀ configured, s.links.find? (fun l => l.covers q) = some configured →
            configured.href = link.href) := by
  constructor
  · intro shared hsettings
    show (do let settings ← shared.settings tree; b.run settings tree) = _
    rw [hsettings]
    exact b.run_eq s tree
  · intro doc hdoc ref href q link hguess hlink
    -- links are tried in order, those of the settings file in front
    have hexternal := b.follows_build s tree hdoc ref href
    rw [hguess, Option.bind_some, List.find?_append, hlink] at hexternal
    cases hfile : s.links.find? fun l => l.covers q with
    | none =>
      rw [hfile] at hexternal
      refine ⟨?_, ?_⟩
      · intro configured hconfigured
        cases hconfigured
      · constructor
        · intro _ configured hconfigured
          cases hconfigured
        · intro _
          exact hexternal
    | some first =>
      rw [hfile] at hexternal
      have hfirst : ref.external = some first.href := hexternal
      refine ⟨?_, ?_⟩
      · intro configured hconfigured
        cases hconfigured
        exact hfirst
      · rw [hfirst]
        simp

/-- A settings file with a link for the package `p`. -/
def linkedFile : Settings := { links := [⟨"p.", "file"⟩] }

/-- A request with links for another package and for a class of this one. -/
def linkingRequest : BuildRequest :=
  { files := ["A.groovy"], links := [⟨"q.", "flag"⟩, ⟨"p.P", "flag"⟩] }

/-- A file whose class refers to a class of either package. -/
def linkedTree : FileTree :=
  .dir [("A.groovy", .file "import p.P; import q.Q; class A extends P \x7b Q b \x7d".toUTF8)]

theorem exists_linkedTree :
    ∃ doc ∈ (linkingRequest.build linkedFile linkedTree).root.classes,
      ∃ both ∈ doc.typeRefs, ∃ requested ∈ doc.typeRefs,
        doc.guess? both = some "p.P" ∧ doc.guess? requested = some "q.Q" := by
  decide +kernel

/-- The settings file has a link for `p.P` and none for `q.Q`. -/
theorem external_eq_iff_imported :
    ∃ doc ∈ (linkingRequest.build linkedFile linkedTree).root.classes,
      ∃ both ∈ doc.typeRefs, ∃ requested ∈ doc.typeRefs,
        doc.guess? both = some "p.P" ∧ both.external = some "file" ∧
        doc.guess? requested = some "q.Q" ∧ requested.external = some "flag" := by
  obtain ⟨doc, hdoc, both, hboth, requested, hrequested, hguess, hguess'⟩ := exists_linkedTree
  obtain ⟨-, hlinks⟩ := external_eq_iff linkingRequest linkedFile linkedTree
  obtain ⟨hfile, -⟩ := hlinks doc hdoc both hboth _ ⟨"p.P", "flag"⟩ hguess (by decide +kernel)
  obtain ⟨-, hflag⟩ := hlinks doc hdoc requested hrequested _ ⟨"q.", "flag"⟩ hguess'
    (by decide +kernel)
  refine ⟨doc, hdoc, both, hboth, requested, hrequested, hguess, ?_, hguess', ?_⟩
  · exact hfile ⟨"p.", "file"⟩ (by decide +kernel)
  · apply hflag.2
    have hnone : linkedFile.links.find? (fun l => l.covers "q.Q") = none := by decide +kernel
    intro configured hsome
    rw [hnone] at hsome
    cases hsome

/-- A reference that a link of the command line covers does not lead where that link does. -/
theorem configured_link_hides_requested :
    ∃ doc ∈ (linkingRequest.build linkedFile linkedTree).root.classes, ∃ ref ∈ doc.typeRefs,
      doc.guess? ref = some "p.P" ∧
      linkingRequest.links.find? (fun l => l.covers "p.P") = some ⟨"p.P", "flag"⟩ ∧
      ref.external ≠ some "flag" := by
  obtain ⟨doc, hdoc, both, hboth, -, -, hguess, -⟩ := exists_linkedTree
  refine ⟨doc, hdoc, both, hboth, hguess, by decide +kernel, ?_⟩
  rw [follows_build linkingRequest linkedFile linkedTree hdoc both hboth, hguess]
  decide +kernel

end CommandLine.BuildRequest

end ApiDoc
