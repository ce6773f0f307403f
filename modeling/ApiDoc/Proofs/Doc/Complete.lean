import ApiDoc.Proofs.Access.Declaration
import Mathlib.Data.List.Nodup

/-!
# Nothing is lost between a file and its documents

A file whose types have different dotted names has one document for each of them, and with private
members documented each member of a type is in one list of its document, in order
(`FileContext.assemble_complete`). Which list that is depends on the member and on the kind of type
it is in: `MemberList.of?`.
-/

namespace ApiDoc

open Syntax (NodeKind Enclosing)

/-! ## Lists of members -/

/-- The lists of members that a document has. -/
inductive MemberList where
  | fields
  | properties
  | constructors
  | methods
  | enumConstants
deriving DecidableEq, Repr

/-- The list that a declaration in the body of a type is documented in. A variable is a property
where nothing restricts the access to it, save in interfaces and annotation types. -/
def MemberList.of? (inInterface : Bool) (m : Syntax.Tree NodeKind) : Option MemberList :=
  match m.kind with
  | .variableDef =>
    if !inInterface && (Said.ofTree m).isOpen then some .properties else some .fields
  | .methodDef | .annotationFieldDef => some .methods
  | .ctorIdent => some .constructors
  | .enumConstantDef => some .enumConstants
  | _ => none

/-- The names in a list of a document. -/
def ClassDoc.namesIn (doc : ClassDoc) : MemberList → List String
  | .fields => doc.fields.map FieldDoc.name
  | .properties => doc.properties.map FieldDoc.name
  | .constructors => doc.constructors.map MethodDoc.name
  | .methods => doc.methods.map MethodDoc.name
  | .enumConstants => doc.enumConstants.map EnumConstantDoc.name

/-! ## Types with their places -/

namespace TypeAt

/-- The dotted name of a type, through the types around it. -/
def path (type : TypeAt) : String := nestedName type.outer type.node.text

def isInterface (type : TypeAt) : Bool :=
  type.node.kind = .interfaceDef || type.node.kind = .annotationDef

/-- The members of a type that are documented in a list. -/
def membersIn (type : TypeAt) (list : MemberList) : List (Syntax.Tree NodeKind) :=
  (membersOf type.node).filter fun m => MemberList.of? type.isInterface m = some list

/-- The types in the body of a type. -/
def nestedTypes (type : TypeAt) : List (Syntax.Tree NodeKind) :=
  (membersOf type.node).filter fun m => m.kind.isTypeDef

theorem ofBody_eq (enclosing : Enclosing) (outer : String) {kind : NodeKind} {text : String}
    {pos : Text.Position} {doc : Option String} (ts : List (Syntax.Tree NodeKind)) :
    ofBody enclosing outer ts =
      ofDeclarations enclosing (some outer) (membersOf ⟨kind, text, pos, doc, ts⟩) := by
  induction ts with
  | nil => rw [ofBody]; rfl
  | cons t ts ih =>
    obtain ⟨k, text', pos', doc', children⟩ := t
    rw [ofBody]
    by_cases hblock : k = .objBlock
    · simp [membersOf, Syntax.Tree.child?, hblock]
    · simpa [membersOf, Syntax.Tree.child?, hblock] using ih

theorem mem_ofType {enclosing : Enclosing} {outer : Option String} {t : Syntax.Tree NodeKind}
    {type : TypeAt} :
    type ∈ ofType enclosing outer t ↔
      type ∈ ofDeclarations (.ofKind t.kind) (some (nestedName outer t.text)) (membersOf t) ∨
        type = ⟨enclosing, outer, t⟩ := by
  obtain ⟨kind, text, pos, doc, children⟩ := t
  rw [ofType, List.mem_append, List.mem_singleton, ofBody_eq]

theorem mem_ofDeclarations {enclosing : Enclosing} {outer : Option String}
    {ts : List (Syntax.Tree NodeKind)} {type : TypeAt} :
    type ∈ ofDeclarations enclosing outer ts ↔
      ∃ t ∈ ts, t.kind.isTypeDef = true ∧ type ∈ ofType enclosing outer t := by
  induction ts with
  | nil => simp [ofDeclarations]
  | cons t ts ih =>
    rw [ofDeclarations, List.mem_append, ih]
    split
    · next hkind => simp [hkind]
    · next hkind => simp [hkind]

/-- A type stands in the list itself, or in the body of another type that is listed. -/
theorem exists_around {enclosing : Enclosing} {outer : Option String}
    {ts : List (Syntax.Tree NodeKind)} {type : TypeAt}
    (h : type ∈ ofDeclarations enclosing outer ts) :
    (type.outer = outer ∧ type.node ∈ ts) ∨
      ∃ around ∈ ofDeclarations enclosing outer ts,
        type.outer = some around.path ∧ type.node ∈ around.nestedTypes := by
  obtain ⟨t, ht, hkind, hmem⟩ := mem_ofDeclarations.mp h
  have hlisted : ∀ around, around ∈ ofType enclosing outer t →
      around ∈ ofDeclarations enclosing outer ts :=
    fun around haround => mem_ofDeclarations.mpr ⟨t, ht, hkind, haround⟩
  rcases mem_ofType.mp hmem with hinner | rfl
  · right
    have hnode : type.node.kind.isTypeDef = true := (of_mem_ofDeclarations hinner).1
    -- By recursion into the body: the type around is this one, or one further in.
    rcases exists_around hinner with ⟨houter, hbody⟩ | ⟨around, haround, hinside⟩
    · refine ⟨⟨enclosing, outer, t⟩, hlisted _ (mem_ofType.mpr (.inr rfl)), houter, ?_⟩
      exact List.mem_filter.mpr ⟨hbody, hnode⟩
    · exact ⟨around, hlisted _ (mem_ofType.mpr (.inl haround)), hinside⟩
  · exact .inl ⟨rfl, ht⟩
termination_by sizeOf ts
decreasing_by
  have hmembers := FileContext.sizeOf_membersOf_lt t
  have ht := List.sizeOf_lt_of_mem ht
  omega

end TypeAt

namespace FileContext

variable (ctx : FileContext)

/-! ## The documents of the types -/

mutual

theorem classDocs_eq_map (enclosing : Enclosing) (outer : Option String) :
    (t : Syntax.Tree NodeKind) → ctx.classDocs outer t =
      (TypeAt.ofType enclosing outer t).map fun type => ctx.classDoc type.outer type.node
  | ⟨kind, text, pos, doc, children⟩ => by
    rw [classDocs, TypeAt.ofType, List.map_append, bodyDocs_eq_map (.ofKind kind)]
    rfl

theorem bodyDocs_eq_map (enclosing : Enclosing) (outer : String) :
    (ts : List (Syntax.Tree NodeKind)) → ctx.bodyDocs outer ts =
      (TypeAt.ofBody enclosing outer ts).map fun type => ctx.classDoc type.outer type.node
  | [] => by rw [bodyDocs, TypeAt.ofBody, List.map_nil]
  | ⟨kind, text, pos, doc, children⟩ :: ts => by
    rw [bodyDocs, TypeAt.ofBody]
    split
    · exact memberDocs_eq_map enclosing (some outer) children
    · exact bodyDocs_eq_map enclosing outer ts

/-- The documents of a list of declarations are those of the types in it. -/
theorem memberDocs_eq_map (enclosing : Enclosing) (outer : Option String) :
    (ts : List (Syntax.Tree NodeKind)) → ctx.memberDocs outer ts =
      (TypeAt.ofDeclarations enclosing outer ts).map fun type =>
        ctx.classDoc type.outer type.node
  | [] => by rw [memberDocs, TypeAt.ofDeclarations, List.map_nil]
  | t :: ts => by
    rw [memberDocs, TypeAt.ofDeclarations, List.map_append, memberDocs_eq_map enclosing outer ts]
    split
    · rw [classDocs_eq_map enclosing outer t]
    · rfl

end

/-- The document has the name of the type, links it to the types around and inside it, and lists
each member once and in order. -/
structure Keeps (type : TypeAt) (doc : ClassDoc) : Prop where
  name : doc.name = type.path
  outer : doc.outer = type.outer
  nested : doc.nested = type.nestedTypes.map Syntax.Tree.text
  fields : doc.fields = (type.membersIn .fields).map (ctx.fieldDoc type.isInterface)
  properties : doc.properties = (type.membersIn .properties).map (ctx.fieldDoc type.isInterface)
  constructors : doc.constructors = (type.membersIn .constructors).map ctx.methodDoc
  methods : doc.methods = (type.membersIn .methods).map ctx.methodDoc
  enumConstants : doc.enumConstants = (type.membersIn .enumConstants).map enumConstantDoc

theorem isInterface_eq (type : TypeAt) :
    (classKindOf type.node.kind = .interfaceType || classKindOf type.node.kind = .annotationType
      : Bool) = type.isInterface := by
  unfold TypeAt.isInterface
  cases type.node.kind <;> rfl

variable {ctx}

/-- What is listed bears the name of the member that it documents. -/
theorem Keeps.namesIn_eq {type : TypeAt} {doc : ClassDoc} (h : ctx.Keeps type doc)
    (list : MemberList) : doc.namesIn list = (type.membersIn list).map Syntax.Tree.text := by
  cases list with
  | fields => rw [ClassDoc.namesIn, h.fields, List.map_map]; rfl
  | properties => rw [ClassDoc.namesIn, h.properties, List.map_map]; rfl
  | constructors => rw [ClassDoc.namesIn, h.constructors, List.map_map]; rfl
  | methods => rw [ClassDoc.namesIn, h.methods, List.map_map]; rfl
  | enumConstants => rw [ClassDoc.namesIn, h.enumConstants, List.map_map]; rfl

/-- Where every visibility is documented, the document of a type keeps all of it. -/
theorem keeps_classDoc (hall : ∀ v, ctx.options.includes v = true) (type : TypeAt) :
    ctx.Keeps type (ctx.classDoc type.outer type.node) := by
  have hfields : ∀ docs : List FieldDoc, docs.filter (fun d => ctx.options.includes d.visibility) =
      docs := fun docs => List.filter_eq_self.mpr fun d _ => hall _
  have hmethods : ∀ docs : List MethodDoc,
      docs.filter (fun d => ctx.options.includes d.visibility) = docs :=
    fun docs => List.filter_eq_self.mpr fun d _ => hall _
  constructor
  case name | outer | nested => rfl
  -- Each of the other lists picks its members by a test of its own.
  all_goals
    simp only [classDoc, hfields, hmethods, isInterface_eq, List.filter_filter, Said.isOpen_ofTree]
    refine congrArg (List.map _) (List.filter_congr fun m _ => ?_)
    unfold MemberList.of?
    split <;> grind

theorem includes_of_privateScope {p : Properties} (h : p.switch "privateScope" false = true)
    (v : Visibility) : (DocOptions.ofProperties p).includes v = true := by
  have hmin : (DocOptions.ofProperties p).minVisibility = .priv := if_pos h
  rw [DocOptions.includes, hmin, decide_eq_true_eq]
  exact Nat.zero_le _

/-! ## The documents of a file -/

variable {tree : Syntax.Tree NodeKind} {d : ClassDoc}

theorem mem_names_assemble {name : String} :
    name ∈ (ctx.assemble tree).names ↔ ∃ d ∈ ctx.declared tree, d.name = name := by
  rw [NameMap.mem_names_iff]
  constructor
  · rintro ⟨d, hd⟩
    exact ⟨d, mem_declared_of_mem_entries _ (NameMap.get?_eq_some_iff.mp hd)⟩
  · rintro ⟨d, hd, rfl⟩
    obtain ⟨e, he, -, hname⟩ := exists_assembled hd
    obtain ⟨key, hkey⟩ := NameMap.mem_values_iff.mp he
    have hown := (mem_declared_of_mem_entries _ (NameMap.get?_eq_some_iff.mp hkey)).2
    exact ⟨e, by rw [← hname, hown, hkey]⟩

/-- When no name is declared twice, every declared document is assembled. -/
theorem get?_assemble (hnodup : ((ctx.declared tree).map ClassDoc.name).Nodup)
    (hd : d ∈ ctx.declared tree) : (ctx.assemble tree).get? d.name = some d := by
  obtain ⟨e, he⟩ := NameMap.mem_names_iff.mp (mem_names_assemble.mpr ⟨d, hd, rfl⟩)
  obtain ⟨hmem, hname⟩ := mem_declared_of_mem_entries _ (NameMap.get?_eq_some_iff.mp he)
  have heq : e = d := List.inj_on_of_nodup_map hnodup hmem hd hname
  rw [he, heq]

variable (ctx tree) in
/-- The script of a file gets a document: the file has a statement or a method outside its types,
scripts are documented, and no type has the name of the script. -/
def AddsScript : Prop :=
  (∃ t ∈ tree.children, t.kind = .statement ∨ t.kind = .methodDef) ∧
    ctx.options.processScripts = true ∧
    firstSegment ctx.file ∉ (TypeAt.ofDeclarations .file none tree.children).map TypeAt.path

variable (ctx tree) in
/-- What the documents of a file share once its imports are read. -/
abbrev inFile : FileContext :=
  { ctx with imports := (tree.childrenOf .importDef).map Syntax.Tree.text }

theorem names_memberDocs (ctx : FileContext) :
    ((ctx.inFile tree).memberDocs none tree.children).map ClassDoc.name =
      (TypeAt.ofDeclarations .file none tree.children).map TypeAt.path := by
  rw [memberDocs_eq_map _ .file, List.map_map]
  rfl

theorem addsScript_iff :
    ctx.AddsScript tree ↔ (isScript tree.children && ctx.options.processScripts &&
      !((ctx.inFile tree).memberDocs none tree.children).any fun d =>
        d.name = firstSegment ctx.file) = true := by
  rw [AddsScript, ← names_memberDocs ctx]
  simp [isScript, and_assoc]

theorem declared_of_addsScript (h : ctx.AddsScript tree) :
    ctx.declared tree = (ctx.inFile tree).memberDocs none tree.children ++
      [(ctx.inFile tree).scriptDoc tree.children] :=
  if_pos (addsScript_iff.mp h)

theorem declared_of_not_addsScript (h : ¬ctx.AddsScript tree) :
    ctx.declared tree = (ctx.inFile tree).memberDocs none tree.children :=
  if_neg (mt addsScript_iff.mpr h)

theorem nodup_names_declared
    (hpaths : ((TypeAt.ofDeclarations .file none tree.children).map TypeAt.path).Nodup) :
    ((ctx.declared tree).map ClassDoc.name).Nodup := by
  by_cases hscript : ctx.AddsScript tree
  · rw [declared_of_addsScript hscript, List.map_append, names_memberDocs]
    rw [List.map_singleton, ← List.concat_eq_append]
    exact hpaths.concat hscript.2.2
  · rwa [declared_of_not_addsScript hscript, names_memberDocs]

/-- **The documents of a file are those of its types, complete.** With private members documented,
and types of different dotted names, there is a document under the dotted name of each type that has
every member of it in one list, by its name; the only other one is that of a script whose name is
free. -/
theorem assemble_complete (ctx : FileContext) (tree : Syntax.Tree NodeKind) (p : Properties)
    (hoptions : ctx.options = .ofProperties p) (hprivate : p.switch "privateScope" false = true)
    (hpaths : ((TypeAt.ofDeclarations .file none tree.children).map TypeAt.path).Nodup) :
    let types := TypeAt.ofDeclarations .file none tree.children
    let docs := ctx.assemble tree
    (∀ name, name ∈ docs.names ↔
      name ∈ types.map TypeAt.path ∨ ctx.AddsScript tree ∧ name = firstSegment ctx.file) ∧
    (∀ name doc, docs.get? name = some doc → doc.name = name) ∧
    (∀ type ∈ types, ∃ doc, docs.get? type.path = some doc ∧ (ctx.inFile tree).Keeps type doc ∧
      (∀ list, doc.namesIn list = (type.membersIn list).map Syntax.Tree.text) ∧
      (doc.outer = none ∧ type.node ∈ tree.children ∨
        ∃ around ∈ types, doc.outer = some around.path ∧ type.node ∈ around.nestedTypes)) ∧
    (ctx.AddsScript tree → ∃ doc, docs.get? (firstSegment ctx.file) = some doc ∧
      doc.outer = none ∧ doc.nested = []) := by
  have hnodup : ((ctx.declared tree).map ClassDoc.name).Nodup := nodup_names_declared hpaths
  refine ⟨fun name => ?_, fun name doc hdoc => ?_, fun type htype => ?_, fun hscript => ?_⟩
  · -- The documents are those of the types, and one more if a script is added.
    have hdeclared : name ∈ (ctx.assemble tree).names ↔
        name ∈ (ctx.declared tree).map ClassDoc.name := by
      rw [mem_names_assemble, List.mem_map]
    rw [hdeclared]
    by_cases hscript : ctx.AddsScript tree
    · rw [declared_of_addsScript hscript, List.map_append, names_memberDocs, List.mem_append]
      simp only [hscript, true_and]
      exact or_congr_right List.mem_singleton
    · rw [declared_of_not_addsScript hscript, names_memberDocs]
      simp only [hscript, false_and, or_false]
  · exact (place_of_mem_assemble tree _ (NameMap.get?_eq_some_iff.mp hdoc)).1
  · -- with everything documented, the document of a type keeps all its members
    have hall : ∀ v, (ctx.inFile tree).options.includes v = true := by
      intro v
      rw [show (ctx.inFile tree).options = .ofProperties p from hoptions]
      exact includes_of_privateScope hprivate v
    have hmem : (ctx.inFile tree).classDoc type.outer type.node ∈ ctx.declared tree := by
      apply mem_declared_of_mem
      rw [memberDocs_eq_map _ .file]
      exact List.mem_map_of_mem htype
    have hkeeps := keeps_classDoc hall type
    exact ⟨_, get?_assemble hnodup hmem, hkeeps, hkeeps.namesIn_eq, TypeAt.exists_around htype⟩
  · have hmem : (ctx.inFile tree).scriptDoc tree.children ∈ ctx.declared tree := by
      rw [declared_of_addsScript hscript]
      exact List.mem_append_right _ (List.mem_singleton_self _)
    have hname : ((ctx.inFile tree).scriptDoc tree.children).name = firstSegment ctx.file := rfl
    have hget := get?_assemble hnodup hmem
    rw [hname] at hget
    exact ⟨_, hget, rfl, rfl⟩

/-- A file with a statement and a class, whose property stands before a nested interface with a
field and behind a private field. -/
def boxFile : Syntax.Tree NodeKind where
  kind := .compilationUnit
  text := ""
  pos := ⟨1, 1⟩
  children :=
    [.leaf .statement "" ⟨1, 1⟩,
      { kind := .classDef, text := "Box", pos := ⟨2, 1⟩, children :=
        [{ kind := .objBlock, text := "", pos := ⟨2, 11⟩, children :=
          [{ kind := .variableDef, text := "id", pos := ⟨3, 3⟩, children :=
              [{ kind := .modifiers, text := "", pos := ⟨3, 3⟩, children :=
                [.leaf .modifier "private" ⟨3, 3⟩] }] },
            .leaf .variableDef "size" ⟨4, 3⟩,
            { kind := .interfaceDef, text := "Lid", pos := ⟨5, 3⟩, children :=
              [{ kind := .objBlock, text := "", pos := ⟨5, 17⟩, children :=
                [.leaf .variableDef "weight" ⟨6, 5⟩] }] }] }] }]

/-- Where `boxFile` is read. -/
def boxContext : FileContext where
  packagePath := ""
  file := "Boxes.groovy"
  links := []
  options := .ofProperties (.ofList [("privateScope", "true")])

theorem assemble_complete_boxFile :
    let types := TypeAt.ofDeclarations .file none boxFile.children
    let docs := boxContext.assemble boxFile
    types.map TypeAt.path = ["Box.Lid", "Box"] ∧ boxContext.AddsScript boxFile ∧
      (∀ name, name ∈ docs.names ↔ name ∈ ["Box.Lid", "Box"] ∨
        boxContext.AddsScript boxFile ∧ name = "Boxes") ∧
      ∀ type ∈ types, ∃ doc, docs.get? type.path = some doc ∧
        (boxContext.inFile boxFile).Keeps type doc := by
  have hpaths : (TypeAt.ofDeclarations .file none boxFile.children).map TypeAt.path =
      ["Box.Lid", "Box"] := by decide +kernel
  have hfile : firstSegment boxContext.file = "Boxes" := by decide +kernel
  obtain ⟨hnames, -, htypes, -⟩ := assemble_complete boxContext boxFile
    (.ofList [("privateScope", "true")]) rfl (by decide +kernel) (by rw [hpaths]; decide)
  rw [hpaths, hfile] at hnames
  refine ⟨hpaths, ⟨⟨.leaf .statement "" ⟨1, 1⟩, List.mem_cons_self, .inl rfl⟩, by decide +kernel,
    ?_⟩, hnames, fun type htype => ?_⟩
  · rw [hpaths, hfile]
    decide
  · obtain ⟨doc, hdoc, hkeeps, -⟩ := htypes type htype
    exact ⟨doc, hdoc, hkeeps⟩

end FileContext

end ApiDoc
