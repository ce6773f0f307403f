import ApiDoc.Proofs.Access.Document

/-!
# Visibility of Java declarations

Java keeps a declaration without access modifier to its package. The change of access says so with
the annotation `PackageScope`, save where it takes another annotation for it. Without such
annotations the visibility of every declaration is the one Java gives it.
-/

namespace ApiDoc

open Syntax (NodeKind JavaKind Enclosing)

namespace Said

variable {enclosing : Enclosing} {kind : NodeKind} {s : Said}

/-- The visibility that Java gives a declaration without access modifier. -/
def javaDefault (enclosing : Enclosing) (kind : NodeKind) : Visibility :=
  if kind = .ctorIdent then if enclosing = .enumBody then .priv else .pkg
  else if enclosing = .interfaceBody then .pub
  else .pkg

/-- The visibility that Java gives a declaration with at most one access modifier. -/
def javaVisibility (enclosing : Enclosing) (kind : NodeKind) (s : Said) : Visibility :=
  if enclosing = .interfaceBody ∧ kind = .variableDef then .pub
  else s.accesses.head?.getD (javaDefault enclosing kind)

/-- An annotation is taken for the one that keeps a declaration to its package, and none is it. -/
def misnamed (s : Said) : Bool :=
  s.marks.any endsInPackageScope && !s.marks.any Declared.isPackageScope

theorem endsInPackageScope_of_isPackageScope {name : String} (h : Declared.isPackageScope name) :
    endsInPackageScope name := by
  simp only [Declared.isPackageScope, Bool.or_eq_true, decide_eq_true_eq] at h
  unfold endsInPackageScope
  rw [List.isSuffixOf_iff_suffix] at h ⊢
  rcases h with rfl | hdotted
  · exact List.suffix_rfl
  · exact List.IsSuffix.trans (List.suffix_cons _ _) hdotted

theorem any_isPackageScope_eq_false (h : s.marks.any endsInPackageScope = false) :
    s.marks.any Declared.isPackageScope = false := by
  rw [List.any_eq_false] at h ⊢
  exact fun name hname hscope => h name hname (endsInPackageScope_of_isPackageScope hscope)

theorem isOpen_packageScoped : s.packageScoped.isOpen = (s.accesses.isEmpty && s.misnamed) := by
  obtain ⟨accesses, marks⟩ := s
  unfold packageScoped isOpen misnamed
  cases marks.any endsInPackageScope with
  | true => cases haccesses : accesses.isEmpty <;> simp [haccesses]
  | false =>
    have hscope : Declared.isPackageScope "PackageScope" = true := by decide
    cases haccesses : accesses.isEmpty <;> simp [haccesses, hscope]

theorem accesses_packageScoped : s.packageScoped.accesses = s.accesses := by
  unfold packageScoped
  split <;> rfl

/-! ## Without access modifier -/

theorem visibility_of_nil (h : s.accesses = []) :
    s.visibility = if s.isOpen then .pub else .pkg := by
  obtain ⟨_, marks⟩ := s
  obtain rfl := h
  unfold visibility isOpen
  cases marks.any Declared.isPackageScope <;> simp

theorem withoutPublic_of_nil (h : s.accesses = []) : s.withoutPublic = s := by
  obtain ⟨_, marks⟩ := s
  obtain rfl := h
  rfl

theorem visibility_packageScoped (h : s.accesses = []) :
    s.packageScoped.visibility = if s.misnamed then .pub else .pkg := by
  rw [visibility_of_nil (accesses_packageScoped.trans h), isOpen_packageScoped, h]
  rfl

/-- Outside interfaces a declaration without access modifier is kept to its package, if no
annotation has a misleading name, and the constructors of enums are private. -/
theorem visibility_given_of_nil (h : s.accesses = []) (hout : enclosing ≠ .interfaceBody) :
    (s.given enclosing kind).visibility =
      if kind = .ctorIdent ∧ enclosing = .enumBody then .priv
      else if s.misnamed then .pub else .pkg := by
  have hscoped := visibility_packageScoped h
  have hpublic : s.packageScoped.withoutPublic = s.packageScoped :=
    withoutPublic_of_nil (accesses_packageScoped.trans h)
  unfold given
  simp only [hout, if_false]
  split
  case h_1 => simpa using hscoped
  case h_2 =>
    by_cases henum : enclosing = .enumBody
    · simp [henum, madePrivate, h, withoutPublic, visibility]
    · simpa [henum, hpublic] using hscoped
  case h_3 hctor => rw [if_neg fun h => hctor h.1, hpublic, hscoped]

/-! ## With one access modifier -/

theorem packageScoped_of_ne_nil (h : s.accesses ≠ []) : s.packageScoped = s := by
  unfold packageScoped
  simp [h]

theorem madePrivate_of_ne_nil (h : s.accesses ≠ []) : s.madePrivate = s := by
  unfold madePrivate
  simp [h]

theorem visibility_of_singleton {v : Visibility} (h : s.accesses = [v]) : s.visibility = v := by
  unfold visibility
  simp [h]

theorem visibility_withoutPublic {v : Visibility} (h : s.accesses = [v])
    (hmarks : s.marks.any endsInPackageScope = false) : s.withoutPublic.visibility = v := by
  obtain ⟨_, marks⟩ := s
  obtain rfl := h
  by_cases hv : v = .pub
  · simp [withoutPublic, visibility, hv, any_isPackageScope_eq_false hmarks]
  · simp [withoutPublic, visibility, hv]

theorem visibility_given_of_singleton {v : Visibility} (h : s.accesses = [v])
    (hmarks : s.marks.any endsInPackageScope = false) :
    (s.given enclosing kind).visibility = v := by
  have hne : s.accesses ≠ [] := by simp [h]
  have hpublic := visibility_withoutPublic h hmarks
  unfold given
  simp only [packageScoped_of_ne_nil hne, madePrivate_of_ne_nil hne, ite_self]
  split
  · exact visibility_of_singleton h
  · exact hpublic
  · exact hpublic

/-- Where no annotation has a misleading name, a declaration without access modifier is as visible
as Java makes it. -/
theorem visibility_given_eq_javaDefault (h : s.accesses = [])
    (hmarks : s.marks.any endsInPackageScope = false)
    (hfield : ¬(enclosing = .interfaceBody ∧ kind = .variableDef)) :
    (s.given enclosing kind).visibility = javaDefault enclosing kind := by
  have hmisnamed : s.misnamed = false := by simp [misnamed, hmarks]
  by_cases hinterface : enclosing = .interfaceBody
  · -- In an interface only a constructor is kept to its package; all else stays open.
    have hopen : s.visibility = .pub := by
      rw [visibility_of_nil h, isOpen, h, any_isPackageScope_eq_false hmarks]
      rfl
    have hscoped : s.packageScoped.withoutPublic.visibility = .pkg := by
      rw [withoutPublic_of_nil (accesses_packageScoped.trans h), visibility_packageScoped h,
        hmisnamed]
      rfl
    unfold given javaDefault
    simp only [hinterface, withoutPublic_of_nil h, if_true, reduceCtorEq, if_false]
    split
    case h_1 => exact absurd ⟨hinterface, rfl⟩ hfield
    case h_2 => exact hscoped
    case h_3 hctor => rw [if_neg hctor, hopen]
  · rw [visibility_given_of_nil h hinterface, hmisnamed]
    by_cases hctor : kind = .ctorIdent
    · simp [javaDefault, hctor]
    · simp [javaDefault, hctor, hinterface]

/-- The visibility of a declaration with its access given is the one Java gives. -/
theorem visibility_given (haccesses : s.accesses.length ≤ 1)
    (hmarks : s.marks.any endsInPackageScope = false)
    (hfield : ¬(enclosing = .interfaceBody ∧ kind = .variableDef)) :
    (s.given enclosing kind).visibility = s.javaVisibility enclosing kind := by
  rw [javaVisibility, if_neg hfield]
  match hlist : s.accesses with
  | [] => exact visibility_given_eq_javaDefault hlist hmarks hfield
  | [v] => exact visibility_given_of_singleton hlist hmarks
  | _ :: _ :: _ => simp [hlist] at haccesses

/-- A field is open with its access given where an annotation has a misleading name. -/
theorem isOpen_given (hout : enclosing ≠ .interfaceBody) :
    (s.given enclosing .variableDef).isOpen = (s.accesses.isEmpty && s.misnamed) := by
  rw [← isOpen_packageScoped, given, if_neg hout]

theorem mem_preorder_of_mem_marks {t : Syntax.Tree NodeKind} {name : String}
    (h : name ∈ (ofTree t).marks) :
    ∃ mark ∈ t.preorder, mark.kind = .annotationMark ∧ mark.text = name := by
  unfold ofTree at h
  cases hlist : t.child? .modifiers with
  | none => simp [hlist] at h
  | some list =>
    simp only [hlist, ofModifiers, Syntax.Tree.childrenOf, List.mem_map, List.mem_filter,
      decide_eq_true_eq] at h
    obtain ⟨mark, ⟨hmark, hkind⟩, htext⟩ := h
    have hchild : list ∈ t.preorder :=
      Syntax.Tree.mem_preorder_child (List.mem_of_find?_eq_some hlist)
    have hnode := Syntax.Tree.mem_preorder_trans (Syntax.Tree.mem_preorder_child hmark) t hchild
    exact ⟨mark, hnode, hkind, htext⟩

end Said

/-! ## Files -/

namespace AccessRule

/-- The access rules of Java, for declarations with at most one access modifier. Everything is
documented. -/
def java : AccessRule where
  visibility enclosing t := (Said.ofTree t).javaVisibility enclosing t.kind
  isProperty _ _ := false
  includes _ := true

variable {type : TypeAt} {doc : ClassDoc} {options : DocOptions} {enclosing : Enclosing}
  {t : Syntax.Tree NodeKind}

theorem properties_of_shows_java (h : java.Shows type doc) : doc.properties = [] := by
  have hnone : doc.properties.map (fun d => (d.name, d.visibility)) = [] := by
    rw [h.properties, signatures]
    simp [java]
  exact List.map_eq_nil_iff.mp hnone

theorem visibility_given_eq_java (haccesses : (Said.ofTree t).accesses.length ≤ 1)
    (hmarks : (Said.ofTree t).marks.any Said.endsInPackageScope = false) :
    (given options).visibility enclosing t = java.visibility enclosing t := by
  by_cases hfield : enclosing = .interfaceBody ∧ t.kind = .variableDef
  · simp only [given, java, Said.javaVisibility, hfield, and_self, if_true]
  · show (if _ then _ else _) = _
    rw [if_neg hfield]
    exact Said.visibility_given haccesses hmarks hfield

theorem isProperty_given (hkind : t.kind = .variableDef) :
    (given options).isProperty enclosing t =
      (decide (enclosing ≠ .interfaceBody) &&
        ((Said.ofTree t).accesses.isEmpty && (Said.ofTree t).misnamed)) := by
  by_cases hout : enclosing = .interfaceBody
  · simp [given, hout]
  · simp only [given, hkind, Said.isOpen_given hout]

end AccessRule

/-- Reading a Java file keeps the visibility of its declarations: if no annotation has a name that
ends in `PackageScope` and no declaration has two access modifiers, the documents with everything in
scope are those of the types in the file, each shows its type and members by the access rules of
Java, and none has a property. -/
theorem java_visibility_survives_reading {source : String} {file : Syntax.Tree JavaKind}
    {tree : Syntax.Tree NodeKind} {ctx : FileContext} {properties : Properties}
    (hfile : Syntax.Java.parse source = .ok file)
    (htree : Syntax.Language.java.parse source = .ok tree)
    (hmarks : ∀ n ∈ file.normalized.preorder, n.kind = .annotationMark →
      ¬"PackageScope".toList <:+ n.text.toList)
    (haccess : ∀ n ∈ file.normalized.preorder,
      n.kind.isTypeDef ∨ Syntax.Access.isMember n.kind → (Said.ofTree n).accesses.length ≤ 1)
    (hoptions : ctx.options = .ofProperties properties)
    (hscope : properties.switch "privateScope" false = true) :
    ∃ docs : List ClassDoc, ctx.assemble tree = .ofList (docs.map fun doc => (doc.name, doc)) ∧
      List.Forall₂ AccessRule.java.Shows (TypeAt.ofFile file) docs ∧
      ∀ doc ∈ docs, doc.properties = [] := by
  obtain ⟨file', docs, hfile', hassemble, hshows⟩ := FileContext.assemble_java htree ctx
  obtain rfl := Except.ok.inj (hfile.symm.trans hfile')
  -- no name ends in the annotation that would make a declaration package scoped
  have hclean : ∀ n ∈ file.normalized.preorder,
      (Said.ofTree n).marks.any Said.endsInPackageScope = false := by
    intro n hn
    rw [List.any_eq_false]
    intro name hname hends
    obtain ⟨mark, hmark, hkind, rfl⟩ := Said.mem_preorder_of_mem_marks hname
    exact hmarks mark (Syntax.Tree.mem_preorder_trans hmark _ hn) hkind
      (List.isSuffixOf_iff_suffix.mp hends)
  -- with the private scope, the options leave nothing out
  have hincludes : ∀ v, (AccessRule.given ctx.options).includes v = AccessRule.java.includes v := by
    intro v
    have hleast : ctx.options.minVisibility = .priv := by
      rw [hoptions]
      exact if_pos hscope
    show decide (ctx.options.minVisibility ≤ v) = true
    rw [hleast]
    exact decide_eq_true (Nat.zero_le _)
  have hjava : List.Forall₂ AccessRule.java.Shows (TypeAt.ofFile file) docs := by
    have hboth := (List.forall₂_and_left _ _).mpr
      ⟨fun type htype => TypeAt.of_mem_ofFile htype, hshows⟩
    refine hboth.imp fun type doc ⟨⟨hkind, hnode, hmembers⟩, h⟩ => ?_
    refine h.congr (fun m hm hmember => ?_) (fun m hm hfield => ?_) hincludes ?_
    · have hm := hmembers m hm
      exact AccessRule.visibility_given_eq_java (haccess m hm (.inr hmember)) (hclean m hm)
    · have hmisnamed : (Said.ofTree m).misnamed = false := by
        simp [Said.misnamed, hclean m (hmembers m hm)]
      rw [AccessRule.isProperty_given hfield, hmisnamed, Bool.and_false, Bool.and_false]
      rfl
    · exact AccessRule.visibility_given_eq_java (haccess _ hnode (.inl hkind)) (hclean _ hnode)
  refine ⟨docs, hassemble, hjava, ?_⟩
  have hnone := hjava.flip.imp fun doc type h =>
    (⟨AccessRule.properties_of_shows_java h, trivial⟩ : doc.properties = [] ∧ True)
  exact ((List.forall₂_and_left _ _).mp hnone).1

/-- A class with a field, an enum with a constructor and an interface with a method. -/
def nestedTypes : String :=
  "@B class A \x7b int x; enum E \x7b P; E() \x7b\x7d \x7d interface I \x7b void m(); \x7d \x7d"

/-- A file whose private members are documented. -/
def privateScope : FileContext where
  packagePath := ""
  file := "A.java"
  links := []
  options := .ofProperties (.ofList [("privateScope", "true")])

theorem java_visibility_survives_reading_nested :
    ∃ file tree, Syntax.Java.parse nestedTypes = .ok file ∧
      Syntax.Language.java.parse nestedTypes = .ok tree ∧
      ∃ docs : List ClassDoc,
        privateScope.assemble tree = .ofList (docs.map fun doc => (doc.name, doc)) ∧
        List.Forall₂ AccessRule.java.Shows (TypeAt.ofFile file) docs ∧
        ∀ doc ∈ docs, doc.properties = [] := by
  have hread : (Syntax.Language.java.parse nestedTypes).toOption.isSome = true := by
    decide +kernel
  have hnodes : ∀ file ∈ (Syntax.Java.parse nestedTypes).toOption,
      ∀ n ∈ file.normalized.preorder,
        (n.kind = .annotationMark → ¬"PackageScope".toList <:+ n.text.toList) ∧
        (n.kind.isTypeDef ∨ Syntax.Access.isMember n.kind →
          (Said.ofTree n).accesses.length ≤ 1) := by
    decide +kernel
  obtain ⟨tree, htree⟩ := exists_eq_ok hread
  obtain ⟨file, hfile, -⟩ := FileContext.declarations_of_parse htree
  have hnode := hnodes file (by rw [hfile]; rfl)
  exact ⟨file, tree, hfile, htree, java_visibility_survives_reading hfile htree
    (fun n hn => (hnode n hn).1) (fun n hn => (hnode n hn).2) rfl (by decide +kernel)⟩

/-! ## Annotations with misleading names -/

/-- Declarations as a Java file shows them. Outside interfaces, what is without access modifier is
private in the constructors of enums, public where an annotation has a misleading name, and kept to
its package otherwise; a field is a property where it is public that way. -/
def AccessRule.misled (options : DocOptions) : AccessRule where
  visibility enclosing t :=
    if (Said.ofTree t).accesses = [] ∧ enclosing ≠ .interfaceBody then
      if t.kind = .ctorIdent ∧ enclosing = .enumBody then .priv
      else if (Said.ofTree t).misnamed then .pub
      else .pkg
    else (given options).visibility enclosing t
  isProperty enclosing t :=
    enclosing ≠ .interfaceBody && (Said.ofTree t).accesses.isEmpty && (Said.ofTree t).misnamed
  includes := options.includes

theorem AccessRule.visibility_given_eq_misled {options : DocOptions} {enclosing : Enclosing}
    {t : Syntax.Tree NodeKind} :
    (given options).visibility enclosing t = (misled options).visibility enclosing t := by
  by_cases h : (Said.ofTree t).accesses = [] ∧ enclosing ≠ .interfaceBody
  · have hfield : ¬(enclosing = .interfaceBody ∧ t.kind = .variableDef) := fun hfield =>
      h.2 hfield.1
    have hmisled : ((Said.ofTree t).given enclosing t.kind).visibility = _ :=
      Said.visibility_given_of_nil h.1 h.2
    simpa only [given, misled, if_neg hfield, if_pos h] using hmisled
  · simp only [misled, if_neg h]

/-- The documents of a Java file are those of the types in it, under any options and whatever the
annotations. Outside interfaces and the constructors of enums, a declaration without access modifier
is public, and a field a property, exactly where the name of an annotation ends in `PackageScope`
and none is the annotation of that name. -/
theorem java_public_by_default_iff_misnamed {source : String} {tree : Syntax.Tree NodeKind}
    (htree : Syntax.Language.java.parse source = .ok tree) (ctx : FileContext) :
    ∃ (file : Syntax.Tree JavaKind) (docs : List ClassDoc), Syntax.Java.parse source = .ok file ∧
      ctx.assemble tree = .ofList (docs.map fun doc => (doc.name, doc)) ∧
      List.Forall₂ (AccessRule.misled ctx.options).Shows (TypeAt.ofFile file) docs := by
  obtain ⟨file, docs, hfile, hassemble, hshows⟩ := FileContext.assemble_java htree ctx
  refine ⟨file, docs, hfile, hassemble, hshows.imp fun type doc h => ?_⟩
  refine h.congr (fun m _ _ => AccessRule.visibility_given_eq_misled) (fun m _ hfield => ?_)
    (fun _ => rfl) AccessRule.visibility_given_eq_misled
  rw [AccessRule.isProperty_given hfield, ← Bool.and_assoc]
  rfl

/-- A class whose field has an annotation with a misleading name. -/
def misnamedField : String := "class A \x7b @MyPackageScope int x; \x7d"

theorem java_public_by_default_iff_misnamed_field :
    ∃ tree, Syntax.Language.java.parse misnamedField = .ok tree ∧
      ∃ (file : Syntax.Tree JavaKind) (docs : List ClassDoc),
        Syntax.Java.parse misnamedField = .ok file ∧
        privateScope.assemble tree = .ofList (docs.map fun doc => (doc.name, doc)) ∧
        List.Forall₂ (AccessRule.misled privateScope.options).Shows (TypeAt.ofFile file) docs := by
  have hread : (Syntax.Language.java.parse misnamedField).toOption.isSome = true := by
    decide +kernel
  obtain ⟨tree, htree⟩ := exists_eq_ok hread
  exact ⟨tree, htree, java_public_by_default_iff_misnamed htree privateScope⟩

/-- The field is kept to its package in Java, and documented as a public property. -/
theorem misnamed_field_is_public_property :
    (Syntax.Language.java.parse misnamedField).toOption.map (fun tree =>
      (privateScope.assemble tree).values.map fun doc =>
        (doc.fields.length, doc.properties.map fun d => (d.name, d.visibility))) =
      some [(0, [("x", .pub)])] := by
  decide +kernel

end ApiDoc
