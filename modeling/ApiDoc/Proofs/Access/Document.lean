import ApiDoc.Proofs.Access.Declaration
import ApiDoc.Proofs.Syntax.Normalized
import ApiDoc.Syntax.Reading

/-!
# The documents of a Java file

An `AccessRule` says how declarations are shown, and `AccessRule.Shows` that the document of a type
shows the type and its members by a rule. The documents of a Java file show the types in it, each
once, by the rule that reads modifiers with their access given: `assemble_java`.
-/

namespace ApiDoc

open Syntax (NodeKind JavaKind Enclosing)

/-- How declarations are shown, by what they stand in. -/
structure AccessRule where
  visibility : Enclosing → Syntax.Tree NodeKind → Visibility
  /-- Is a field a property? -/
  isProperty : Enclosing → Syntax.Tree NodeKind → Bool
  /-- Are members of a visibility documented? -/
  includes : Visibility → Bool

/-- What the members of a type stand in. -/
def TypeAt.inner (type : TypeAt) : Enclosing := .ofKind type.node.kind

/-- The types that a Java file declares, inner ones before those around them. -/
def TypeAt.ofFile (file : Syntax.Tree JavaKind) : List TypeAt :=
  ofDeclarations .file none file.normalized.children

/-- The types of a file and their members are nodes of the file. -/
theorem TypeAt.of_mem_ofFile {file : Syntax.Tree JavaKind} {type : TypeAt}
    (h : type ∈ TypeAt.ofFile file) :
    type.node.kind.isTypeDef ∧ type.node ∈ file.normalized.preorder ∧
      ∀ m ∈ membersOf type.node, m ∈ file.normalized.preorder := by
  obtain ⟨hkind, hall⟩ := of_mem_ofDeclarations h
  have hnode : type.node ∈ file.normalized.preorder := by
    obtain ⟨t, ht, hnode⟩ := Syntax.Tree.mem_preorderAll.mp hall
    exact Syntax.Tree.mem_preorder_trans hnode _ (Syntax.Tree.mem_preorder_child ht)
  refine ⟨hkind, hnode, fun m hm => Syntax.Tree.mem_preorder_trans ?_ _ hnode⟩
  unfold membersOf at hm
  cases hblock : type.node.child? .objBlock with
  | none => simp [hblock] at hm
  | some block =>
    simp only [hblock] at hm
    exact Syntax.Tree.mem_preorder_trans (Syntax.Tree.mem_preorder_child hm) _
      (Syntax.Tree.mem_preorder_child (List.mem_of_find?_eq_some hblock))

namespace AccessRule

variable {rule other : AccessRule} {type : TypeAt} {doc : ClassDoc}

/-- The names and visibilities of the members of a type that `p` holds of, as far as they are
documented. -/
def signatures (rule : AccessRule) (type : TypeAt) (p : Syntax.Tree NodeKind → Bool) :
    List (String × Visibility) :=
  (((membersOf type.node).filter p).map fun m => (m.text, rule.visibility type.inner m)).filter
    fun s => rule.includes s.2

/-- A document shows a type and its members by a rule. -/
structure Shows (rule : AccessRule) (type : TypeAt) (doc : ClassDoc) : Prop where
  name : doc.name = nestedName type.outer type.node.text
  visibility : doc.visibility = rule.visibility type.enclosing type.node
  fields : doc.fields.map (fun d => (d.name, d.visibility)) =
    rule.signatures type fun m => m.kind = .variableDef && !rule.isProperty type.inner m
  properties : doc.properties.map (fun d => (d.name, d.visibility)) =
    rule.signatures type fun m => m.kind = .variableDef && rule.isProperty type.inner m
  constructors : doc.constructors.map (fun d => (d.name, d.visibility)) =
    rule.signatures type fun m => m.kind = .ctorIdent
  methods : doc.methods.map (fun d => (d.name, d.visibility)) =
    rule.signatures type fun m => m.kind = .methodDef || m.kind = .annotationFieldDef

/-! ## Rules that agree -/

theorem signatures_congr {p q : Syntax.Tree NodeKind → Bool}
    (hp : ∀ m ∈ membersOf type.node, p m = q m)
    (hvisibility : ∀ m ∈ membersOf type.node, p m →
      rule.visibility type.inner m = other.visibility type.inner m)
    (hincludes : ∀ v, rule.includes v = other.includes v) :
    rule.signatures type p = other.signatures type q := by
  unfold signatures
  have hsignatures : ((membersOf type.node).filter p).map
        (fun m => (m.text, rule.visibility type.inner m)) =
      ((membersOf type.node).filter q).map fun m => (m.text, other.visibility type.inner m) := by
    rw [← List.filter_congr hp]
    refine List.map_congr_left fun m hm => ?_
    obtain ⟨hmem, hpm⟩ := List.mem_filter.mp hm
    rw [hvisibility m hmem hpm]
  rw [hsignatures]
  exact List.filter_congr fun s _ => hincludes s.2

section

variable
  (hvisibility : ∀ m ∈ membersOf type.node, Syntax.Access.isMember m.kind →
    rule.visibility type.inner m = other.visibility type.inner m)
  (hproperty : ∀ m ∈ membersOf type.node, m.kind = .variableDef →
    rule.isProperty type.inner m = other.isProperty type.inner m)
  (hincludes : ∀ v, rule.includes v = other.includes v)
include hvisibility hproperty hincludes

theorem fields_congr (wanted : Bool → Bool) :
    (rule.signatures type fun m => m.kind = .variableDef && wanted (rule.isProperty type.inner m)) =
      other.signatures type fun m =>
        m.kind = .variableDef && wanted (other.isProperty type.inner m) := by
  refine signatures_congr (fun m hm => ?_) (fun m hm hp => ?_) hincludes
  · by_cases hkind : m.kind = .variableDef
    · rw [hproperty m hm hkind]
    · simp [hkind]
  · simp only [Bool.and_eq_true, decide_eq_true_eq] at hp
    exact hvisibility m hm (by simp [Syntax.Access.isMember, hp.1])

/-- Rules that agree on a type and its members have the same documents. -/
theorem Shows.congr (h : rule.Shows type doc)
    (htype : rule.visibility type.enclosing type.node =
      other.visibility type.enclosing type.node) : other.Shows type doc where
  name := h.name
  visibility := h.visibility.trans htype
  fields := h.fields.trans (fields_congr hvisibility hproperty hincludes not)
  properties := h.properties.trans (fields_congr hvisibility hproperty hincludes id)
  constructors := by
    refine h.constructors.trans (signatures_congr (fun _ _ => rfl) (fun m hm hp => ?_) hincludes)
    exact hvisibility m hm (by simp [Syntax.Access.isMember, of_decide_eq_true hp])
  methods := by
    refine h.methods.trans (signatures_congr (fun _ _ => rfl) (fun m hm hp => ?_) hincludes)
    simp only [Bool.or_eq_true, decide_eq_true_eq] at hp
    exact hvisibility m hm (by rcases hp with hp | hp <;> simp [Syntax.Access.isMember, hp])

end

/-! ## Reading modifiers with their access given -/

/-- Declarations as they are shown once they have their access. -/
def given (options : DocOptions) : AccessRule where
  visibility enclosing t :=
    if enclosing = .interfaceBody ∧ t.kind = .variableDef then .pub
    else ((Said.ofTree t).given enclosing t.kind).visibility
  isProperty enclosing t :=
    enclosing ≠ .interfaceBody && ((Said.ofTree t).given enclosing t.kind).isOpen
  includes := options.includes

end AccessRule

namespace FileContext

open Syntax.Access

variable {ctx : FileContext} {type : TypeAt} {doc : ClassDoc}

/-- Documents of members that correspond to declarations are listed as these are. -/
theorem documented_eq {δ : Type} {R : Syntax.Tree NodeKind → Syntax.Tree NodeKind → Prop}
    {p q : Syntax.Tree NodeKind → Bool} {make : Syntax.Tree NodeKind → δ}
    {sign : δ → String × Visibility} {visibility : Syntax.Tree NodeKind → Visibility}
    (includes : Visibility → Bool) {ts ts' : List (Syntax.Tree NodeKind)}
    (h : List.Forall₂ R ts ts')
    (hp : ∀ m m', R m m' → q m' = p m)
    (hsign : ∀ m m', R m m' → p m → sign (make m') = (m.text, visibility m)) :
    (((ts'.filter q).map make).filter fun d => includes (sign d).2).map sign =
      ((ts.filter p).map fun m => (m.text, visibility m)).filter fun s => includes s.2 := by
  induction h with
  | nil => rfl
  | @cons m m' ts ts' hm hrest ih =>
    rw [List.filter_cons, List.filter_cons, hp m m' hm]
    split
    case isTrue hpm =>
      rw [List.map_cons, List.map_cons, List.filter_cons, List.filter_cons, hsign m m' hm hpm]
      split
      case isTrue => rw [List.map_cons, hsign m m' hm hpm, ih]
      case isFalse => exact ih
    case isFalse => exact ih

theorem inInterface_eq (kind : NodeKind) :
    ((classKindOf kind = .interfaceType || classKindOf kind = .annotationType : Bool)) =
      decide (Enclosing.ofKind kind = .interfaceBody) := by
  cases kind <;> rfl

section

variable {inner : Enclosing} {ts ts' : List (Syntax.Tree NodeKind)}
  (h : List.Forall₂ (fun m m' => declaration inner m = .ok m') ts ts')
include h

theorem methodDocs_shows (p : NodeKind → Bool)
    (hp : ∀ kind, p kind → isMember kind ∧ kind ≠ .variableDef) :
    (((ts'.filter fun m => p m.kind).map ctx.methodDoc).filter
        fun d => ctx.options.includes d.visibility).map (fun d => (d.name, d.visibility)) =
      ((ts.filter fun m => p m.kind).map
        fun m => (m.text, (AccessRule.given ctx.options).visibility inner m)).filter
        fun s => ctx.options.includes s.2 := by
  refine documented_eq ctx.options.includes h (fun m m' hm => by rw [kind_declaration hm])
    fun m m' hm hpm => ?_
  obtain ⟨hmember, hne⟩ := hp _ hpm
  have hturned := declaration_member hmember hm
  have hrule : (AccessRule.given ctx.options).visibility inner m =
      ((Said.ofTree m).given inner m.kind).visibility := if_neg fun h => hne h.2
  show (m'.text, (Declared.ofTree m').visibility) = _
  rw [hturned.text, Said.visibility_ofTree, hturned.said, hrule]

theorem fieldDocs_shows (wanted : Bool → Bool) :
    ((((ts'.filter fun m => m.kind = .variableDef).filter fun m =>
        wanted (!decide (inner = .interfaceBody) && (Declared.ofTree m).isOpen)).map
          (ctx.fieldDoc (decide (inner = .interfaceBody)))).filter
        fun d => ctx.options.includes d.visibility).map (fun d => (d.name, d.visibility)) =
      ((ts.filter fun m => m.kind = .variableDef &&
          wanted ((AccessRule.given ctx.options).isProperty inner m)).map
        fun m => (m.text, (AccessRule.given ctx.options).visibility inner m)).filter
        fun s => ctx.options.includes s.2 := by
  have hturned : ∀ m m', declaration inner m = .ok m' → m.kind = .variableDef →
      Turned (Said.given inner m.kind) m m' := fun m m' hm hkind =>
    declaration_member (by simp [isMember, hkind]) hm
  rw [List.filter_filter]
  -- Both sides choose the same members, and say the same of each one chosen.
  refine documented_eq ctx.options.includes h (fun m m' hm => ?_) fun m m' hm hpm => ?_
  · rw [kind_declaration hm]
    by_cases hkind : m.kind = .variableDef
    · rw [Said.isOpen_ofTree, (hturned m m' hm hkind).said, Bool.and_comm]
      simp [AccessRule.given]
    · simp [hkind]
  · simp only [Bool.and_eq_true, decide_eq_true_eq] at hpm
    have hfield := hturned m m' hm hpm.1
    show (m'.text, if decide (inner = .interfaceBody) then Visibility.pub
      else (Declared.ofTree m').visibility) = _
    rw [hfield.text, Said.visibility_ofTree, hfield.said]
    simp [AccessRule.given, hpm.1]

end

/-- The document of a type shows what its declaration and its members say once they have their
access. -/
theorem Documents.shows (h : ctx.Documents type doc) :
    (AccessRule.given ctx.options).Shows type doc := by
  obtain ⟨htype, t, ht, rfl⟩ := h
  obtain ⟨hkind, htext, hsaid⟩ := said_typeDef htype ht
  have hmembers := members_typeDef htype ht
  have hinner : decide (Enclosing.ofKind type.node.kind = .interfaceBody) =
      (classKindOf t.kind = .interfaceType || classKindOf t.kind = .annotationType : Bool) := by
    rw [inInterface_eq, hkind]
  refine ⟨congrArg (nestedName type.outer) htext, ?_, ?_, ?_, ?_, ?_⟩
  · -- A type is no field, so the rule for fields of an interface does not touch it.
    have hne : type.node.kind ≠ .variableDef := fun h => by simp [h, NodeKind.isTypeDef] at htype
    have hrule : (AccessRule.given ctx.options).visibility type.enclosing type.node =
        ((Said.ofTree type.node).given type.enclosing type.node.kind).visibility :=
      if_neg fun h => hne h.2
    show (Declared.ofTree t).visibility = _
    rw [Said.visibility_ofTree, hsaid, hrule]
  · refine Eq.trans ?_ (fieldDocs_shows hmembers not)
    rw [hinner]
    rfl
  · refine Eq.trans ?_ (fieldDocs_shows hmembers id)
    rw [hinner]
    rfl
  · exact methodDocs_shows hmembers (fun kind => kind = .ctorIdent) (by simp [isMember])
  · refine methodDocs_shows hmembers
      (fun kind => kind = .methodDef || kind = .annotationFieldDef) fun kind hkind => ?_
    simp only [Bool.or_eq_true, decide_eq_true_eq] at hkind
    obtain rfl | rfl := hkind <;> decide

/-! ## Files -/

/-- A Java file that is read holds the declarations of its tree, with their access. -/
theorem declarations_of_parse {source : String} {tree : Syntax.Tree NodeKind}
    (h : Syntax.Language.java.parse source = .ok tree) :
    ∃ file, Syntax.Java.parse source = .ok file ∧
      declarations .file file.normalized.children = .ok tree.children := by
  obtain ⟨file, hfile, h⟩ := bind_ok.mp h
  rw [Syntax.TagTable.normalize_java] at h
  obtain ⟨_, heq, h⟩ := bind_ok.mp h
  obtain rfl := Except.ok.inj heq
  refine ⟨file, hfile, ?_⟩
  unfold Syntax.Tree.withGroovyAccess at h
  split at h
  case isTrue => cases h
  case isFalse =>
    obtain ⟨ts, hts, heq⟩ := bind_ok.mp h
    obtain rfl := Except.ok.inj heq
    exact hts

/-- No declaration of a Java file makes it a script. -/
theorem isScript_java {source : String} {file : Syntax.Tree JavaKind}
    {ts : List (Syntax.Tree NodeKind)} (hfile : Syntax.Java.parse source = .ok file)
    (h : declarations .file file.normalized.children = .ok ts) : isScript ts = false := by
  have hscript : isScript ts =
      (ts.map Syntax.Tree.kind).any fun kind => kind = .statement || kind = .methodDef := by
    rw [List.any_map]
    rfl
  obtain ⟨-, htop⟩ := Syntax.Java.topOf_parse (B := fun _ _ _ => True)
    (fun _ _ _ _ => trivial) hfile
  -- access changes no kinds, so it is enough to see which kinds stand at the top
  rw [hscript, kinds_declarations h, List.any_map, List.any_eq_false,
    Syntax.Tree.children_normalized, List.forall_mem_map]
  intro n hn
  have hshape : Syntax.Grammar.groovy.TopOf (fun _ _ => True) n.normalized :=
    (htop n hn).normalized fun _ _ hb => hb
  show ¬(n.normalized.kind = .statement || n.normalized.kind = .methodDef : Bool) = true
  rcases hshape with h | h | h | h
  · rw [h.1]
    decide
  · rw [h.1]
    decide
  · rw [h.1]
    decide
  · have htype := Syntax.Grammar.isTypeDef_of_isTypeKind h.1
    intro hkind
    simp only [Bool.or_eq_true, decide_eq_true_eq] at hkind
    rcases hkind with hkind | hkind
    all_goals
      rw [hkind] at htype
      cases htype

/-- The documents of a Java file are those of the types that it declares. -/
theorem assemble_java {source : String} {tree : Syntax.Tree NodeKind}
    (h : Syntax.Language.java.parse source = .ok tree) (ctx : FileContext) :
    ∃ file docs, Syntax.Java.parse source = .ok file ∧
      ctx.assemble tree = .ofList (docs.map fun doc => (doc.name, doc)) ∧
      List.Forall₂ (AccessRule.given ctx.options).Shows (TypeAt.ofFile file) docs := by
  obtain ⟨file, hfile, hdeclarations⟩ := declarations_of_parse h
  refine ⟨file, _, hfile, ?_, ((memberDocs_declarations
    { ctx with imports := (tree.childrenOf .importDef).map Syntax.Tree.text }
    hdeclarations).imp fun type doc hdoc => hdoc.shows)⟩
  unfold assemble
  rw [isScript_java hfile hdeclarations]
  rfl

end FileContext

end ApiDoc
