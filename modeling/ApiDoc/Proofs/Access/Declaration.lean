import ApiDoc.Proofs.Access.Modifiers
import ApiDoc.Proofs.Doc.Declared
import ApiDoc.Proofs.Syntax.Tree
import Mathlib.Data.List.Forall2

/-!
# Declarations with their access

Giving a declaration its access the Groovy way keeps its kind, its name and, for a type, its members
in order; what its modifiers say changes as `Said.given` tells. So the documents of a list of
declarations are those of the types in it, each with its own change made: `memberDocs_declarations`.
-/

namespace ApiDoc

open Syntax (NodeKind Enclosing ParseError)

theorem exists_eq_ok {ε α : Type} {x : Except ε α} (h : x.toOption.isSome = true) :
    ∃ a, x = .ok a := by
  cases x with
  | error e => cases h
  | ok a => exact ⟨a, rfl⟩

/-- What a declaration says once it has its access the Groovy way. -/
def Said.given (enclosing : Enclosing) (kind : NodeKind) (s : Said) : Said :=
  let kept := if enclosing = .interfaceBody then s else s.packageScoped
  match kind with
  | .variableDef => kept
  | .ctorIdent => (if enclosing = .enumBody then s.madePrivate else s.packageScoped).withoutPublic
  | _ => kept.withoutPublic

namespace Syntax.Access

variable {enclosing : Enclosing} {t t' : Tree NodeKind} {ts ts' : List (Tree NodeKind)}

theorem bind_ok {α β : Type} {x : Except ParseError α} {f : α → Except ParseError β} {b : β} :
    x >>= f = .ok b ↔ ∃ a, x = .ok a ∧ f a = .ok b := by
  cases x with
  | error e => exact ⟨nofun, nofun⟩
  | ok a => exact ⟨fun h => ⟨a, rfl, h⟩, fun ⟨_, ha, hf⟩ => Except.ok.inj ha ▸ hf⟩

/-! ## Children of a kind -/

theorem find?_modifyFirst {kind other : NodeKind} {f : Tree NodeKind → Tree NodeKind}
    (hf : ∀ t, (f t).kind = t.kind) (ts : List (Tree NodeKind)) :
    (Tree.modifyFirst kind f ts).find? (fun c => c.kind = other) =
      if kind = other then (ts.find? fun c => c.kind = other).map f
      else ts.find? fun c => c.kind = other := by
  induction ts with
  | nil => simp [Tree.modifyFirst]
  | cons t ts ih =>
    unfold Tree.modifyFirst
    by_cases hkind : t.kind = kind
    · by_cases hother : kind = other <;> simp [hkind, hother, hf]
    · by_cases hother : t.kind = other
      · have hne : kind ≠ other := fun h => hkind (hother.trans h.symm)
        simp [hne, hne.symm, hother]
      · rw [if_neg hkind, List.find?_cons_of_neg (by simpa using hother), ih,
          List.find?_cons_of_neg (by simpa using hother)]

theorem find?_extract? {kind other : NodeKind} (hne : kind ≠ other) {found : Tree NodeKind} :
    ∀ {ts rest : List (Tree NodeKind)}, extract? kind ts = some (found, rest) →
      rest.find? (fun c => c.kind = other) = ts.find? fun c => c.kind = other
  | t :: ts, rest, h => by
    unfold extract? at h
    split at h
    case isTrue hkind =>
      obtain ⟨rfl, rfl⟩ := Prod.mk.inj (Option.some.inj h)
      rw [List.find?_cons_of_neg (by simpa [hkind] using hne)]
    case isFalse hkind =>
      obtain ⟨⟨found', rest'⟩, hextract, heq⟩ := Option.map_eq_some_iff.mp h
      obtain ⟨rfl, rfl⟩ := Prod.mk.inj heq
      rw [List.find?_cons, List.find?_cons, find?_extract? hne hextract]

/-! ## Changes of one declaration -/

/-- The second declaration is the first one, saying what `change` makes of what it said. -/
structure Turned (change : Said → Said) (t t' : Tree NodeKind) : Prop where
  kind : t'.kind = t.kind
  text : t'.text = t.text
  members : membersOf t' = membersOf t
  said : Said.ofTree t' = change (Said.ofTree t)

theorem Turned.trans {f g : Said → Said} {t₁ t₂ t₃ : Tree NodeKind} (hf : Turned f t₁ t₂)
    (hg : Turned g t₂ t₃) : Turned (g ∘ f) t₁ t₃ where
  kind := hg.kind.trans hf.kind
  text := hg.text.trans hf.text
  members := hg.members.trans hf.members
  said := by rw [hg.said, hf.said, Function.comp]

/-- A declaration keeps what it says and its members with its lists of modifiers and its body. -/
theorem Turned.of_children
    (hmodifiers : (t.withChildren ts).child? .modifiers = t.child? .modifiers)
    (hblock : (t.withChildren ts).child? .objBlock = t.child? .objBlock) :
    Turned id t (t.withChildren ts) where
  kind := rfl
  text := rfl
  members := by rw [membersOf, hblock, membersOf]
  said := by rw [Said.ofTree, hmodifiers, Said.ofTree, id]

theorem turned_onModifiers {f : Tree NodeKind → Tree NodeKind} {change : Said → Said}
    (hkind : ∀ l, (f l).kind = l.kind)
    (hsaid : ∀ l, Said.ofModifiers (f l) = change (Said.ofModifiers l))
    (hnone : t.child? .modifiers = none → change ⟨[], []⟩ = ⟨[], []⟩) :
    Turned change t (onModifiers f t) where
  kind := rfl
  text := rfl
  members := by
    have hblock : (onModifiers f t).child? .objBlock = t.child? .objBlock :=
      find?_modifyFirst hkind t.children
    rw [membersOf, hblock, membersOf]
  said := by
    have hlist : (onModifiers f t).child? .modifiers = (t.child? .modifiers).map f :=
      find?_modifyFirst hkind t.children
    rw [Said.ofTree, hlist, Said.ofTree]
    cases hchild : t.child? .modifiers with
    | none => exact (hnone hchild).symm
    | some list => exact hsaid list

theorem turned_onModifiers? {f : Tree NodeKind → Tree NodeKind} {change : Said → Said}
    (hkind : ∀ l, (f l).kind = l.kind)
    (hsaid : ∀ l, Said.ofModifiers (f l) = change (Said.ofModifiers l))
    (h : onModifiers? f t = .ok t') : Turned change t t' := by
  unfold onModifiers? at h
  cases hchild : t.child? .modifiers with
  | none => simp [hchild] at h
  | some list =>
    simp only [hchild] at h
    obtain rfl := Except.ok.inj h
    exact turned_onModifiers hkind hsaid (by simp [hchild])

theorem kind_addPackageScope (list : Tree NodeKind) : (addPackageScope list).kind = list.kind := by
  unfold addPackageScope
  split <;> rfl

theorem kind_makePrivate (list : Tree NodeKind) : (makePrivate list).kind = list.kind := by
  unfold makePrivate
  split <;> rfl

theorem turned_dropPublic (t : Tree NodeKind) :
    Turned Said.withoutPublic t (onModifiers dropPublic t) :=
  turned_onModifiers (fun _ => rfl) (fun _ => said_dropPublic) fun _ => rfl

theorem turned_packageScoped (h : packageScoped enclosing t = .ok t') :
    Turned (fun s => if enclosing = .interfaceBody then s else s.packageScoped) t t' := by
  unfold packageScoped at h
  split at h
  case isTrue hinterface =>
    obtain rfl := Except.ok.inj h
    simpa only [hinterface, if_true] using ⟨rfl, rfl, rfl, rfl⟩
  case isFalse hinterface =>
    simpa only [hinterface, if_false] using
      turned_onModifiers? kind_addPackageScope (fun _ => said_addPackageScope) h

theorem turned_foldDimensions (h : foldDimensions t = .ok t') : Turned id t t' := by
  unfold foldDimensions at h
  split at h
  case h_1 =>
    obtain rfl := Except.ok.inj h
    exact ⟨rfl, rfl, rfl, rfl⟩
  case h_2 dims rest hextract =>
    split at h
    case h_1 => cases h
    case h_2 =>
      obtain rfl := Except.ok.inj h
      have hfind : ∀ kind : NodeKind, kind ≠ .arrayDeclarator → kind ≠ .type →
          (Tree.modifyFirst .type
            (fun type => { type with text := type.text ++ dims.text }) rest).find?
              (fun c => c.kind = kind) = t.child? kind := by
        intro kind hdims htype
        refine (find?_modifyFirst (by exact fun _ => rfl) rest).trans ?_
        rw [if_neg htype.symm, find?_extract? hdims.symm hextract]
        rfl
      exact .of_children (hfind .modifiers (by decide) (by decide))
        (hfind .objBlock (by decide) (by decide))

theorem turned_foldParameterDimensions (h : foldParameterDimensions t = .ok t') :
    Turned id t t' := by
  unfold foldParameterDimensions at h
  split at h
  case h_1 =>
    obtain rfl := Except.ok.inj h
    exact ⟨rfl, rfl, rfl, rfl⟩
  case h_2 =>
    obtain ⟨folded, -, heq⟩ := bind_ok.mp h
    obtain rfl := Except.ok.inj heq
    have hfind : ∀ kind : NodeKind, kind ≠ .parameters →
        (Tree.modifyFirst .parameters (·.withChildren folded) t.children).find?
          (fun c => c.kind = kind) = t.child? kind := by
      intro kind hne
      refine (find?_modifyFirst (by exact fun _ => rfl) t.children).trans ?_
      rw [if_neg hne.symm]
      rfl
    exact .of_children (hfind .modifiers (by decide)) (hfind .objBlock (by decide))

/-! ## Bodies -/

theorem forall₂_declarations :
    ∀ {ts ts' : List (Tree NodeKind)}, declarations enclosing ts = .ok ts' →
      List.Forall₂ (fun t t' => declaration enclosing t = .ok t') ts ts'
  | [], ts', h => by
    rw [declarations] at h
    obtain rfl := Except.ok.inj h
    exact .nil
  | t :: ts, ts', h => by
    rw [declarations, bind_ok] at h
    obtain ⟨t', ht, h⟩ := h
    obtain ⟨rest, hrest, heq⟩ := bind_ok.mp h
    obtain rfl := Except.ok.inj heq
    exact .cons ht (forall₂_declarations hrest)

theorem find?_body {kind : NodeKind} (hne : kind ≠ .objBlock) :
    ∀ {ts ts' : List (Tree NodeKind)}, body enclosing ts = .ok ts' →
      ts'.find? (fun c => c.kind = kind) = ts.find? fun c => c.kind = kind
  | [], ts', h => by
    rw [body] at h
    obtain rfl := Except.ok.inj h
    rfl
  | ⟨k, text, pos, doc, children⟩ :: ts, ts', h => by
    rw [body] at h
    split at h
    case isTrue hblock =>
      obtain ⟨members, -, heq⟩ := bind_ok.mp h
      obtain rfl := Except.ok.inj heq
      have hk : k ≠ kind := fun hk => hne (hk.symm.trans hblock)
      rw [List.find?_cons_of_neg (by simpa using hk), List.find?_cons_of_neg (by simpa using hk)]
    case isFalse =>
      obtain ⟨rest, hrest, heq⟩ := bind_ok.mp h
      obtain rfl := Except.ok.inj heq
      rw [List.find?_cons, List.find?_cons, find?_body hne hrest]

/-- The members of a body are given their access one by one. -/
theorem membersOf_body {kind : NodeKind} {text : String} {pos : Text.Position}
    {doc : Option String} :
    ∀ {ts ts' : List (Tree NodeKind)}, body enclosing ts = .ok ts' →
      declarations enclosing (membersOf ⟨kind, text, pos, doc, ts⟩) =
        .ok (membersOf ⟨kind, text, pos, doc, ts'⟩)
  | [], ts', h => by
    rw [body] at h
    obtain rfl := Except.ok.inj h
    exact declarations.eq_1 _
  | ⟨k, text', pos', doc', children⟩ :: ts, ts', h => by
    rw [body] at h
    split at h
    -- The first block is the body; what stands before it is no member.
    case isTrue hblock =>
      obtain ⟨members, hmembers, heq⟩ := bind_ok.mp h
      obtain rfl := Except.ok.inj heq
      simpa [membersOf, Tree.child?, hblock] using hmembers
    case isFalse hblock =>
      obtain ⟨rest, hrest, heq⟩ := bind_ok.mp h
      obtain rfl := Except.ok.inj heq
      have hmembers : declarations enclosing (membersOf ⟨kind, text, pos, doc, ts⟩) =
          .ok (membersOf ⟨kind, text, pos, doc, rest⟩) := membersOf_body hrest
      simpa [membersOf, Tree.child?, hblock] using hmembers

/-! ## Declarations -/

/-- A type is given its access when its members have theirs. -/
theorem declaration_typeDef {kind : NodeKind} {text : String} {pos : Text.Position}
    {doc : Option String} (hkind : kind.isTypeDef)
    (h : declaration enclosing ⟨kind, text, pos, doc, ts⟩ = .ok t') :
    ∃ ts', body (.ofKind kind) ts = .ok ts' ∧
      Turned (Said.given enclosing kind) ⟨kind, text, pos, doc, ts'⟩ t' := by
  unfold declaration at h
  rw [if_pos hkind, bind_ok] at h
  obtain ⟨-, -, h⟩ := h
  obtain ⟨ts', hbody, h⟩ := bind_ok.mp h
  obtain ⟨t₁, hscoped, heq⟩ := bind_ok.mp h
  obtain rfl := Except.ok.inj heq
  have hturned := (turned_packageScoped hscoped).trans (turned_dropPublic t₁)
  have hgiven : Said.given enclosing kind =
      Said.withoutPublic ∘ fun s => if enclosing = .interfaceBody then s else s.packageScoped :=
    match kind, hkind with
    | .classDef, _ | .interfaceDef, _ | .enumDef, _ | .traitDef, _ | .annotationDef, _ => rfl
  exact ⟨ts', hbody, hgiven ▸ hturned⟩

theorem said_typeDef (hkind : t.kind.isTypeDef) (h : declaration enclosing t = .ok t') :
    t'.kind = t.kind ∧ t'.text = t.text ∧
      Said.ofTree t' = (Said.ofTree t).given enclosing t.kind := by
  obtain ⟨kind, text, pos, doc, ts⟩ := t
  obtain ⟨ts', hbody, hturned⟩ := declaration_typeDef hkind h
  have hmodifiers : Tree.child? ⟨kind, text, pos, doc, ts'⟩ .modifiers =
      Tree.child? ⟨kind, text, pos, doc, ts⟩ .modifiers := find?_body (by decide) hbody
  refine ⟨hturned.kind, hturned.text, ?_⟩
  rw [hturned.said, Said.ofTree, hmodifiers, ← Said.ofTree]

theorem members_typeDef (hkind : t.kind.isTypeDef) (h : declaration enclosing t = .ok t') :
    List.Forall₂ (fun m m' => declaration (.ofKind t.kind) m = .ok m') (membersOf t)
      (membersOf t') := by
  obtain ⟨kind, text, pos, doc, ts⟩ := t
  obtain ⟨ts', hbody, hturned⟩ := declaration_typeDef hkind h
  rw [hturned.members]
  exact forall₂_declarations (membersOf_body hbody)

theorem turned_method (h : method enclosing t = .ok t') :
    Turned (Said.given enclosing .methodDef) t t' := by
  obtain ⟨t₁, hfold, h⟩ := bind_ok.mp h
  obtain ⟨t₂, hparameters, h⟩ := bind_ok.mp h
  obtain ⟨t₃, hscoped, heq⟩ := bind_ok.mp h
  obtain rfl := Except.ok.inj heq
  have hfolded := (turned_foldDimensions hfold).trans (turned_foldParameterDimensions hparameters)
  exact hfolded.trans ((turned_packageScoped hscoped).trans (turned_dropPublic t₃))

theorem turned_constructor (h : constructor enclosing t = .ok t') :
    Turned (Said.given enclosing .ctorIdent) t t' := by
  obtain ⟨t₁, hfold, h⟩ := bind_ok.mp h
  obtain ⟨t₂, hmodifiers, heq⟩ := bind_ok.mp h
  obtain rfl := Except.ok.inj heq
  have hturned : Turned
      (fun s => if enclosing = .enumBody then s.madePrivate else s.packageScoped) t₁ t₂ := by
    by_cases henum : enclosing = .enumBody
    · simp only [henum, if_true] at hmodifiers ⊢
      exact turned_onModifiers? kind_makePrivate (fun _ => said_makePrivate) hmodifiers
    · simp only [henum, if_false] at hmodifiers ⊢
      exact turned_onModifiers? kind_addPackageScope (fun _ => said_addPackageScope) hmodifiers
  exact (turned_foldParameterDimensions hfold).trans (hturned.trans (turned_dropPublic t₂))

/-- Is a node of the kind a member that is documented with a visibility of its own? -/
def isMember (kind : NodeKind) : Bool :=
  kind = .variableDef || kind = .methodDef || kind = .annotationFieldDef || kind = .ctorIdent

theorem declaration_member (hkind : isMember t.kind) (h : declaration enclosing t = .ok t') :
    Turned (Said.given enclosing t.kind) t t' := by
  obtain ⟨kind, text, pos, doc, children⟩ := t
  simp only [isMember, Bool.or_eq_true, decide_eq_true_eq] at hkind
  unfold declaration at h
  obtain ((rfl | rfl) | rfl) | rfl := hkind
  · obtain ⟨t₁, hfold, hscoped⟩ := bind_ok.mp h
    exact (turned_foldDimensions hfold).trans (turned_packageScoped hscoped)
  · exact turned_method h
  · exact turned_method h
  · exact turned_constructor h

theorem kind_declaration (h : declaration enclosing t = .ok t') : t'.kind = t.kind := by
  by_cases htype : t.kind.isTypeDef
  · exact (said_typeDef htype h).1
  by_cases hmember : isMember t.kind
  · exact (declaration_member hmember h).kind
  · obtain ⟨kind, text, pos, doc, children⟩ := t
    unfold declaration at h
    rw [if_neg htype] at h
    -- Of the kinds that are told apart, only enum constants are left.
    split at h
    case h_5 =>
      obtain ⟨ts', -, heq⟩ := bind_ok.mp h
      exact (Except.ok.inj heq) ▸ rfl
    case h_6 => exact (Except.ok.inj h) ▸ rfl
    all_goals exact absurd rfl hmember

theorem kinds_declarations (h : declarations enclosing ts = .ok ts') :
    ts'.map Tree.kind = ts.map Tree.kind := by
  have hpairs := forall₂_declarations h
  clear h
  induction hpairs with
  | nil => rfl
  | cons ht _ ih => rw [List.map_cons, List.map_cons, kind_declaration ht, ih]

end Syntax.Access

/-! ## Documents of the types in a list of declarations -/

/-- A type declaration and where it stands. -/
structure TypeAt where
  enclosing : Enclosing
  /-- The type that it is declared inside. -/
  outer : Option String
  node : Syntax.Tree NodeKind

namespace TypeAt

mutual

/-- A type and the types inside it, the inner ones first. -/
def ofType (enclosing : Enclosing) (outer : Option String) : Syntax.Tree NodeKind → List TypeAt
  | ⟨kind, text, pos, doc, children⟩ =>
    ofBody (.ofKind kind) (nestedName outer text) children
      ++ [⟨enclosing, outer, ⟨kind, text, pos, doc, children⟩⟩]

/-- The types in the first body of a list of children. -/
def ofBody (enclosing : Enclosing) (outer : String) : List (Syntax.Tree NodeKind) → List TypeAt
  | [] => []
  | ⟨kind, _, _, _, children⟩ :: ts =>
    if kind = .objBlock then ofDeclarations enclosing (some outer) children
    else ofBody enclosing outer ts

/-- The types in a list of declarations. -/
def ofDeclarations (enclosing : Enclosing) (outer : Option String) :
    List (Syntax.Tree NodeKind) → List TypeAt
  | [] => []
  | t :: ts =>
    (if t.kind.isTypeDef then ofType enclosing outer t else []) ++ ofDeclarations enclosing outer ts

end

mutual

theorem of_mem_ofType {type : TypeAt} :
    {enclosing : Enclosing} → {outer : Option String} → {t : Syntax.Tree NodeKind} →
      t.kind.isTypeDef → type ∈ ofType enclosing outer t →
        type.node.kind.isTypeDef ∧ type.node ∈ t.preorder
  | _, _, ⟨kind, text, pos, doc, children⟩, hkind, h => by
    rw [ofType, List.mem_append, List.mem_singleton] at h
    rcases h with h | rfl
    · rw [Syntax.Tree.preorder]
      exact (of_mem_ofBody h).imp_right (List.mem_cons_of_mem _)
    · exact ⟨hkind, Syntax.Tree.mem_preorder_self _⟩

theorem of_mem_ofBody {type : TypeAt} :
    {enclosing : Enclosing} → {outer : String} → {ts : List (Syntax.Tree NodeKind)} →
      type ∈ ofBody enclosing outer ts →
        type.node.kind.isTypeDef ∧ type.node ∈ Syntax.Tree.preorderAll ts
  | _, _, [], h => by simp [ofBody] at h
  | _, _, ⟨kind, text, pos, doc, children⟩ :: ts, h => by
    rw [ofBody] at h
    rw [Syntax.Tree.preorderAll, List.mem_append]
    split at h
    · rw [Syntax.Tree.preorder]
      exact (of_mem_ofDeclarations h).imp_right fun h => .inl (List.mem_cons_of_mem _ h)
    · exact (of_mem_ofBody h).imp_right .inr

/-- What is listed are types of the declarations. -/
theorem of_mem_ofDeclarations {type : TypeAt} :
    {enclosing : Enclosing} → {outer : Option String} → {ts : List (Syntax.Tree NodeKind)} →
      type ∈ ofDeclarations enclosing outer ts →
        type.node.kind.isTypeDef ∧ type.node ∈ Syntax.Tree.preorderAll ts
  | _, _, [], h => by simp [ofDeclarations] at h
  | _, _, t :: ts, h => by
    rw [ofDeclarations, List.mem_append] at h
    rw [Syntax.Tree.preorderAll, List.mem_append]
    rcases h with h | h
    · split at h
      case isTrue hkind => exact (of_mem_ofType hkind h).imp_right .inl
      case isFalse => simp at h
    · exact (of_mem_ofDeclarations h).imp_right .inr

end

end TypeAt

namespace FileContext

open Syntax.Access

variable (ctx : FileContext)

/-- The document of a type is that of its declaration once it has its access. -/
def Documents (type : TypeAt) (doc : ClassDoc) : Prop :=
  type.node.kind.isTypeDef ∧
    ∃ t, declaration type.enclosing type.node = .ok t ∧ doc = ctx.classDoc type.outer t

mutual

theorem classDocs_declaration {enclosing : Enclosing} {outer : Option String} :
    {t t' : Syntax.Tree NodeKind} → t.kind.isTypeDef → declaration enclosing t = .ok t' →
      List.Forall₂ ctx.Documents (TypeAt.ofType enclosing outer t) (ctx.classDocs outer t')
  | ⟨kind, text, pos, doc, children⟩, ⟨kind', text', pos', doc', children'⟩, hkind, h => by
    obtain ⟨ts', hbody, hturned⟩ := declaration_typeDef hkind h
    have htext : text' = text := hturned.text
    -- The change of the type's own modifiers comes after that of its body and leaves it alone.
    have hinner : ctx.bodyDocs (nestedName outer text') children' =
        ctx.bodyDocs (nestedName outer text) ts' := by
      rw [htext, bodyDocs_eq ctx _ children', bodyDocs_eq ctx _ ts']
      exact congrArg (ctx.memberDocs _) hturned.members
    rw [TypeAt.ofType, classDocs, hinner]
    exact List.rel_append (bodyDocs_body hbody) (.cons ⟨hkind, _, h, rfl⟩ .nil)

theorem bodyDocs_body {enclosing : Enclosing} {outer : String} :
    {ts ts' : List (Syntax.Tree NodeKind)} → body enclosing ts = .ok ts' →
      List.Forall₂ ctx.Documents (TypeAt.ofBody enclosing outer ts) (ctx.bodyDocs outer ts')
  | [], ts', h => by
    rw [body] at h
    obtain rfl := Except.ok.inj h
    rw [TypeAt.ofBody, bodyDocs]
    exact .nil
  | ⟨kind, text, pos, doc, children⟩ :: ts, ts', h => by
    rw [body] at h
    rw [TypeAt.ofBody]
    split at h
    case isTrue hblock =>
      obtain ⟨members, hmembers, heq⟩ := bind_ok.mp h
      obtain rfl := Except.ok.inj heq
      rw [if_pos hblock, bodyDocs, if_pos hblock]
      exact memberDocs_declarations hmembers
    case isFalse hblock =>
      obtain ⟨rest, hrest, heq⟩ := bind_ok.mp h
      obtain rfl := Except.ok.inj heq
      rw [if_neg hblock, bodyDocs, if_neg hblock]
      exact bodyDocs_body hrest

/-- The documents of a list of declarations are those of the types in it. -/
theorem memberDocs_declarations {enclosing : Enclosing} {outer : Option String} :
    {ts ts' : List (Syntax.Tree NodeKind)} → declarations enclosing ts = .ok ts' →
      List.Forall₂ ctx.Documents (TypeAt.ofDeclarations enclosing outer ts)
        (ctx.memberDocs outer ts')
  | [], ts', h => by
    rw [declarations] at h
    obtain rfl := Except.ok.inj h
    rw [TypeAt.ofDeclarations, memberDocs]
    exact .nil
  | t :: ts, ts', h => by
    rw [declarations, bind_ok] at h
    obtain ⟨t', ht, h⟩ := h
    obtain ⟨rest, hrest, heq⟩ := bind_ok.mp h
    obtain rfl := Except.ok.inj heq
    rw [TypeAt.ofDeclarations, memberDocs, kind_declaration ht]
    refine List.rel_append ?_ (memberDocs_declarations hrest)
    split
    case isTrue hkind => exact classDocs_declaration hkind ht
    case isFalse => exact .nil

end

end FileContext

end ApiDoc
