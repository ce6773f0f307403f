import ApiDoc.Doc.Assembly
import ApiDoc.Syntax.Access

/-!
# What modifiers say

The modifiers of a declaration matter to its visibility in two ways: by the access modifiers among
them, and by the names of the annotations. `Said` holds both. Each change that gives a declaration
its access the Groovy way is a change of what its modifiers say, and what a document shows is read
off it.
-/

namespace ApiDoc

open Syntax (NodeKind Enclosing)

/-- What the modifiers of a declaration say about access. -/
structure Said where
  /-- The access modifiers, in order. -/
  accesses : List Visibility
  /-- The names of the annotations, in order. -/
  marks : List String
deriving DecidableEq, Repr

namespace Said

/-- What a list of modifiers says. -/
def ofModifiers (list : Syntax.Tree NodeKind) : Said where
  accesses := ((list.childrenOf .modifier).map Syntax.Tree.text).filterMap Declared.accessOf?
  marks := (list.childrenOf .annotationMark).map Syntax.Tree.text

/-- What a declaration says. One without a list of modifiers says nothing. -/
def ofTree (t : Syntax.Tree NodeKind) : Said :=
  match t.child? .modifiers with
  | none => ⟨[], []⟩
  | some list => ofModifiers list

/-- Does the name of an annotation end in `PackageScope`? -/
def endsInPackageScope (name : String) : Bool := "PackageScope".toList.isSuffixOf name.toList

/-! ## What documents read -/

/-- The visibility that a document shows. -/
def visibility (s : Said) : Visibility :=
  match s.accesses.getLast? with
  | some v => v
  | none => if s.marks.any Declared.isPackageScope then .pkg else .pub

/-- Is a field a property? -/
def isOpen (s : Said) : Bool := s.accesses.isEmpty && !s.marks.any Declared.isPackageScope

theorem visibility_ofTree (t : Syntax.Tree NodeKind) :
    (Declared.ofTree t).visibility = (ofTree t).visibility := by
  unfold Declared.ofTree ofTree
  cases t.child? .modifiers with
  | none => rfl
  | some list => rfl

theorem isOpen_ofTree (t : Syntax.Tree NodeKind) :
    (Declared.ofTree t).isOpen = (ofTree t).isOpen := by
  unfold Declared.ofTree ofTree
  cases t.child? .modifiers with
  | none => rfl
  | some list =>
    have hnone : ∀ l : List Visibility, l.getLast?.isNone = l.isEmpty := by
      intro l
      rw [Bool.eq_iff_iff, Option.isNone_iff_eq_none, List.getLast?_eq_none_iff, List.isEmpty_iff]
    exact congrArg (· && _) (hnone _)

/-! ## Changes -/

/-- Without access modifier, and without an annotation that looks like the one for it, gain the
annotation that keeps a declaration to its package. -/
def packageScoped (s : Said) : Said :=
  if s.accesses.isEmpty && !s.marks.any endsInPackageScope then
    { s with marks := "PackageScope" :: s.marks }
  else s

/-- Without access modifier, become private. -/
def madePrivate (s : Said) : Said :=
  if s.accesses.isEmpty then { s with accesses := [.priv] } else s

/-- Lose `public`. -/
def withoutPublic (s : Said) : Said := { s with accesses := s.accesses.filter (· ≠ .pub) }

end Said

namespace Syntax.Access

variable {list : Tree NodeKind}

/-- The access that a modifier gives, if it is an access modifier. -/
def accessIn? (m : Tree NodeKind) : Option Visibility :=
  if m.kind = .modifier then Declared.accessOf? m.text else none

theorem accesses_eq : (Said.ofModifiers list).accesses = list.children.filterMap accessIn? := by
  show ((list.children.filter _).map Tree.text).filterMap Declared.accessOf? = _
  rw [List.filterMap_map, List.filterMap_filter]
  refine congrArg (List.filterMap · list.children) (funext fun m => ?_)
  simp [accessIn?]

theorem isSome_accessOf? (word : String) :
    (Declared.accessOf? word).isSome =
      (word = "public" || word = "protected" || word = "private") := by
  unfold Declared.accessOf?
  by_cases hpublic : word = "public"
  · simp [hpublic]
  by_cases hprotected : word = "protected"
  · simp [hprotected]
  by_cases hprivate : word = "private"
  · simp [hprivate]
  · simp [hpublic, hprotected, hprivate]

theorem accessOf?_ne_pub {word : String} (h : word ≠ "public") :
    (Declared.accessOf? word).filter (· ≠ .pub) = Declared.accessOf? word := by
  unfold Declared.accessOf?
  rw [if_neg h]
  split
  · rfl
  · split
    · rfl
    · rfl

theorem isAccessModifier_eq (m : Tree NodeKind) :
    isAccessModifier m = (accessIn? m).isSome := by
  unfold isAccessModifier accessIn?
  by_cases hkind : m.kind = .modifier
  · simp [hkind, isSome_accessOf?]
  · simp [hkind]

theorem any_isAccessModifier :
    list.children.any isAccessModifier = !(Said.ofModifiers list).accesses.isEmpty := by
  rw [accesses_eq]
  induction list.children with
  | nil => rfl
  | cons m ms ih =>
    rw [List.any_cons, ih, List.filterMap_cons, isAccessModifier_eq]
    cases accessIn? m with
    | none => rfl
    | some v => rfl

theorem any_isPackageScope :
    list.children.any isPackageScope =
      (Said.ofModifiers list).marks.any Said.endsInPackageScope := by
  simp only [Said.ofModifiers, Tree.childrenOf, List.any_map, List.any_filter]
  rfl

theorem said_addPackageScope :
    Said.ofModifiers (addPackageScope list) = (Said.ofModifiers list).packageScoped := by
  unfold addPackageScope Said.packageScoped
  rw [any_isAccessModifier, any_isPackageScope]
  cases hempty : (Said.ofModifiers list).accesses.isEmpty with
  | false => rfl
  | true =>
    cases hmarks : (Said.ofModifiers list).marks.any Said.endsInPackageScope with
    | true => rfl
    | false => rfl

theorem said_makePrivate :
    Said.ofModifiers (makePrivate list) = (Said.ofModifiers list).madePrivate := by
  unfold makePrivate Said.madePrivate
  rw [any_isAccessModifier]
  cases hempty : (Said.ofModifiers list).accesses.isEmpty with
  | false => rfl
  | true =>
    have hnone := List.isEmpty_iff.mp hempty
    show Said.ofModifiers (mark .modifier "private" list) = _
    simp only [if_true]
    refine congrArg (Said.mk · _) ?_
    show Visibility.priv :: (Said.ofModifiers list).accesses = _
    rw [hnone]

theorem accessIn?_dropPublic (m : Tree NodeKind) :
    (if !(m.kind = .modifier && m.text = "public") then accessIn? m else none) =
      (accessIn? m).filter (· ≠ .pub) := by
  unfold accessIn?
  by_cases hkind : m.kind = .modifier
  · by_cases hpublic : m.text = "public"
    · simp only [hkind, hpublic, decide_true, Bool.and_self, Bool.not_true, Bool.false_eq_true,
        if_false, if_true]
      rfl
    · simp only [hkind, hpublic, decide_true, decide_false, Bool.and_false, Bool.not_false, if_true,
        accessOf?_ne_pub hpublic]
  · simp [hkind]

theorem said_dropPublic :
    Said.ofModifiers (dropPublic list) = (Said.ofModifiers list).withoutPublic := by
  have haccesses : (Said.ofModifiers (dropPublic list)).accesses =
      (Said.ofModifiers list).accesses.filter (· ≠ .pub) := by
    rw [accesses_eq, accesses_eq, List.filter_filterMap]
    show (list.children.filter _).filterMap accessIn? = _
    rw [List.filterMap_filter]
    refine congrArg (List.filterMap · list.children) (funext fun m => ?_)
    exact accessIn?_dropPublic m
  have hmarks : (Said.ofModifiers (dropPublic list)).marks = (Said.ofModifiers list).marks := by
    show ((list.children.filter _).filter _).map Tree.text = (list.children.filter _).map Tree.text
    rw [List.filter_filter]
    refine congrArg (List.map Tree.text) (List.filter_congr fun m _ => ?_)
    by_cases hkind : m.kind = .annotationMark
    · simp [hkind]
    · simp [hkind]
  rw [Said.withoutPublic, ← haccesses, ← hmarks]

end Syntax.Access

end ApiDoc
