import ApiDoc.Proofs.Root.Renumbering
import Mathlib.Algebra.GroupWithZero.Nat

/-!
# What resolving does to a root

Resolving looks up every type reference of a class. It can be done in one sweep over the class, the
way `resolveClass` does it, or in two: list the references, look all of them up, and write the
links that were found back into the class, one after the other (`ClassDoc.link`). The second way is
right only if the list and the writing go through the places of a class in the same order and leave
none out, and `ClassDoc.stores_link` says that they do.

Behind `resolve` a root is final: `frozen_of_isResolved`.
-/

namespace ApiDoc

/-! ## Links, written back in order -/

/-- A change that takes links off the front of a list. -/
abbrev Linking (α : Type) := StateM (List (Option ClassId)) α

/-- Store the next link. A reference for which none is left stays as it is. -/
def TypeRef.link (t : TypeRef) : Linking TypeRef := do
  match ← get with
  | [] => return t
  | resolved :: rest =>
    set rest
    return { t with resolved }

def FieldDoc.link (x : FieldDoc) : Linking FieldDoc := do
  return { x with type := ← x.type.link }

def ParamDoc.link (p : ParamDoc) : Linking ParamDoc := do
  return { p with type := ← p.type.link }

def MethodDoc.link (m : MethodDoc) : Linking MethodDoc := do
  let returnType ← m.returnType.mapM TypeRef.link
  let params ← m.params.mapM ParamDoc.link
  let throws ← m.throws.mapM TypeRef.link
  return { m with returnType, params, throws }

/-- Store links in the references of a class, place by place. -/
def ClassDoc.link (c : ClassDoc) : Linking ClassDoc := do
  let superclass ← c.superclass.mapM TypeRef.link
  let interfaces ← c.interfaces.mapM TypeRef.link
  let fields ← c.fields.mapM FieldDoc.link
  let properties ← c.properties.mapM FieldDoc.link
  let constructors ← c.constructors.mapM MethodDoc.link
  let methods ← c.methods.mapM MethodDoc.link
  return { c with superclass, interfaces, fields, properties, constructors, methods }

namespace Linking

variable {α β : Type} {f : TypeRef → Option ClassId}

/-- The change stores the links of `refs`, takes no other link, and gives `result`. -/
def Stores (f : TypeRef → Option ClassId) (change : Linking α) (refs : List TypeRef)
    (result : α) : Prop :=
  ∀ rest, change.run (refs.map f ++ rest) = (result, rest)

theorem Stores.pure (a : α) : Stores f (pure a) [] a := fun _ => rfl

theorem Stores.bind {change : Linking α} {refs : List TypeRef} {a : α} {next : α → Linking β}
    {refs' : List TypeRef} {b : β} (h : Stores f change refs a) (h' : Stores f (next a) refs' b) :
    Stores f (change >>= next) (refs ++ refs') b := by
  intro rest
  rw [StateT.run_bind, List.map_append, List.append_assoc, h]
  exact h' rest

theorem Stores.map {change : Linking α} {refs : List TypeRef} {a : α} (g : α → β)
    (h : Stores f change refs a) : Stores f (g <$> change) refs (g a) := by
  intro rest
  rw [StateT.run_map, h]
  rfl

theorem stores_link (t : TypeRef) : Stores f t.link [t] { t with resolved := f t } :=
  fun _ => rfl

theorem stores_option {change : α → Linking β} {refs : α → List TypeRef} {g : α → β}
    (h : ∀ a, Stores f (change a) (refs a) (g a)) :
    ∀ o : Option α, Stores f (o.mapM change) (o.toList.flatMap refs) (o.map g)
  | none => .pure none
  | some a => by
    have hrefs : (some a).toList.flatMap refs = refs a := by simp
    rw [hrefs, Option.mapM_some]
    exact (h a).map some

theorem stores_list {change : α → Linking β} {refs : α → List TypeRef} {g : α → β}
    (h : ∀ a, Stores f (change a) (refs a) (g a)) (xs : List α) :
    Stores f (xs.mapM change) (xs.flatMap refs) (xs.map g) := by
  induction xs with
  | nil => exact .pure []
  | cons x xs ih =>
    rw [List.mapM_cons, List.flatMap_cons]
    refine (h x).bind ?_
    rw [bind_pure_comp]
    exact ih.map (g x :: ·)

end Linking

/-! ## Two sweeps come to one -/

open Linking

variable {f : TypeRef → Option ClassId}

theorem FieldDoc.stores_link (x : FieldDoc) :
    Stores f x.link [x.type] { x with type := { x.type with resolved := f x.type } } := by
  rw [link, bind_pure_comp]
  exact (Linking.stores_link x.type).map _

theorem ParamDoc.stores_link (p : ParamDoc) :
    Stores f p.link [p.type] { p with type := { p.type with resolved := f p.type } } := by
  rw [link, bind_pure_comp]
  exact (Linking.stores_link p.type).map _

theorem MethodDoc.stores_link (m : MethodDoc) :
    Stores f m.link m.typeRefs (m.mapTypeRefs fun t => { t with resolved := f t }) := by
  have hrefs : m.typeRefs = m.returnType.toList.flatMap (fun t => [t]) ++
      (m.params.flatMap (fun p => [p.type]) ++ (m.throws.flatMap (fun t => [t]) ++ [])) := by
    simp [typeRefs, List.map_eq_flatMap]
  rw [hrefs, link]
  refine (stores_option Linking.stores_link m.returnType).bind ?_
  refine (stores_list ParamDoc.stores_link m.params).bind ?_
  refine (stores_list Linking.stores_link m.throws).bind ?_
  exact .pure _

/-- The list of the references of a class and the places links are written to match: every link is
used, and each of them for its own reference. -/
theorem ClassDoc.stores_link (c : ClassDoc) :
    Stores f c.link c.typeRefs (c.mapTypeRefs fun t => { t with resolved := f t }) := by
  have hrefs : c.typeRefs = c.superclass.toList.flatMap (fun t => [t]) ++
      (c.interfaces.flatMap (fun t => [t]) ++ (c.fields.flatMap (fun x => [x.type]) ++
        (c.properties.flatMap (fun x => [x.type]) ++ (c.constructors.flatMap MethodDoc.typeRefs ++
          (c.methods.flatMap MethodDoc.typeRefs ++ []))))) := by
    simp [typeRefs, List.map_eq_flatMap]
  rw [hrefs, link]
  refine (stores_option Linking.stores_link c.superclass).bind ?_
  refine (stores_list Linking.stores_link c.interfaces).bind ?_
  refine (stores_list FieldDoc.stores_link c.fields).bind ?_
  refine (stores_list FieldDoc.stores_link c.properties).bind ?_
  refine (stores_list MethodDoc.stores_link c.constructors).bind ?_
  refine (stores_list MethodDoc.stores_link c.methods).bind ?_
  exact .pure _

/-- `c'` is `c` with `link` applied to the reference in every place, and nothing else changed. -/
structure ClassDoc.LinkedBy (link : TypeRef → TypeRef) (c c' : ClassDoc) : Prop where
  superclass : c'.superclass = c.superclass.map link
  interfaces : c'.interfaces = c.interfaces.map link
  fields : c'.fields = c.fields.map fun x => { x with type := link x.type }
  properties : c'.properties = c.properties.map fun x => { x with type := link x.type }
  constructors : c'.constructors = c.constructors.map fun m =>
    { m with
      returnType := m.returnType.map link
      params := m.params.map fun p => { p with type := link p.type }
      throws := m.throws.map link }
  methods : c'.methods = c.methods.map fun m =>
    { m with
      returnType := m.returnType.map link
      params := m.params.map fun p => { p with type := link p.type }
      throws := m.throws.map link }
  otherwise : { c' with
    superclass := c.superclass, interfaces := c.interfaces, fields := c.fields,
    properties := c.properties, constructors := c.constructors, methods := c.methods } = c

theorem ClassDoc.linkedBy_mapTypeRefs (link : TypeRef → TypeRef) (c : ClassDoc) :
    c.LinkedBy link (c.mapTypeRefs link) :=
  ⟨rfl, rfl, rfl, rfl, rfl, rfl, rfl⟩

/-! ## Links that are found -/

namespace Lookup

variable {index : NameMap ClassId} {owner : ClassDoc}

/-- Only numbers of the index are found. -/
theorem exists_of_byRef {ref : TypeRef} {id : ClassId} (h : byRef index owner ref = some id) :
    ∃ q, index.get? q = some id := by
  unfold byRef byName at h
  split at h
  · cases h
  · split at h
    · cases h
    · obtain ⟨q, -, hq⟩ := List.exists_of_findSome?_eq_some h
      exact ⟨q, hq⟩

/-- Looking up depends on what references are called, and not on what they are linked to. -/
theorem byRef_mapTypeRefs (f : TypeRef → TypeRef) (ref : TypeRef) (resolved : Option ClassId) :
    byRef index (owner.mapTypeRefs f) { ref with resolved } = byRef index owner ref := by
  have hbuiltin : ({ ref with resolved } : TypeRef).isBuiltin = ref.isBuiltin := rfl
  have hname : ({ ref with resolved } : TypeRef).lookupName = ref.lookupName := rfl
  have hcandidates : candidates (owner.mapTypeRefs f) ref.lookupName =
      candidates owner ref.lookupName := by
    unfold candidates ClassDoc.mapTypeRefs
    rfl
  rw [byRef, byRef, hbuiltin, hname, byName, byName, hcandidates]

end Lookup

namespace Root

variable {r : Root}

theorem typeRefs_resolveClass (index : NameMap ClassId) (doc : ClassDoc) :
    (resolveClass index doc).typeRefs =
      doc.typeRefs.map fun ref => { ref with resolved := Lookup.byRef index doc ref } := by
  rw [resolveClass, ClassDoc.typeRefs_mapTypeRefs]

/-- What is stored in a resolved class is what looking up gives, before and after. -/
theorem resolved_of_mem_resolveClass {index : NameMap ClassId} {doc : ClassDoc} {ref : TypeRef}
    (h : ref ∈ (resolveClass index doc).typeRefs) :
    ref.resolved = Lookup.byRef index (resolveClass index doc) ref := by
  rw [typeRefs_resolveClass] at h
  obtain ⟨ref, -, rfl⟩ := List.mem_map.1 h
  rw [resolveClass, Lookup.byRef_mapTypeRefs]

theorem index_lt_of_byRef (h : r.Consistent) {doc : ClassDoc} {ref : TypeRef} {id : ClassId}
    (hid : Lookup.byRef r.index doc ref = some id) : id.index < r.classes.length := by
  obtain ⟨q, hq⟩ := Lookup.exists_of_byRef hid
  obtain ⟨target, htarget, -⟩ := h.indexed_iff.1 hq
  exact (List.getElem?_eq_some_iff.1 htarget).1

/-- A summary counts the links that looking up gives, class by class. -/
theorem summarize_resolveClass (index : NameMap ClassId) (docs : List ClassDoc) :
    summarize (docs.map (resolveClass index)) =
      { resolved := (docs.map fun doc =>
          doc.typeRefs.countP fun ref => (Lookup.byRef index doc ref).isSome).sum
        unresolved := (docs.map fun doc =>
          doc.typeRefs.countP fun ref =>
            (Lookup.byRef index doc ref).isNone && !ref.isBuiltin).sum } := by
  have hcount : ∀ p : TypeRef → Bool,
      ((docs.map (resolveClass index)).flatMap ClassDoc.typeRefs).countP p =
        (docs.map fun doc => doc.typeRefs.countP fun ref =>
          p { ref with resolved := Lookup.byRef index doc ref }).sum := by
    intro p
    rw [List.flatMap_map, List.countP_flatMap]
    refine congrArg List.sum (List.map_congr_left fun doc _ => ?_)
    rw [Function.comp_apply, typeRefs_resolveClass, List.countP_map, Function.comp_def]
  have hbuiltin : ∀ (ref : TypeRef) (resolved : Option ClassId),
      ({ ref with resolved } : TypeRef).isBuiltin = ref.isBuiltin := fun _ _ => rfl
  simp only [summarize, hcount, hbuiltin]

/-! ## A resolved root is final -/

theorem isResolved_resolve (r : Root) : r.resolve.isResolved = true := by
  cases h : r.isResolved with
  | true => rw [resolve, if_pos h, h]
  | false =>
    rw [resolve_eq h]
    rfl

theorem performAll_of_isResolved (h : r.isResolved = true) (operations : List Operation) :
    r.performAll operations = r := by
  induction operations with
  | nil => rfl
  | cons operation operations ih =>
    show (r.perform operation).performAll operations = r
    rw [perform_of_isResolved h, ih]

/-- A root that refuses every change, and answers the next `resolve` with the summary it has. -/
structure Frozen (r : Root) : Prop where
  ensurePackage : ∀ path, r.ensurePackage path = .error (.alreadyResolved "create a package")
  describe : ∀ path text,
    r.describe path text = .error (.alreadyResolved "set a package description")
  put : ∀ path file classes, r.put path file classes = .error (.alreadyResolved "add classes")
  resolve : r.resolve = r

theorem frozen_of_isResolved (h : r.isResolved = true) : r.Frozen where
  ensurePackage path := by rw [ensurePackage_eq, if_pos h]
  describe path text := by rw [describe_eq, if_pos h]
  put path file classes := by rw [put_eq, if_pos h]
  resolve := by rw [Root.resolve, if_pos h]

end Root

end ApiDoc
