import ApiDoc.Doc.Assembly
import ApiDoc.Proofs.NameMap

/-!
# The documents that a file declares

Which documents a list of declarations has is said by a relation, `FileContext.Lists`: that of each
type in the list, and those of its members in turn. What holds of all documents is shown by
induction on it.

A file may declare a name more than once. `FileContext.declared` lists all its documents, and the
last one of each name is assembled (`FileContext.assemble_eq`).
-/

namespace ApiDoc

open Syntax (NodeKind)

namespace FileContext

variable {tree : Syntax.Tree NodeKind}

variable (ctx : FileContext)

/-! ### The documents of a list of declarations -/

theorem bodyDocs_eq (outer : String) {kind : NodeKind} {text : String} {pos : Text.Position}
    {doc : Option String} (ts : List (Syntax.Tree NodeKind)) :
    ctx.bodyDocs outer ts = ctx.memberDocs (some outer) (membersOf ⟨kind, text, pos, doc, ts⟩) := by
  induction ts with
  | nil => rw [bodyDocs]; rfl
  | cons t ts ih =>
    obtain ⟨k, text', pos', doc', children⟩ := t
    rw [bodyDocs]
    by_cases hblock : k = .objBlock
    · simp [membersOf, Syntax.Tree.child?, hblock]
    · simpa [membersOf, Syntax.Tree.child?, hblock] using ih

theorem mem_classDocs {outer : Option String} {t : Syntax.Tree NodeKind} {d : ClassDoc} :
    d ∈ ctx.classDocs outer t ↔
      d ∈ ctx.memberDocs (some (nestedName outer t.text)) (membersOf t) ∨
        d = ctx.classDoc outer t := by
  obtain ⟨kind, text, pos, doc, children⟩ := t
  rw [classDocs, List.mem_append, List.mem_singleton, ctx.bodyDocs_eq]

theorem mem_memberDocs {outer : Option String} {ts : List (Syntax.Tree NodeKind)} {d : ClassDoc} :
    d ∈ ctx.memberDocs outer ts ↔
      ∃ t ∈ ts, t.kind.isTypeDef = true ∧ d ∈ ctx.classDocs outer t := by
  induction ts with
  | nil => simp [memberDocs]
  | cons t ts ih =>
    rw [memberDocs, List.mem_append, ih]
    split
    · next hkind => simp [hkind]
    · next hkind => simp [hkind]

/-- `ctx.Lists outer ts d`: a list of declarations inside `outer` has the document `d`. -/
inductive Lists : Option String → List (Syntax.Tree NodeKind) → ClassDoc → Prop
  /-- That of a type in the list. -/
  | direct {outer : Option String} {ts : List (Syntax.Tree NodeKind)} {t : Syntax.Tree NodeKind} :
      t ∈ ts → t.kind.isTypeDef = true → Lists outer ts (ctx.classDoc outer t)
  /-- One of the members of a type in the list. -/
  | inside {outer : Option String} {ts : List (Syntax.Tree NodeKind)} {t : Syntax.Tree NodeKind}
      {d : ClassDoc} :
      t ∈ ts → t.kind.isTypeDef = true →
        Lists (some (nestedName outer t.text)) (membersOf t) d → Lists outer ts d

variable {ctx} {outer : Option String} {ts : List (Syntax.Tree NodeKind)} {d : ClassDoc}

theorem mem_of_lists (h : ctx.Lists outer ts d) : d ∈ ctx.memberDocs outer ts := by
  induction h with
  | direct ht hkind => exact ctx.mem_memberDocs.mpr ⟨_, ht, hkind, ctx.mem_classDocs.mpr (.inr rfl)⟩
  | inside ht hkind _ ih =>
    exact ctx.mem_memberDocs.mpr ⟨_, ht, hkind, ctx.mem_classDocs.mpr (.inl ih)⟩

theorem sizeOf_membersOf_lt (t : Syntax.Tree NodeKind) : sizeOf (membersOf t) < sizeOf t := by
  obtain ⟨kind, text, pos, doc, children⟩ := t
  unfold membersOf
  split
  · have hchildren : 0 < sizeOf children := by cases children <;> simp +arith
    simp only [Syntax.Tree.mk.sizeOf_spec, List.nil.sizeOf_spec]
    omega
  · next body hbody =>
    have hmem : body ∈ children := List.mem_of_find?_eq_some hbody
    have hlt := List.sizeOf_lt_of_mem hmem
    obtain ⟨kind', text', pos', doc', members⟩ := body
    simp only [Syntax.Tree.mk.sizeOf_spec] at hlt ⊢
    omega

theorem lists_of_mem {outer : Option String} {ts : List (Syntax.Tree NodeKind)}
    (h : d ∈ ctx.memberDocs outer ts) : ctx.Lists outer ts d := by
  -- The members of a type are no subterm of its list, but they are smaller.
  obtain ⟨t, ht, hkind, hd⟩ := ctx.mem_memberDocs.mp h
  rcases ctx.mem_classDocs.mp hd with hd | rfl
  · exact .inside ht hkind (lists_of_mem hd)
  · exact .direct ht hkind
termination_by sizeOf ts
decreasing_by
  have hmembers := sizeOf_membersOf_lt t
  have ht := List.sizeOf_lt_of_mem ht
  omega

/-- A document is that of some declaration. -/
theorem Lists.exists_classDoc (h : ctx.Lists outer ts d) :
    ∃ around declaration, d = ctx.classDoc around declaration := by
  induction h with
  | direct => exact ⟨_, _, rfl⟩
  | inside _ _ _ ih => exact ih

/-! ### The documents that a file declares -/

/-- The documents that a file declares, a name as often as it is declared. The class of a script
comes last, unless a declared one has its name. -/
def declared (ctx : FileContext) (tree : Syntax.Tree NodeKind) : List ClassDoc :=
  let ctx := { ctx with imports := (tree.childrenOf .importDef).map Syntax.Tree.text }
  let types := ctx.memberDocs none tree.children
  let script := ctx.scriptDoc tree.children
  if isScript tree.children && ctx.options.processScripts
      && !types.any fun d => d.name = script.name then types ++ [script]
  else types

/-- Of the documents that a file declares under one name, the last one is assembled. -/
theorem assemble_eq (tree : Syntax.Tree NodeKind) :
    ctx.assemble tree = NameMap.ofList ((ctx.declared tree).map fun d => (d.name, d)) := by
  unfold assemble declared
  dsimp only
  -- Both ask whether the name of the script is taken, the one in the map and the other in the list.
  rw [NameMap.contains_ofList, List.any_map]
  split
  · next hscript =>
    rw [hscript, Bool.true_and]
    split
    · next htaken =>
      rw [if_neg (by simpa using htaken)]
    · next hfree =>
      rw [if_pos (by simpa using hfree), List.map_append, List.map_singleton,
        NameMap.ofList_concat]
  · next hscript =>
    rw [if_neg (by simp [hscript])]

/-- A document that a file declares is that of a script or of a type in the file. -/
theorem mem_declared_cases (h : d ∈ ctx.declared tree) :
    let ctx := { ctx with imports := (tree.childrenOf .importDef).map Syntax.Tree.text }
    d ∈ ctx.memberDocs none tree.children ∨ d = ctx.scriptDoc tree.children := by
  unfold declared at h
  dsimp only at h
  split at h
  · simpa using h
  · exact .inl h

theorem mem_declared_of_mem
    (h : d ∈ memberDocs { ctx with imports := (tree.childrenOf .importDef).map Syntax.Tree.text }
      none tree.children) : d ∈ ctx.declared tree := by
  unfold declared
  dsimp only
  split
  · exact List.mem_append_left _ h
  · exact h

theorem packagePath_of_mem_declared (h : d ∈ ctx.declared tree) :
    d.packagePath = ctx.packagePath := by
  rcases mem_declared_cases h with h | rfl
  · obtain ⟨around, declaration, rfl⟩ := (lists_of_mem h).exists_classDoc
    rfl
  · rfl

/-- What is assembled under a name is declared under it. -/
theorem mem_declared_of_mem_entries :
    ∀ entry ∈ (ctx.assemble tree).entries,
      entry.2 ∈ ctx.declared tree ∧ entry.2.name = entry.1 := by
  rw [assemble_eq]
  apply NameMap.forall_mem_ofList
    (p := fun name (d : ClassDoc) => d ∈ ctx.declared tree ∧ d.name = name)
  intro entry hentry
  obtain ⟨d, hd, rfl⟩ := List.mem_map.mp hentry
  exact ⟨hd, rfl⟩

/-- A document is assembled under its own name, for the package of the file. -/
theorem place_of_mem_assemble (tree : Syntax.Tree NodeKind) :
    ∀ entry ∈ (ctx.assemble tree).entries,
      entry.2.name = entry.1 ∧ entry.2.packagePath = ctx.packagePath := by
  intro entry hentry
  obtain ⟨hmem, hname⟩ := mem_declared_of_mem_entries entry hentry
  exact ⟨hname, packagePath_of_mem_declared hmem⟩

/-- Of the documents that are declared under a name, one is assembled. -/
theorem exists_assembled (h : d ∈ ctx.declared tree) :
    ∃ e ∈ (ctx.assemble tree).values, e ∈ ctx.declared tree ∧ e.name = d.name := by
  have hcontains : (ctx.assemble tree).contains d.name = true := by
    rw [assemble_eq, NameMap.contains_ofList, List.any_eq_true]
    exact ⟨_, List.mem_map_of_mem h, by simp⟩
  obtain ⟨e, he⟩ := Option.isSome_iff_exists.mp hcontains
  exact ⟨e, NameMap.mem_values_iff.mpr ⟨_, he⟩,
    mem_declared_of_mem_entries _ (NameMap.get?_eq_some_iff.mp he)⟩

end FileContext

end ApiDoc
