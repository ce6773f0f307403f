import ApiDoc.Proofs.Doc.Declared

/-!
# The references of an assembled document

Every reference of an assembled document, whatever place it stands in, is what `FileContext.typeRef`
makes of a spelled type under the imports that the document records
(`FileContext.makes_of_mem_assemble`). So what holds of `typeRef` holds of all of them.
-/

namespace ApiDoc

namespace FileContext

variable {t : Syntax.Tree Syntax.NodeKind}

variable (ctx : FileContext)

/-- The reference is what some spelled type makes. -/
def Makes (ref : TypeRef) : Prop := ∃ name, ref = ctx.typeRef name

variable {ctx} {ref : TypeRef}

theorem makes_typeRef (name : String) : ctx.Makes (ctx.typeRef name) := ⟨name, rfl⟩

/-! ### One declaration -/

theorem makes_of_mem_typeRefs {clause : Option (Syntax.Tree Syntax.NodeKind)}
    (h : ref ∈ ctx.typeRefs clause) : ctx.Makes ref := by
  unfold typeRefs at h
  split at h
  · cases h
  · obtain ⟨t, -, rfl⟩ := List.mem_map.1 h
    exact makes_typeRef t.text

theorem makes_declaredType (t : Syntax.Tree Syntax.NodeKind) : ctx.Makes (ctx.declaredType t) := by
  unfold declaredType
  split
  · exact makes_typeRef _
  · -- A declaration without a type is declared with a builtin one.
    exact ⟨"def", rfl⟩

theorem makes_of_mem_paramDocs {p : ParamDoc} (h : p ∈ ctx.paramDocs t) : ctx.Makes p.type := by
  unfold paramDocs at h
  split at h
  · cases h
  · obtain ⟨param, -, rfl⟩ := List.mem_map.1 h
    exact makes_declaredType param

theorem makes_of_mem_methodDoc (h : ref ∈ (ctx.methodDoc t).typeRefs) : ctx.Makes ref := by
  unfold MethodDoc.typeRefs at h
  rcases List.mem_append.1 h with h | h
  · rcases List.mem_append.1 h with h | h
    · unfold methodDoc at h
      dsimp only at h
      split at h
      · cases h
      · rw [List.mem_singleton.1 h]
        exact makes_declaredType t
    · obtain ⟨p, hp, rfl⟩ := List.mem_map.1 h
      exact makes_of_mem_paramDocs hp
  · exact makes_of_mem_typeRefs h

theorem makes_of_mem_supertypes {kind : ClassKind} {extended implemented : List TypeRef}
    (hextended : ∀ ref ∈ extended, ctx.Makes ref)
    (himplemented : ∀ ref ∈ implemented, ctx.Makes ref)
    (h : ref ∈ (ctx.supertypes kind extended implemented).1.toList ++
      (ctx.supertypes kind extended implemented).2) : ctx.Makes ref := by
  unfold supertypes at h
  split at h
  · rcases List.mem_append.1 h with h | h
    · have hfirst := List.mem_singleton.1 h
      cases extended with
      | nil => exact ⟨"Object", hfirst⟩
      | cons first rest => exact hfirst ▸ hextended first List.mem_cons_self
    · exact himplemented ref h
  · rcases List.mem_append.1 h with h | h
    · exact ⟨"Enum", List.mem_singleton.1 h⟩
    · exact himplemented ref h
  · rcases List.mem_append.1 h with h | h
    · cases h
    · rcases List.mem_append.1 h with h | h
      · exact hextended ref h
      · exact himplemented ref h

theorem makes_of_mem_classDoc {outer : Option String} (h : ref ∈ (ctx.classDoc outer t).typeRefs) :
    ctx.Makes ref := by
  unfold ClassDoc.typeRefs at h
  rcases List.mem_append.1 h with h | h
  · rcases List.mem_append.1 h with h | h
    · exact makes_of_mem_supertypes (fun _ => makes_of_mem_typeRefs)
        (fun _ => makes_of_mem_typeRefs) h
    · -- Fields and properties are filtered lists of `fieldDoc`s.
      obtain ⟨x, hx, rfl⟩ := List.mem_map.1 h
      have hfield : ∃ inInterface m, ctx.fieldDoc inInterface m = x := by
        rcases List.mem_append.1 hx with hx | hx
        · obtain ⟨m, -, hm⟩ := List.mem_map.1 (List.mem_filter.1 hx).1
          exact ⟨_, m, hm⟩
        · obtain ⟨m, -, hm⟩ := List.mem_map.1 (List.mem_filter.1 hx).1
          exact ⟨_, m, hm⟩
      obtain ⟨inInterface, m, rfl⟩ := hfield
      exact makes_declaredType m
  · obtain ⟨m, hm, href⟩ := List.mem_flatMap.1 h
    have hmethod : ∃ member, ctx.methodDoc member = m := by
      rcases List.mem_append.1 hm with hm | hm
      · obtain ⟨member, -, hmember⟩ := List.mem_map.1 (List.mem_filter.1 hm).1
        exact ⟨member, hmember⟩
      · obtain ⟨member, -, hmember⟩ := List.mem_map.1 (List.mem_filter.1 hm).1
        exact ⟨member, hmember⟩
    obtain ⟨member, rfl⟩ := hmethod
    exact makes_of_mem_methodDoc href

/-! ### Scripts and files -/

theorem makes_of_mem_generatedMethods {m : MethodDoc} (hm : m ∈ ctx.generatedMethods)
    (h : ref ∈ m.typeRefs) : ctx.Makes ref := by
  unfold generatedMethods at hm
  rcases List.mem_cons.1 hm with rfl | hm
  · have href : ref = ctx.typeRef "void" ∨ ref = ctx.typeRef "String[]" := by
      simpa [MethodDoc.typeRefs, generatedMethod] using h
    rcases href with rfl | rfl
    · exact makes_typeRef "void"
    · exact makes_typeRef "String[]"
  · rw [List.mem_singleton.1 hm] at h
    have href : ref = ctx.typeRef "Object" := by
      simpa [MethodDoc.typeRefs, generatedMethod] using h
    exact ⟨"Object", href⟩

theorem makes_of_mem_scriptDoc {declarations : List (Syntax.Tree Syntax.NodeKind)}
    (h : ref ∈ (ctx.scriptDoc declarations).typeRefs) : ctx.Makes ref := by
  unfold ClassDoc.typeRefs at h
  rcases List.mem_append.1 h with h | h
  · have href : ref = ctx.typeRef "Script" := by simpa [scriptDoc] using h
    exact ⟨"Script", href⟩
  · obtain ⟨m, hm, href⟩ := List.mem_flatMap.1 h
    have hmethods : m ∈ (ctx.scriptDoc declarations).methods := by simpa [scriptDoc] using hm
    rcases List.mem_append.1 hmethods with hm | hm
    · obtain ⟨member, -, rfl⟩ := List.mem_map.1 (List.mem_filter.1 hm).1
      exact makes_of_mem_methodDoc href
    · have hgenerated : m ∈ ctx.generatedMethods := by
        split at hm
        · exact hm
        · cases hm
      exact makes_of_mem_generatedMethods hgenerated href

/-- **Every reference of an assembled document is what a spelled type makes**, under the imports
that the document records. -/
theorem makes_of_mem_assemble {tree : Syntax.Tree Syntax.NodeKind} {e : String × ClassDoc}
    (he : e ∈ (ctx.assemble tree).entries) (h : ref ∈ e.2.typeRefs) :
    Makes { ctx with imports := e.2.imports } ref := by
  rcases mem_declared_cases (mem_declared_of_mem_entries e he).1 with hdoc | hdoc
  · obtain ⟨around, declaration, hdoc⟩ := (lists_of_mem hdoc).exists_classDoc
    rw [hdoc] at h ⊢
    exact makes_of_mem_classDoc h
  · rw [hdoc] at h ⊢
    exact makes_of_mem_scriptDoc h

end FileContext

end ApiDoc
