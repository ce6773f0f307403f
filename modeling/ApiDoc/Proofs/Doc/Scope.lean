import ApiDoc.Proofs.Doc.Complete
import Mathlib.Data.List.Basic

/-!
# The scope filters members

The scope that a file is documented with decides which fields, properties, constructors and methods
its documents list, and nothing else. The documents of a file are those with every member, each cut
down to the members that are visible enough (`FileContext.assemble_eq_map_atLeast`), so two scopes
give documents that differ in these lists only, and a wider scope only adds to them.
-/

namespace ApiDoc

open Syntax (NodeKind)

/-! ## Members by visibility -/

namespace ClassDoc

/-- The document with only the members that are at least as visible as `least`. -/
def atLeast (least : Visibility) (d : ClassDoc) : ClassDoc :=
  { d with
    fields := d.fields.filter fun f => least ≤ f.visibility
    properties := d.properties.filter fun f => least ≤ f.visibility
    constructors := d.constructors.filter fun m => least ≤ m.visibility
    methods := d.methods.filter fun m => least ≤ m.visibility }

/-- The document without the members that have a visibility. -/
def withoutMembers (d : ClassDoc) : ClassDoc :=
  { d with fields := [], properties := [], constructors := [], methods := [] }

/-- The members of `d` are those of `full` that are at least as visible as `least`, in order. -/
structure MembersAtLeast (least : Visibility) (full d : ClassDoc) : Prop where
  fields : d.fields = full.fields.filter fun f => least ≤ f.visibility
  properties : d.properties = full.properties.filter fun f => least ≤ f.visibility
  constructors : d.constructors = full.constructors.filter fun m => least ≤ m.visibility
  methods : d.methods = full.methods.filter fun m => least ≤ m.visibility

/-- The members of `d` are among those of `e`, unchanged and in order. -/
structure MembersAmong (d e : ClassDoc) : Prop where
  fields : d.fields.Sublist e.fields
  properties : d.properties.Sublist e.properties
  constructors : d.constructors.Sublist e.constructors
  methods : d.methods.Sublist e.methods

theorem membersAtLeast_atLeast (least : Visibility) (d : ClassDoc) :
    MembersAtLeast least d (d.atLeast least) :=
  ⟨rfl, rfl, rfl, rfl⟩

theorem atLeast_priv (d : ClassDoc) : d.atLeast .priv = d := by
  have hall : ∀ v : Visibility, Visibility.priv ≤ v := fun v => Nat.zero_le _
  simp [atLeast, hall]

theorem filter_sublist_of_le {α : Type} {least wider : Visibility} (h : wider ≤ least)
    (visibility : α → Visibility) (members : List α) :
    (members.filter fun m => least ≤ visibility m).Sublist
      (members.filter fun m => wider ≤ visibility m) := by
  apply List.monotone_filter_right
  intro m hm
  have hleast : least.rank ≤ (visibility m).rank := of_decide_eq_true hm
  exact decide_eq_true (Nat.le_trans h hleast)

/-- A wider scope adds members and keeps the others. -/
theorem membersAmong_atLeast {least wider : Visibility} (h : wider ≤ least) (d : ClassDoc) :
    MembersAmong (d.atLeast least) (d.atLeast wider) where
  fields := filter_sublist_of_le h FieldDoc.visibility d.fields
  properties := filter_sublist_of_le h FieldDoc.visibility d.properties
  constructors := filter_sublist_of_le h MethodDoc.visibility d.constructors
  methods := filter_sublist_of_le h MethodDoc.visibility d.methods

end ClassDoc

/-! ## Documents with every member -/

namespace FileContext

variable (ctx : FileContext)

/-- The same file, documented with every member. -/
def unscoped : FileContext :=
  { ctx with options := { ctx.options with minVisibility := .priv } }

/-- Leaving out members while a list is made is leaving them out of the whole list. -/
theorem filter_includes {α : Type} (visibility : α → Visibility) (members : List α) :
    members.filter (fun m => ctx.options.includes (visibility m)) =
      (members.filter fun m => ctx.unscoped.options.includes (visibility m)).filter
        fun m => ctx.options.minVisibility ≤ visibility m := by
  have hall : ∀ v, ctx.unscoped.options.includes v = true :=
    fun v => decide_eq_true (Nat.zero_le v.rank)
  simp only [hall, List.filter_true]
  rfl

theorem classDoc_eq_atLeast (outer : Option String) (t : Syntax.Tree NodeKind) :
    ctx.classDoc outer t = (ctx.unscoped.classDoc outer t).atLeast ctx.options.minVisibility := by
  simp only [classDoc, ClassDoc.atLeast, ctx.filter_includes FieldDoc.visibility,
    ctx.filter_includes MethodDoc.visibility]
  rfl

/-- The methods that every script has are public, so no scope leaves them out. -/
theorem filter_generatedMethods (least : Visibility) :
    ((if ctx.options.includeMainForScripts then ctx.generatedMethods else []).filter
      fun m => least ≤ m.visibility) =
      if ctx.options.includeMainForScripts then ctx.generatedMethods else [] := by
  apply List.filter_eq_self.mpr
  intro m hm
  have hpublic : m.visibility = .pub := by
    split at hm
    · rcases List.mem_pair.mp hm with rfl | rfl
      · rfl
      · rfl
    · cases hm
  rw [hpublic]
  cases least <;> decide

theorem scriptDoc_eq_atLeast (declarations : List (Syntax.Tree NodeKind)) :
    ctx.scriptDoc declarations =
      (ctx.unscoped.scriptDoc declarations).atLeast ctx.options.minVisibility := by
  simp only [scriptDoc, ClassDoc.atLeast, ctx.filter_includes MethodDoc.visibility,
    List.filter_append, ctx.unscoped.filter_generatedMethods]
  rfl

theorem memberDocs_eq_map_atLeast (outer : Option String) (ts : List (Syntax.Tree NodeKind)) :
    ctx.memberDocs outer ts =
      (ctx.unscoped.memberDocs outer ts).map (ClassDoc.atLeast ctx.options.minVisibility) := by
  rw [memberDocs_eq_map ctx .file, memberDocs_eq_map ctx.unscoped .file, List.map_map]
  exact List.map_congr_left fun type _ => ctx.classDoc_eq_atLeast type.outer type.node

theorem declared_eq_map_atLeast (tree : Syntax.Tree NodeKind) :
    ctx.declared tree =
      (ctx.unscoped.declared tree).map (ClassDoc.atLeast ctx.options.minVisibility) := by
  have htypes := (ctx.inFile tree).memberDocs_eq_map_atLeast none tree.children
  have hscript := (ctx.inFile tree).scriptDoc_eq_atLeast tree.children
  by_cases hadds : ctx.AddsScript tree
  · rw [declared_of_addsScript hadds, htypes, hscript]
    have hadds' : ctx.unscoped.AddsScript tree := hadds
    rw [declared_of_addsScript hadds', List.map_append]
    rfl
  · rw [declared_of_not_addsScript hadds, htypes]
    have hadds' : ¬ctx.unscoped.AddsScript tree := hadds
    rw [declared_of_not_addsScript hadds']
    rfl

/-- The documents of a file are those with every member, cut down to what the scope asks for. -/
theorem assemble_eq_map_atLeast (tree : Syntax.Tree NodeKind) :
    ctx.assemble tree =
      (ctx.unscoped.assemble tree).map (ClassDoc.atLeast ctx.options.minVisibility) := by
  rw [assemble_eq, assemble_eq, NameMap.map_ofList, ctx.declared_eq_map_atLeast, List.map_map,
    List.map_map]
  rfl

end FileContext

/-! ## Two scopes -/

namespace Properties

/-- The switches that the scope is read off. -/
def scopeSwitches : List String := ["privateScope", "packageScope", "protectedScope", "publicScope"]

/-- The properties differ in the scope at most. -/
def AgreeBeyondScope (p q : Properties) : Prop := ∀ key ∉ scopeSwitches, p.get? key = q.get? key

theorem AgreeBeyondScope.switch_eq {p q : Properties} (h : p.AgreeBeyondScope q) {key : String}
    (hkey : key ∉ scopeSwitches) (default : Bool) :
    p.switch key default = q.switch key default := by
  rw [switch, h key hkey, switch]

end Properties

namespace FileContext

variable (ctx : FileContext)

/-- The same file, documented as the properties ask for. -/
def withProperties (p : Properties) : FileContext := { ctx with options := .ofProperties p }

theorem unscoped_withProperties {p q : Properties} (h : p.AgreeBeyondScope q) :
    (ctx.withProperties p).unscoped = (ctx.withProperties q).unscoped := by
  have hscripts : p.switch "processScripts" true = q.switch "processScripts" true :=
    h.switch_eq (by decide) true
  have hmain : p.switch "includeMainForScripts" true = q.switch "includeMainForScripts" true :=
    h.switch_eq (by decide) true
  simp only [withProperties, unscoped, DocOptions.ofProperties, hscripts, hmain]

/-- **The scope filters members and does nothing else.** Under properties that differ in the scope
at most, a file has documents of the same names, which agree in everything but fields, properties,
constructors and methods. With private members documented in the second, the first lists exactly
those of its members that are visible enough, in order; and whenever the scope of the second is at
least as wide, it lists every member that the first does, unchanged and in order. -/
theorem assemble_filters_by_scope (tree : Syntax.Tree NodeKind) (p q : Properties)
    (h : p.AgreeBeyondScope q) :
    ((ctx.withProperties p).assemble tree).names = ((ctx.withProperties q).assemble tree).names ∧
    ∀ name d e, ((ctx.withProperties p).assemble tree).get? name = some d →
      ((ctx.withProperties q).assemble tree).get? name = some e →
        d.withoutMembers = e.withoutMembers ∧
        (q.switch "privateScope" false = true →
          ClassDoc.MembersAtLeast (DocOptions.minVisibilityOf p) e d) ∧
        (DocOptions.minVisibilityOf q ≤ DocOptions.minVisibilityOf p →
          ClassDoc.MembersAmong d e) := by
  -- Both are the same documents with every member, filtered by the scope of each.
  have hp := (ctx.withProperties p).assemble_eq_map_atLeast tree
  have hq := (ctx.withProperties q).assemble_eq_map_atLeast tree
  rw [← ctx.unscoped_withProperties h] at hq
  refine ⟨by rw [hp, hq, NameMap.names_map, NameMap.names_map], ?_⟩
  intro name d e hd he
  rw [hp, NameMap.get?_map] at hd
  rw [hq, NameMap.get?_map] at he
  obtain ⟨full, hfull, rfl⟩ := Option.map_eq_some_iff.mp hd
  obtain ⟨full', hfull', rfl⟩ := Option.map_eq_some_iff.mp he
  obtain rfl : full = full' := Option.some.inj (hfull.symm.trans hfull')
  refine ⟨rfl, ?_, fun hwider => ClassDoc.membersAmong_atLeast hwider full⟩
  intro hprivate
  have hmin : (ctx.withProperties q).options.minVisibility = .priv := if_pos hprivate
  rw [hmin, ClassDoc.atLeast_priv]
  exact ClassDoc.membersAtLeast_atLeast _ full

theorem assemble_filters_by_scope_boxFile :
    let p : Properties := .ofList [("publicScope", "true")]
    let q : Properties := .ofList [("privateScope", "true")]
    p.AgreeBeyondScope q ∧
      ((boxContext.withProperties p).assemble boxFile).names =
        ((boxContext.withProperties q).assemble boxFile).names ∧
      ∃ d e, ((boxContext.withProperties p).assemble boxFile).get? "Box" = some d ∧
        ((boxContext.withProperties q).assemble boxFile).get? "Box" = some e ∧
        d.withoutMembers = e.withoutMembers ∧ ClassDoc.MembersAtLeast .pub e d ∧
        ClassDoc.MembersAmong d e := by
  intro p q
  -- The two lists of properties differ in these two keys only.
  have hagree : p.AgreeBeyondScope q := by
    intro key hkey
    have hpublic : key ≠ "publicScope" := fun heq => hkey (heq ▸ by decide)
    have hprivate : key ≠ "privateScope" := fun heq => hkey (heq ▸ by decide)
    show (NameMap.insert ∅ _ _).get? key = (NameMap.insert ∅ _ _).get? key
    rw [NameMap.get?_insert, NameMap.get?_insert, if_neg hpublic, if_neg hprivate]
  obtain ⟨hnames, hdocs⟩ := boxContext.assemble_filters_by_scope boxFile p q hagree
  obtain ⟨d, hd⟩ := Option.isSome_iff_exists.mp (show
    (((boxContext.withProperties p).assemble boxFile).get? "Box").isSome = true by decide +kernel)
  obtain ⟨e, he⟩ := Option.isSome_iff_exists.mp (show
    (((boxContext.withProperties q).assemble boxFile).get? "Box").isSome = true by decide +kernel)
  obtain ⟨hrest, hfilter, hwider⟩ := hdocs "Box" d e hd he
  have hprivate : q.switch "privateScope" false = true := by decide +kernel
  have hle : DocOptions.minVisibilityOf q ≤ DocOptions.minVisibilityOf p := by decide +kernel
  exact ⟨hagree, hnames, d, e, hd, he, hrest, hfilter hprivate, hwider hle⟩

end FileContext

end ApiDoc
