import ApiDoc.Doc.Lookup
import ApiDoc.Proofs.Doc.Name
import ApiDoc.Proofs.NameMap

/-!
# The order of looking up

`Gives` says which qualified names a name can mean inside a class, and at which place in the order
each of them is tried, in terms of the texts alone: what the name of the class starts with, and what
an import reads. Looking up finds the class under the first of them that the index holds
(`byName_finds_first`).
-/

namespace ApiDoc

variable {q text : String} {p : Place}

/-! ## Imports -/

namespace Import

/-- The text imports one class: the class at `path`, known as `visible`. With ` as ` in the text,
that is the other name behind it, and else the last segment of the path. -/
inductive Reads (text : String) : (path visible : String) → Prop
  | renamed {before behind : String} (hstar : ∀ package, text ≠ package ++ ".*")
      (htext : text = before ++ " as " ++ behind)
      (hfirst : ∀ front rest, text = front ++ " as " ++ rest → before.length ≤ front.length) :
      Reads text (Text.trimmed before) (Text.trimmed behind)
  | plain {visible : String} (hstar : ∀ package, text ≠ package ++ ".*")
      (has : ∀ front rest, text ≠ front ++ " as " ++ rest)
      (hlast : IsLastSegment visible (Text.trimmed text)) : Reads text (Text.trimmed text) visible

theorem beforeStar?_eq_some_iff {package : String} :
    Text.beforeEnd? ['.', '*'] text.toList = some package.toList ↔ text = package ++ ".*" := by
  have hstar : ".*".toList = ['.', '*'] := rfl
  rw [Text.beforeEnd?_eq_some_iff, ← String.toList_inj, String.toList_append, hstar]

theorem beforeStar?_eq_none_iff :
    Text.beforeEnd? ['.', '*'] text.toList = none ↔ ∀ package, text ≠ package ++ ".*" := by
  rw [Option.eq_none_iff_forall_ne_some]
  constructor
  · intro h package htext
    exact h package.toList (beforeStar?_eq_some_iff.mpr htext)
  · intro h front hfront
    rw [← String.toList_ofList (l := front)] at hfront
    exact h _ (beforeStar?_eq_some_iff.mp hfront)

theorem ofText_eq_star_iff {package : String} :
    ofText text = .star package ↔ text = package ++ ".*" := by
  rw [← beforeStar?_eq_some_iff]
  unfold ofText
  cases hstar : Text.beforeEnd? ['.', '*'] text.toList with
  | some front => simp [← String.toList_inj]
  | none =>
    dsimp only
    split <;> simp

theorem toList_renamed {front rest : String} :
    text.toList = front.toList ++ [' ', 'a', 's', ' '] ++ rest.toList ↔
      text = front ++ " as " ++ rest := by
  have has : " as ".toList = [' ', 'a', 's', ' '] := rfl
  rw [← String.toList_inj, String.toList_append, String.toList_append, has]

theorem cutAtAs?_eq_none_iff :
    Text.cutAt? [' ', 'a', 's', ' '] text.toList = none ↔
      ∀ front rest, text ≠ front ++ " as " ++ rest := by
  rw [Text.cutAt?_eq_none_iff]
  constructor
  · intro h front rest htext
    exact h _ _ (toList_renamed.mpr htext)
  · intro h front rest htext
    exact h (String.ofList front) (String.ofList rest) (toList_renamed.mp (by simpa using htext))

theorem cutAtAs?_eq_some_iff {text before behind : String} :
    Text.cutAt? [' ', 'a', 's', ' '] text.toList = some (before.toList, behind.toList) ↔
      text = before ++ " as " ++ behind ∧
        ∀ front rest, text = front ++ " as " ++ rest → before.length ≤ front.length := by
  rw [Text.cutAt?_eq_some_iff, Text.IsFirstCut, toList_renamed, String.length_toList]
  refine and_congr_right fun _ => ⟨fun h front rest htext => ?_, fun h front rest htext => ?_⟩
  · rw [← String.length_toList (s := front)]
    exact h _ _ (toList_renamed.mpr htext)
  · have hlength := h (String.ofList front) (String.ofList rest)
      (toList_renamed.mp (by simpa using htext))
    rwa [String.length_ofList] at hlength

theorem ofText_eq_single_iff {path visible : String} :
    ofText text = .single path visible ↔ Reads text path visible := by
  constructor
  · intro h
    unfold ofText at h
    split at h
    · cases h
    · next hstar =>
      rw [beforeStar?_eq_none_iff] at hstar
      split at h
      · next before behind hcut =>
        obtain ⟨rfl, rfl⟩ := Import.single.inj h
        obtain ⟨htext, hfirst⟩ := (@cutAtAs?_eq_some_iff text (.ofList before) (.ofList behind)).mp
          (by simpa using hcut)
        simpa [Text.trimmed] using Reads.renamed hstar htext hfirst
      · next hcut =>
        obtain ⟨rfl, rfl⟩ := Import.single.inj h
        exact .plain hstar (cutAtAs?_eq_none_iff.mp hcut) (isLastSegment_lastSegment _)
  · intro h
    unfold ofText
    cases h with
    | @renamed before behind hstar htext hfirst =>
      rw [beforeStar?_eq_none_iff.mpr hstar, cutAtAs?_eq_some_iff.mpr ⟨htext, hfirst⟩]
      rfl
    | plain hstar has hlast =>
      rw [beforeStar?_eq_none_iff.mpr hstar, cutAtAs?_eq_none_iff.mpr has]
      exact congrArg _ (lastSegment_eq_iff.mpr hlast)

end Import

namespace Lookup

/-! ## Scopes -/

/-- `scope` is a dotted name that `name` starts with: all of it, or what stands before a dot. -/
def IsScope (scope name : String) : Prop := name = scope ∨ ∃ inner, name = scope ++ "." ++ inner

theorem mem_scopes_iff {scope name : String} : scope ∈ scopes name ↔ IsScope scope name := by
  have hwhole := Text.intercalate_segments '.' name.toList
  unfold scopes
  simp only [List.mem_map, List.mem_reverse, List.mem_range]
  constructor
  · rintro ⟨n, hn, rfl⟩
    rw [IsScope, ← String.toList_inj, String.toList_ofList]
    -- a scope is some of the first segments: all of them, or those up to a dot of the name
    rcases Nat.eq_or_lt_of_le hn with hlast | hmore
    · left
      rw [List.take_of_length_le (Nat.le_of_eq hlast.symm), hwhole]
    · right
      have htake : (Text.segments '.' name.toList).take (n + 1) ≠ [] := by
        simp [Text.segments_ne_nil]
      have hdrop : (Text.segments '.' name.toList).drop (n + 1) ≠ [] := by
        simpa using hmore
      refine ⟨String.ofList (['.'].intercalate ((Text.segments '.' name.toList).drop (n + 1))), ?_⟩
      rw [← String.toList_inj, toList_dotted, String.toList_ofList, String.toList_ofList,
        ← Text.intercalate_append htake hdrop, List.take_append_drop, hwhole]
  · rintro (rfl | ⟨inner, rfl⟩)
    · have hpos := List.length_pos_iff.mpr (Text.segments_ne_nil '.' name.toList)
      refine ⟨(Text.segments '.' name.toList).length - 1, by omega, ?_⟩
      rw [List.take_of_length_le (by omega), hwhole, String.ofList_toList]
    · have hpos := List.length_pos_iff.mpr (Text.segments_ne_nil '.' scope.toList)
      rw [toList_dotted, Text.segments_append]
      refine ⟨(Text.segments '.' scope.toList).length - 1, ?_, ?_⟩
      · rw [List.length_append]
        omega
      · rw [Nat.sub_add_cancel hpos, List.take_left, Text.intercalate_segments,
          String.ofList_toList]

/-- Scopes are tried from the inside out. -/
theorem length_scopes (name : String) :
    (scopes name).Pairwise fun inner outer => outer.length < inner.length := by
  unfold scopes
  rw [List.pairwise_map, List.pairwise_reverse]
  refine List.pairwise_lt_range.imp_of_mem ?_
  intro m n hm hn hlt
  rw [List.mem_range] at hn
  have htake : (Text.segments '.' name.toList).take (m + 1) ≠ [] := by
    simp [Text.segments_ne_nil]
  have hmore : ((Text.segments '.' name.toList).drop (m + 1)).take (n - m) ≠ [] := by
    simp only [ne_eq, List.take_eq_nil_iff, List.drop_eq_nil_iff, not_or]
    omega
  have hsplit : (Text.segments '.' name.toList).take (n + 1) =
      (Text.segments '.' name.toList).take (m + 1) ++
        ((Text.segments '.' name.toList).drop (m + 1)).take (n - m) := by
    rw [← List.take_add]
    congr 1
    omega
  rw [hsplit, Text.intercalate_append htake hmore, String.length_ofList, String.length_ofList,
    List.length_append, List.length_cons]
  omega

/-! ## Places -/

/-- Where a qualified name is tried. -/
inductive Place where
  /-- As the name is written. -/
  | written
  /-- Inside the class or a type around it, whose name has the given length. -/
  | scope (length : Nat)
  | package
  /-- By an import of one class, given its place among the imports. -/
  | single (index : Nat)
  /-- By an import of all classes of a package. -/
  | star (index : Nat)

namespace Place

def rank : Place → Nat
  | written => 0
  | scope _ => 1
  | package => 2
  | single _ => 3
  | star _ => 4

/-- Is the first place tried before the second one? Longer scopes come before shorter ones, and
imports come in order. -/
def Before : Place → Place → Prop
  | scope m, scope n => n < m
  | single i, single j => i < j
  | star i, star j => i < j
  | p, q => p.rank < q.rank

theorem before_of_rank {q : Place} (h : p.rank < q.rank) : p.Before q := by
  cases p <;> cases q <;> simp_all [rank, Before]

theorem Before.asymm {q : Place} (h : p.Before q) : ¬q.Before p := by
  cases p <;> cases q <;> simp_all [rank, Before] <;> omega

end Place

/-- `Gives owner name place q`: at this place, the name means the qualified name `q` inside
`owner`. -/
inductive Gives (owner : ClassDoc) (name : String) : Place → String → Prop
  | written (hdot : '.' ∈ name.toList) : Gives owner name .written name
  | scope {scope : String} (hscope : IsScope scope owner.name) :
      Gives owner name (.scope scope.length) (qualify owner.packagePath (scope ++ "." ++ name))
  | package : Gives owner name .package (qualify owner.packagePath name)
  | single {i : Nat} {text path visible rest : String} (hi : owner.imports[i]? = some text)
      (htext : Import.Reads text path visible) (hname : IsFirstSegment visible rest name) :
      Gives owner name (.single i) (path ++ rest)
  | star {i : Nat} {package : String} (hi : owner.imports[i]? = some (package ++ ".*")) :
      Gives owner name (.star i) (package ++ "." ++ name)

/-! ## Candidates in order -/

variable (owner : ClassDoc) (name : String)

/-- The candidates of imports, with their places. -/
def placedImports (place : Nat → Place) (via : String → List String) : List (Place × String) :=
  owner.imports.zipIdx.flatMap fun (text, i) => (via text).map fun q => (place i, q)

/-- The candidates with their places. -/
def placedCandidates : List (Place × String) :=
  (if name.contains '.' then [(.written, name)] else [])
    ++ (scopes owner.name).map (fun scope =>
      (.scope scope.length, qualify owner.packagePath (scope ++ "." ++ name)))
    ++ [(.package, qualify owner.packagePath name)]
    ++ placedImports owner .single (viaSingle name)
    ++ placedImports owner .star (viaStar name)

variable {owner name}

theorem mem_viaSingle_iff :
    q ∈ viaSingle name text ↔ ∃ path visible rest, Import.Reads text path visible ∧
      IsFirstSegment visible rest name ∧ q = path ++ rest := by
  unfold viaSingle
  cases hread : Import.ofText text with
  | star package =>
    have hnone : ∀ path visible, ¬Import.Reads text path visible := by
      intro path visible h
      cases hread.symm.trans (Import.ofText_eq_single_iff.mpr h)
    simp [hnone]
  | single path visible =>
    -- An import reads in one way only, so the path and the name it makes visible are these.
    have hreads : ∀ path' visible', Import.Reads text path' visible' ↔
        path' = path ∧ visible' = visible := by
      intro path' visible'
      rw [← Import.ofText_eq_single_iff, hread, Import.single.injEq, eq_comm, @eq_comm _ visible]
    simp only [hreads, ← firstSegment_eq_iff]
    split
    · next hfirst =>
      constructor
      · intro hq
        exact ⟨path, visible, _, ⟨rfl, rfl⟩, ⟨hfirst.symm, rfl⟩, List.mem_singleton.mp hq⟩
      · rintro ⟨_, _, _, ⟨rfl, rfl⟩, ⟨-, rfl⟩, rfl⟩
        exact List.mem_singleton_self _
    · next hfirst =>
      refine iff_of_false List.not_mem_nil ?_
      rintro ⟨_, _, _, ⟨rfl, rfl⟩, ⟨hvisible, -⟩, -⟩
      exact hfirst hvisible.symm

theorem mem_viaStar_iff :
    q ∈ viaStar name text ↔ ∃ package, text = package ++ ".*" ∧ q = package ++ "." ++ name := by
  unfold viaStar
  simp only [← Import.ofText_eq_star_iff]
  cases Import.ofText text with
  | star package => simp
  | single path visible => simp

theorem length_viaSingle_le (name text : String) : (viaSingle name text).length ≤ 1 := by
  unfold viaSingle
  split
  · exact Nat.zero_le _
  · split <;> simp

theorem length_viaStar_le (name text : String) : (viaStar name text).length ≤ 1 := by
  unfold viaStar
  split <;> simp

section

variable {place : Nat → Place} {via : String → List String}

theorem map_snd_placedImports :
    (placedImports owner place via).map Prod.snd = owner.imports.flatMap via := by
  calc (placedImports owner place via).map Prod.snd
      = owner.imports.zipIdx.flatMap fun a => via a.1 := by
        simp [placedImports, List.map_flatMap, Function.comp_def]
    _ = (owner.imports.zipIdx.map Prod.fst).flatMap via := by rw [List.flatMap_map]
    _ = owner.imports.flatMap via := by rw [List.zipIdx_map_fst]

theorem mem_placedImports :
    (p, q) ∈ placedImports owner place via ↔
      ∃ i text, owner.imports[i]? = some text ∧ q ∈ via text ∧ p = place i := by
  unfold placedImports
  simp only [List.mem_flatMap, List.mem_map, Prod.exists, List.mem_zipIdx_iff_getElem?,
    Prod.mk.injEq]
  grind

theorem rank_placedImports {n : Nat} (hplace : ∀ i, (place i).rank = n) :
    ∀ a ∈ placedImports owner place via, a.1.rank = n := by
  rintro ⟨p, q⟩ h
  obtain ⟨i, text, -, -, rfl⟩ := mem_placedImports.mp h
  exact hplace i

theorem pairwise_placedImports (hplace : ∀ i j, i < j → (place i).Before (place j))
    (hvia : ∀ text, (via text).length ≤ 1) :
    (placedImports owner place via).Pairwise fun a b => a.1.Before b.1 := by
  have hindices : owner.imports.zipIdx.Pairwise fun a b => a.2 < b.2 := by
    rw [← List.pairwise_map (f := Prod.snd) (R := (· < ·)), List.zipIdx_map_snd]
    exact List.pairwise_lt_range'
  refine List.pairwise_flatMap.mpr ⟨fun a _ => ?_, hindices.imp fun {a b} hlt => ?_⟩
  · -- One import gives one candidate at most.
    cases hfound : via a.1 with
    | nil => simp [hfound]
    | cons q qs =>
      have hqs : qs = [] := by simpa [hfound] using hvia a.1
      simp [hfound, hqs]
  · intro x hx y hy
    obtain ⟨_, -, rfl⟩ := List.mem_map.mp hx
    obtain ⟨_, -, rfl⟩ := List.mem_map.mp hy
    exact hplace _ _ hlt

end

theorem map_snd_placedCandidates :
    (placedCandidates owner name).map Prod.snd = candidates owner name := by
  unfold placedCandidates candidates
  have hwritten : (if name.contains '.' then [(Place.written, name)] else []).map Prod.snd =
      if name.contains '.' then [name] else [] := by
    split
    · rfl
    · rfl
  simp only [List.map_append, List.map_map, map_snd_placedImports, List.map_singleton, hwritten,
    Function.comp_def]

/-- The candidates are in order, and their kinds of places come before the `n`-th. -/
def InOrder (n : Nat) (placed : List (Place × String)) : Prop :=
  (placed.Pairwise fun a b => a.1.Before b.1) ∧ ∀ a ∈ placed, a.1.rank < n

/-- Candidates with places of the next kind go behind. -/
theorem InOrder.append {n : Nat} {placed more : List (Place × String)} (h : InOrder n placed)
    (hmore : more.Pairwise fun a b => a.1.Before b.1) (hrank : ∀ b ∈ more, b.1.rank = n) :
    InOrder (n + 1) (placed ++ more) := by
  refine ⟨List.pairwise_append.mpr ⟨h.1, hmore, fun a ha b hb => Place.before_of_rank ?_⟩, ?_⟩
  · rw [hrank b hb]
    exact h.2 a ha
  · intro a ha
    rcases List.mem_append.mp ha with ha | ha
    · exact Nat.lt_succ_of_lt (h.2 a ha)
    · rw [hrank a ha]
      exact Nat.lt_succ_self n

theorem pairwise_placedCandidates :
    (placedCandidates owner name).Pairwise fun a b => a.1.Before b.1 := by
  have hwritten : InOrder 1 (if name.contains '.' then [(.written, name)] else []) := by
    split <;> simp [InOrder, Place.rank]
  have hscopes : ((scopes owner.name).map fun scope => (Place.scope scope.length,
      qualify owner.packagePath (scope ++ "." ++ name))).Pairwise fun a b => a.1.Before b.1 :=
    List.pairwise_map.mpr ((length_scopes owner.name).imp fun hlt => hlt)
  have hsingle : (placedImports owner .single (viaSingle name)).Pairwise
      fun a b => a.1.Before b.1 :=
    pairwise_placedImports (fun _ _ hlt => hlt) (length_viaSingle_le name)
  have hstar : (placedImports owner .star (viaStar name)).Pairwise fun a b => a.1.Before b.1 :=
    pairwise_placedImports (fun _ _ hlt => hlt) (length_viaStar_le name)
  have hall := (((hwritten.append hscopes (by simp [Place.rank])).append
    (List.pairwise_singleton _ (Place.package, qualify owner.packagePath name))
    (by simp [Place.rank])).append hsingle (rank_placedImports fun _ => rfl)).append hstar
    (rank_placedImports fun _ => rfl)
  exact hall.1

theorem mem_placedCandidates {place : Place} :
    (place, q) ∈ placedCandidates owner name ↔ Gives owner name place q := by
  unfold placedCandidates
  simp only [List.mem_append, List.mem_map, mem_placedImports, mem_viaSingle_iff, mem_viaStar_iff,
    mem_scopes_iff, List.mem_singleton, Prod.mk.injEq]
  constructor
  · rintro ((((h | ⟨scope, hscope, rfl, rfl⟩) | ⟨rfl, hq⟩) |
      ⟨i, text, hi, ⟨path, visible, rest, htext, hname, rfl⟩, rfl⟩) |
      ⟨i, text, hi, ⟨package, rfl, rfl⟩, rfl⟩)
    · split at h
      · next hdot =>
        obtain ⟨rfl, rfl⟩ := Prod.mk.inj (List.mem_singleton.mp h)
        exact .written (by simpa [String.contains_char_eq] using hdot)
      · cases h
    · exact .scope hscope
    · rw [hq]
      exact .package
    · exact .single hi htext hname
    · exact .star hi
  · intro h
    cases h with
    | written hdot => simp [String.contains_char_eq, hdot]
    | scope hscope => exact .inl (.inl (.inl (.inr ⟨_, hscope, rfl, rfl⟩)))
    | package => exact .inl (.inl (.inr ⟨rfl, rfl⟩))
    | single hi htext hname => exact .inl (.inr ⟨_, _, hi, ⟨_, _, _, htext, hname, rfl⟩, rfl⟩)
    | star hi => exact .inr ⟨_, _, hi, ⟨_, rfl, rfl⟩, rfl⟩

/-- In a list in order, what is found is the first that there is. -/
theorem findSome?_eq_some_iff_first {α β : Type} {before : α → α → Prop}
    (hasymm : ∀ {a b}, before a b → ¬before b a) {l : List α} (hl : l.Pairwise before)
    {f : α → Option β} {b : β} :
    l.findSome? f = some b ↔
      ∃ a ∈ l, f a = some b ∧ ∀ a' ∈ l, before a' a → f a' = none := by
  rw [List.findSome?_eq_some_iff]
  constructor
  · rintro ⟨front, a, back, rfl, ha, hfront⟩
    refine ⟨a, by simp, ha, fun a' ha' hbefore => ?_⟩
    have ⟨_, hback, _⟩ := List.pairwise_append.mp hl
    rcases List.mem_append.mp ha' with hmem | hmem
    · exact hfront a' hmem
    · rcases List.mem_cons.mp hmem with rfl | hmem
      · exact absurd hbefore (hasymm hbefore)
      · exact absurd ((List.pairwise_cons.mp hback).1 a' hmem) (hasymm hbefore)
  · rintro ⟨a, ha, hfound, hfirst⟩
    obtain ⟨front, back, rfl⟩ := List.append_of_mem ha
    refine ⟨front, a, back, rfl, hfound, fun a' ha' => ?_⟩
    exact hfirst a' (List.mem_append_left _ ha')
      ((List.pairwise_append.mp hl).2.2 a' ha' a List.mem_cons_self)

/-! ## Looking up -/

theorem byName_eq_findSome? (index : NameMap ClassId) (owner : ClassDoc) (hname : name ≠ "") :
    byName index owner name = (placedCandidates owner name).findSome? fun a => index.get? a.2 := by
  rw [byName, if_neg (by simpa using hname), ← map_snd_placedCandidates, List.findSome?_map]
  rfl

/-- **Looking up a name finds the class under the first qualified name that the name can mean and
the index holds.** It finds none when the index holds none of them, and what the index holds under
other names plays no part. -/
theorem byName_finds_first (index : NameMap ClassId) (owner : ClassDoc) (name : String)
    (hname : name ≠ "") :
    (∀ id, byName index owner name = some id ↔
      ∃ place q, Gives owner name place q ∧ index.get? q = some id ∧
        ∀ place' q', Gives owner name place' q' → place'.Before place → index.get? q' = none) ∧
    (byName index owner name = none ↔ ∀ place q, Gives owner name place q → index.get? q = none) ∧
    ∀ index' : NameMap ClassId,
      (∀ place q, Gives owner name place q → index'.get? q = index.get? q) →
        byName index' owner name = byName index owner name := by
  -- Candidates stand in the order of their places, so the first hit is the hit at the first place.
  have hsome : ∀ (index : NameMap ClassId) (id : ClassId), byName index owner name = some id ↔
      ∃ place q, Gives owner name place q ∧ index.get? q = some id ∧
        ∀ place' q', Gives owner name place' q' → place'.Before place → index.get? q' = none := by
    intro index id
    rw [byName_eq_findSome? index owner hname,
      findSome?_eq_some_iff_first Place.Before.asymm pairwise_placedCandidates]
    simp only [Prod.exists, Prod.forall, mem_placedCandidates]
  refine ⟨hsome index, ?_, fun index' hindex => Option.ext fun id => ?_⟩
  · rw [byName_eq_findSome? index owner hname, List.findSome?_eq_none_iff]
    simp only [Prod.forall, mem_placedCandidates]
  · rw [hsome, hsome]
    refine exists_congr fun place => exists_congr fun q => and_congr_right fun hq => ?_
    rw [hindex place q hq]
    refine and_congr_right fun _ => forall_congr' fun place' => forall_congr' fun q' => ?_
    exact forall_congr' fun hq' => by rw [hindex place' q' hq']

/-- A nested class whose file imports a class under another name, and a package. -/
def doorDoc : ClassDoc where
  name := "House.Door"
  packagePath := "town/north"
  kind := .classType
  imports := ["tools.Lock as Bolt", "shop.*"]

/-- Two classes that `Bolt.Key` can mean inside `doorDoc`, and one that it cannot. -/
def keyIndex : NameMap ClassId :=
  .ofList [("shop.Bolt.Key", ⟨0⟩), ("tools.Lock.Key", ⟨1⟩), ("town.Bolt.Key", ⟨2⟩)]

theorem byName_finds_first_key :
    byName keyIndex doorDoc "Bolt.Key" = some ⟨1⟩ ∧ ∃ place q, Gives doorDoc "Bolt.Key" place q ∧
      keyIndex.get? q = some ⟨1⟩ ∧ ∀ place' q', Gives doorDoc "Bolt.Key" place' q' →
        place'.Before place → keyIndex.get? q' = none := by
  have hfound : byName keyIndex doorDoc "Bolt.Key" = some ⟨1⟩ := by
    rw [byName, candidates, String.contains_char_eq]
    decide +kernel
  exact ⟨hfound, ((byName_finds_first keyIndex doorDoc "Bolt.Key" (by decide)).1 ⟨1⟩).mp hfound⟩

end Lookup

end ApiDoc
