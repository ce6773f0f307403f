import ApiDoc.Proofs.Syntax.Tree
import Mathlib.Logic.Function.Basic

/-!
# Retagging by a table

A tree can be retagged by a table exactly if the tag of every node has an entry, and then its tags
change to their entries and nothing else does. Otherwise the error names the first tag without an
entry, every node before its children: `normalize_by_entries`.

What the entries of a table are is said without the table (`IsEntry`): a tag is listed, and it
stands for the tag of a normalized kind.
-/

namespace ApiDoc.Syntax

namespace Tree

variable {κ μ ε : Type}

/-! ## Where retagging fails -/

theorem bind_eq_ok {α β : Type} {x : Except ε α} {f : α → Except ε β} {b : β} :
    x >>= f = .ok b ↔ ∃ a, x = .ok a ∧ f a = .ok b := by
  cases x <;> simp [bind, Except.bind]

theorem bind_eq_error {α β : Type} {x : Except ε α} {f : α → Except ε β} {e : ε} :
    x >>= f = .error e ↔ x = .error e ∨ ∃ a, x = .ok a ∧ f a = .error e := by
  cases x <;> simp [bind, Except.bind]

mutual

theorem exists_ok_of_retag {f : κ → Except ε μ} : {t : Tree κ} → {t' : Tree μ} →
    t.retag f = .ok t' → ∀ n ∈ t.preorder, ∃ kind, f n.kind = .ok kind
  | ⟨kind, text, pos, doc, children⟩, t', h => by
    rw [retag] at h
    obtain ⟨kind', hkind, h⟩ := bind_eq_ok.mp h
    obtain ⟨children', hchildren, -⟩ := bind_eq_ok.mp h
    rw [preorder, List.forall_mem_cons]
    exact ⟨⟨kind', hkind⟩, exists_ok_of_retagAll hchildren⟩

theorem exists_ok_of_retagAll {f : κ → Except ε μ} : {ts : List (Tree κ)} →
    {ts' : List (Tree μ)} → retagAll f ts = .ok ts' →
      ∀ n ∈ preorderAll ts, ∃ kind, f n.kind = .ok kind
  | [], ts', h => by simp [preorderAll]
  | t :: ts, ts', h => by
    rw [retagAll] at h
    obtain ⟨t', ht, h⟩ := bind_eq_ok.mp h
    obtain ⟨rest, hts, -⟩ := bind_eq_ok.mp h
    rw [preorderAll, List.forall_mem_append]
    exact ⟨exists_ok_of_retag ht, exists_ok_of_retagAll hts⟩

end

/-- `n` is the first of the nodes whose kind `f` rejects, and `e` is why. -/
def RejectedFirst (f : κ → Except ε μ) (nodes : List (Tree κ)) (n : Tree κ) (e : ε) : Prop :=
  ∃ front back, nodes = front ++ n :: back ∧ (∀ m ∈ front, ∃ kind, f m.kind = .ok kind) ∧
    f n.kind = .error e

theorem RejectedFirst.append_right {f : κ → Except ε μ} {nodes : List (Tree κ)} {n : Tree κ} {e : ε}
    (h : RejectedFirst f nodes n e) (more : List (Tree κ)) :
    RejectedFirst f (nodes ++ more) n e := by
  obtain ⟨front, back, rfl, hfront, hn⟩ := h
  exact ⟨front, back ++ more, by simp, hfront, hn⟩

theorem RejectedFirst.append_left {f : κ → Except ε μ} {nodes : List (Tree κ)} {n : Tree κ} {e : ε}
    (h : RejectedFirst f nodes n e) {before : List (Tree κ)}
    (hbefore : ∀ m ∈ before, ∃ kind, f m.kind = .ok kind) :
    RejectedFirst f (before ++ nodes) n e := by
  obtain ⟨front, back, rfl, hfront, hn⟩ := h
  exact ⟨before ++ front, back, by simp, List.forall_mem_append.mpr ⟨hbefore, hfront⟩, hn⟩

mutual

/-- Retagging stops at the first node that is rejected. -/
theorem exists_rejectedFirst_of_retag {f : κ → Except ε μ} {e : ε} : {t : Tree κ} →
    t.retag f = .error e → ∃ n, RejectedFirst f t.preorder n e
  | ⟨kind, text, pos, doc, children⟩, h => by
    rw [retag] at h
    rw [preorder]
    rcases bind_eq_error.mp h with hkind | ⟨kind', hkind, h⟩
    · exact ⟨_, [], preorderAll children, rfl, by simp, hkind⟩
    rcases bind_eq_error.mp h with hchildren | ⟨children', -, h⟩
    · obtain ⟨n, hn⟩ := exists_rejectedFirst_of_retagAll hchildren
      exact ⟨n, hn.append_left (List.forall_mem_singleton.mpr ⟨kind', hkind⟩)⟩
    · cases h

theorem exists_rejectedFirst_of_retagAll {f : κ → Except ε μ} {e : ε} : {ts : List (Tree κ)} →
    retagAll f ts = .error e → ∃ n, RejectedFirst f (preorderAll ts) n e
  | [], h => by
    rw [retagAll] at h
    cases h
  | t :: ts, h => by
    rw [retagAll] at h
    rw [preorderAll]
    rcases bind_eq_error.mp h with ht | ⟨t', ht, h⟩
    · obtain ⟨n, hn⟩ := exists_rejectedFirst_of_retag ht
      exact ⟨n, hn.append_right _⟩
    -- The first tree is read to its end, so what is rejected first stands behind all its nodes.
    rcases bind_eq_error.mp h with hts | ⟨rest, -, h⟩
    · obtain ⟨n, hn⟩ := exists_rejectedFirst_of_retagAll hts
      exact ⟨n, hn.append_left (exists_ok_of_retag ht)⟩
    · cases h

end

/-! ## Going back -/

/-- What undoes a map of kinds undoes it node by node. -/
theorem mapKind_leftInverse {φ : κ → μ} {ψ : μ → κ} (h : Function.LeftInverse ψ φ) :
    (t : Tree κ) → (t.mapKind φ).mapKind ψ = t
  | ⟨kind, text, pos, doc, children⟩ => by
    rw [mapKind_mk, mapKind_mk, h kind, List.map_map]
    have hchildren : ∀ c ∈ children, (mapKind ψ ∘ mapKind φ) c = c :=
      fun c _ => mapKind_leftInverse h c
    rw [List.map_congr_left hchildren, List.map_id']

end Tree

namespace TagTable

/-! ## Entries -/

/-- `tag` stands for `other` by a list of aliases: by its first alias, or for itself where it has
none. -/
inductive StandsFor (aliases : List (String × String)) (tag : String) : String → Prop
  | itself (h : ∀ a ∈ aliases, a.1 ≠ tag) : StandsFor aliases tag tag
  | aliased {front back : List (String × String)} {other : String}
      (h : aliases = front ++ (tag, other) :: back) (hfront : ∀ a ∈ front, a.1 ≠ tag) :
      StandsFor aliases tag other

/-- The table of the tags has an entry for `tag`, and it is `kind`: the tag is listed and stands for
that of the kind. -/
def IsEntry (tags : List String) (aliases : List (String × String)) (tag : String)
    (kind : NodeKind) : Prop :=
  tag ∈ tags ∧ StandsFor aliases tag kind.tag

variable {tags : List String} {aliases : List (String × String)} {tag : String} {kind : NodeKind}

theorem standsFor_target : StandsFor aliases tag (target aliases tag) := by
  unfold target
  cases hfind : aliases.find? fun a => a.1 = tag with
  | none => exact .itself (by simpa using hfind)
  | some a =>
    obtain ⟨hname, front, back, rfl, hfront⟩ := List.find?_eq_some_iff_append.mp hfind
    obtain rfl : a.1 = tag := by simpa using hname
    exact .aliased rfl (by simpa using hfront)

/-- A tag stands for one tag only. -/
theorem standsFor_iff {other : String} :
    StandsFor aliases tag other ↔ target aliases tag = other := by
  constructor
  · intro h
    unfold target
    cases h with
    | itself hnone =>
      have hfind : aliases.find? (fun a => a.1 = tag) = none := by simpa using hnone
      rw [hfind]
    | @aliased front back _ haliases hfront =>
      have hfind : front.find? (fun a => a.1 = tag) = none := by simpa using hfront
      rw [haliases, List.find?_append, hfind, Option.none_or, List.find?_cons_of_pos (by simp)]
  · rintro rfl
    exact standsFor_target

theorem ofTag?_eq_some {other : String} :
    Vocabulary.ofTag? other = some kind ↔ other = kind.tag := by
  constructor
  · intro h
    have htag : Vocabulary.tag kind = other := by simpa using List.find?_some h
    exact htag.symm
  · rintro rfl
    have hall : ∀ k ∈ NodeKind.all, Vocabulary.ofTag? k.tag = some k := by decide +kernel
    exact hall kind (by cases kind <;> decide)

theorem isEntry_iff : IsEntry tags aliases tag kind ↔
    tag ∈ tags ∧ Vocabulary.ofTag? (target aliases tag) = some kind := by
  rw [IsEntry, standsFor_iff, ofTag?_eq_some]

theorem mem_entries {e : String × NodeKind} :
    e ∈ (ofTags tags aliases).entries ↔ IsEntry tags aliases e.1 e.2 := by
  obtain ⟨tag, kind⟩ := e
  rw [isEntry_iff]
  simp only [ofTags, List.mem_filterMap, Option.map_eq_some_iff, Prod.mk.injEq]
  constructor
  · rintro ⟨listed, hlisted, found, hfound, rfl, rfl⟩
    exact ⟨hlisted, hfound⟩
  · rintro ⟨hlisted, hfound⟩
    exact ⟨tag, hlisted, kind, hfound, rfl, rfl⟩

/-- Looking a tag up finds its entry. -/
theorem lookup?_eq_some :
    (ofTags tags aliases).lookup? tag = some kind ↔ IsEntry tags aliases tag kind := by
  constructor
  · intro h
    obtain ⟨e, he, rfl⟩ := Option.map_eq_some_iff.mp h
    obtain rfl : e.1 = tag := by simpa using List.find?_some he
    exact mem_entries.mp (List.mem_of_find?_eq_some he)
  · intro h
    -- A tag may be listed several times, but all its entries are the same.
    have hmem : (tag, kind) ∈ (ofTags tags aliases).entries := mem_entries.mpr h
    have hsome : ((ofTags tags aliases).entries.find? fun e => e.1 = tag).isSome = true :=
      List.find?_isSome.mpr ⟨_, hmem, by simp⟩
    obtain ⟨e, he⟩ := Option.isSome_iff_exists.mp hsome
    obtain rfl : e.1 = tag := by simpa using List.find?_some he
    have hentry := mem_entries.mp (List.mem_of_find?_eq_some he)
    have hsame : some e.2 = some kind := (isEntry_iff.mp hentry).2.symm.trans (isEntry_iff.mp h).2
    rw [lookup?, he, Option.map_some, hsame]

/-! ## Retagging -/

variable {κ : Type} [Vocabulary κ]

/-- The tag of the node has an entry. -/
def Covers (tags : List String) (aliases : List (String × String)) (n : Tree κ) : Prop :=
  ∃ kind, IsEntry tags aliases (Vocabulary.tag n.kind) kind

/-- What a node is given for its kind: the entry of its tag, or an error. -/
def counterpart (table : TagTable) (pos : Text.Position) (kind : κ) : Except ParseError NodeKind :=
  match table.lookup? (Vocabulary.tag kind) with
  | some kind => .ok kind
  | none => .error ⟨pos, .noCounterpart (Vocabulary.tag kind)⟩

theorem normalize_eq_retag (table : TagTable) (t : Tree κ) :
    table.normalize t = t.retag (table.counterpart t.pos) := rfl

theorem counterpart_eq_ok {pos : Text.Position} {k : κ} :
    (ofTags tags aliases).counterpart pos k = .ok kind ↔
      IsEntry tags aliases (Vocabulary.tag k) kind := by
  rw [← lookup?_eq_some, counterpart]
  cases (ofTags tags aliases).lookup? (Vocabulary.tag k) with
  | none => simp
  | some found => simp

theorem counterpart_eq_error {pos : Text.Position} {n : Tree κ} {e : ParseError}
    (h : (ofTags tags aliases).counterpart pos n.kind = .error e) :
    ¬Covers tags aliases n ∧ e = ⟨pos, .noCounterpart (Vocabulary.tag n.kind)⟩ := by
  refine ⟨?_, ?_⟩
  · rintro ⟨kind, hentry⟩
    rw [counterpart_eq_ok.mpr hentry] at h
    cases h
  · unfold counterpart at h
    split at h
    · cases h
    · exact (Except.error.inj h).symm

theorem exists_mapKind (t : Tree κ) (h : ∀ n ∈ t.preorder, Covers tags aliases n) :
    ∃ φ : κ → NodeKind,
      (∀ n ∈ t.preorder, IsEntry tags aliases (Vocabulary.tag n.kind) (φ n.kind)) ∧
      (ofTags tags aliases).normalize t = .ok (t.mapKind φ) := by
  let φ : κ → NodeKind := fun k =>
    ((ofTags tags aliases).lookup? (Vocabulary.tag k)).getD .compilationUnit
  have hφ : ∀ n ∈ t.preorder, IsEntry tags aliases (Vocabulary.tag n.kind) (φ n.kind) := by
    intro n hn
    obtain ⟨kind, hentry⟩ := h n hn
    have hkind : φ n.kind = kind := by simp [φ, lookup?_eq_some.mpr hentry]
    rwa [hkind]
  refine ⟨φ, hφ, ?_⟩
  rw [normalize_eq_retag]
  exact t.retag_eq_mapKind fun n hn => counterpart_eq_ok.mpr (hφ n hn)

/-- **Retagging keeps the shape of a tree and fails exactly on tags without an entry.** By a table
of any tags and aliases, a tree is retagged if and only if the tag of every node has an entry; then
each tag changes to its entry, and nothing else does. Otherwise the error stands at the root of the
tree and names the first tag without an entry, every node before its children. By the table of the
Java vocabulary every tree is retagged, different kinds stay different, and the tree can be
recovered. -/
theorem normalize_by_entries (tags : List String) (aliases : List (String × String)) (t : Tree κ) :
    ((∃ t', (ofTags tags aliases).normalize t = .ok t') ↔
      ∀ n ∈ t.preorder, Covers tags aliases n) ∧
    (∀ t', (ofTags tags aliases).normalize t = .ok t' →
      ∃ φ : κ → NodeKind, t' = t.mapKind φ ∧
        ∀ n ∈ t.preorder, IsEntry tags aliases (Vocabulary.tag n.kind) (φ n.kind)) ∧
    (∀ e, (ofTags tags aliases).normalize t = .error e →
      ∃ front n back, t.preorder = front ++ n :: back ∧ (∀ m ∈ front, Covers tags aliases m) ∧
        ¬Covers tags aliases n ∧ e = ⟨t.pos, .noCounterpart (Vocabulary.tag n.kind)⟩ ∧
        e.fault.isLexical = false) ∧
    (∀ file : Tree JavaKind, ∃ file', java.normalize file = .ok file') ∧
    (∀ a b : JavaKind, java.lookup? a.tag = java.lookup? b.tag → a = b) ∧
    ∃ ψ : NodeKind → JavaKind, ∀ (file : Tree JavaKind) (file' : Tree NodeKind),
      java.normalize file = .ok file' → file'.mapKind ψ = file := by
  have hcovers : ∀ t', (ofTags tags aliases).normalize t = .ok t' →
      ∀ n ∈ t.preorder, Covers tags aliases n := by
    intro t' ht' n hn
    rw [normalize_eq_retag] at ht'
    obtain ⟨kind, hkind⟩ := Tree.exists_ok_of_retag ht' n hn
    exact ⟨kind, counterpart_eq_ok.mp hkind⟩
  refine ⟨⟨?_, ?_⟩, ?_, ?_, ?_, ?_, ?_⟩
  · rintro ⟨t', ht'⟩
    exact hcovers t' ht'
  · intro hall
    obtain ⟨φ, -, hok⟩ := exists_mapKind t hall
    exact ⟨_, hok⟩
  · intro t' ht'
    obtain ⟨φ, hφ, hok⟩ := exists_mapKind t (hcovers t' ht')
    exact ⟨φ, Except.ok.inj (ht'.symm.trans hok), hφ⟩
  · intro e he
    rw [normalize_eq_retag] at he
    -- the first node that is rejected is the one that the error names
    obtain ⟨n, front, back, hnodes, hfront, hn⟩ := Tree.exists_rejectedFirst_of_retag he
    obtain ⟨huncovered, rfl⟩ := counterpart_eq_error hn
    refine ⟨front, n, back, hnodes, fun m hm => ?_, huncovered, rfl, rfl⟩
    obtain ⟨kind, hkind⟩ := hfront m hm
    exact ⟨kind, counterpart_eq_ok.mp hkind⟩
  · exact fun file => ⟨_, normalize_java file⟩
  · intro a b hsame
    rw [lookup?_java, lookup?_java] at hsame
    exact JavaKind.normalized_injective (Option.some.inj hsame)
  · have : Nonempty JavaKind := ⟨.compilationUnit⟩
    obtain ⟨ψ, hψ⟩ := JavaKind.normalized_injective.hasLeftInverse
    refine ⟨ψ, fun file file' hfile => ?_⟩
    rw [normalize_java] at hfile
    cases hfile
    exact Tree.mapKind_leftInverse hψ file

end TagTable

end ApiDoc.Syntax
