import ApiDoc.Syntax.TagTable

/-!
# Trees in another vocabulary

A map of kinds carries a tree over node by node (`Tree.mapKind`). Retagging by a function that has
an answer for every kind is such a map, and the table of the Java vocabulary is such a function, so
every Java tree has a normalized form: `normalize_java`.
-/

namespace ApiDoc.Syntax

namespace Tree

variable {κ μ ε : Type}

theorem withChildren_children (t : Tree κ) : t.withChildren t.children = t := by
  cases t
  rfl

/-! ## Maps of kinds -/

mutual

/-- The tree with the kind of every node changed by `φ`. -/
def mapKind (φ : κ → μ) : Tree κ → Tree μ
  | ⟨kind, text, pos, doc, children⟩ => ⟨φ kind, text, pos, doc, mapKindAll φ children⟩

/-- Change the kinds of a list of trees. -/
def mapKindAll (φ : κ → μ) : List (Tree κ) → List (Tree μ)
  | [] => []
  | t :: ts => mapKind φ t :: mapKindAll φ ts

end

theorem mapKindAll_eq_map (φ : κ → μ) (ts : List (Tree κ)) :
    mapKindAll φ ts = ts.map (mapKind φ) := by
  induction ts with
  | nil => rfl
  | cons t ts ih => rw [mapKindAll, ih, List.map_cons]

theorem mapKind_mk (φ : κ → μ) (kind : κ) (text : String) (pos : Text.Position)
    (doc : Option String) (children : List (Tree κ)) :
    mapKind φ ⟨kind, text, pos, doc, children⟩ =
      ⟨φ kind, text, pos, doc, children.map (mapKind φ)⟩ := by
  rw [mapKind, mapKindAll_eq_map]

/-! ## Nodes -/

theorem mem_preorderAll {n : Tree κ} {ts : List (Tree κ)} :
    n ∈ preorderAll ts ↔ ∃ t ∈ ts, n ∈ t.preorder := by
  induction ts with
  | nil => simp [preorderAll]
  | cons t ts ih => simp [preorderAll, ih]

theorem mem_preorder_self (t : Tree κ) : t ∈ t.preorder := by
  obtain ⟨kind, text, pos, doc, children⟩ := t
  rw [preorder]
  exact List.mem_cons_self

theorem mem_preorder_child {c t : Tree κ} (h : c ∈ t.children) : c ∈ t.preorder := by
  obtain ⟨kind, text, pos, doc, children⟩ := t
  rw [preorder]
  exact List.mem_cons_of_mem _ (mem_preorderAll.mpr ⟨c, h, c.mem_preorder_self⟩)

mutual

/-- Where the kind of every node has a counterpart, retagging is a map of kinds. -/
theorem retag_eq_mapKind {f : κ → Except ε μ} {φ : κ → μ} : (t : Tree κ) →
    (∀ n ∈ t.preorder, f n.kind = .ok (φ n.kind)) → t.retag f = .ok (t.mapKind φ)
  | ⟨kind, text, pos, doc, children⟩, h => by
    rw [preorder, List.forall_mem_cons] at h
    have hroot : f kind = .ok (φ kind) := h.1
    rw [retag, hroot, retagAll_eq_mapKindAll children h.2]
    rfl

theorem retagAll_eq_mapKindAll {f : κ → Except ε μ} {φ : κ → μ} : (ts : List (Tree κ)) →
    (∀ n ∈ preorderAll ts, f n.kind = .ok (φ n.kind)) → retagAll f ts = .ok (mapKindAll φ ts)
  | [], _ => rfl
  | t :: ts, h => by
    rw [preorderAll, List.forall_mem_append] at h
    rw [retagAll, retag_eq_mapKind t h.1, retagAll_eq_mapKindAll ts h.2]
    rfl

end

mutual

/-- The nodes of a node are nodes of the tree. -/
theorem mem_preorder_trans {m n : Tree κ} (hm : m ∈ n.preorder) :
    (t : Tree κ) → n ∈ t.preorder → m ∈ t.preorder
  | ⟨kind, text, pos, doc, children⟩, hn => by
    rw [preorder, List.mem_cons] at hn
    rcases hn with rfl | hn
    · exact hm
    · rw [preorder]
      exact List.mem_cons_of_mem _ (mem_preorderAll_trans hm children hn)

theorem mem_preorderAll_trans {m n : Tree κ} (hm : m ∈ n.preorder) :
    (ts : List (Tree κ)) → n ∈ preorderAll ts → m ∈ preorderAll ts
  | [], hn => by simp [preorderAll] at hn
  | t :: ts, hn => by
    rw [preorderAll, List.mem_append] at hn ⊢
    exact hn.imp (mem_preorder_trans hm t) (mem_preorderAll_trans hm ts)

end

/-- What all nodes have, the root has and all nodes of its children. -/
theorem forall_mem_preorder {P : Tree κ → Prop} {t : Tree κ} :
    (∀ n ∈ t.preorder, P n) ↔ P t ∧ ∀ s ∈ t.children, ∀ n ∈ s.preorder, P n := by
  obtain ⟨kind, text, pos, doc, children⟩ := t
  simp only [preorder, List.forall_mem_cons, mem_preorderAll]
  constructor
  · rintro ⟨hroot, hrest⟩
    exact ⟨hroot, fun s hs n hn => hrest n ⟨s, hs, hn⟩⟩
  · rintro ⟨hroot, hchildren⟩
    refine ⟨hroot, ?_⟩
    rintro n ⟨s, hs, hn⟩
    exact hchildren s hs n hn

mutual

/-- A node is the root, or stands in the root, or stands in something that stands in a node. -/
theorem mem_preorder_cases {n : Tree κ} : (t : Tree κ) → n ∈ t.preorder →
    n = t ∨ n ∈ t.children ∨ ∃ q ∈ t.preorder, ∃ b ∈ q.children, n ∈ b.children
  | ⟨kind, text, pos, doc, children⟩, hn => by
    rw [preorder, List.mem_cons] at hn
    rcases hn with rfl | hn
    · exact .inl rfl
    refine .inr ?_
    rcases mem_preorderAll_cases children hn with hn | ⟨b, hb, hn⟩ | ⟨q, hq, b, hb, hn⟩
    · exact .inl hn
    · exact .inr ⟨_, mem_preorder_self _, b, hb, hn⟩
    · refine .inr ⟨q, ?_, b, hb, hn⟩
      rw [preorder]
      exact List.mem_cons_of_mem _ hq

theorem mem_preorderAll_cases {n : Tree κ} : (ts : List (Tree κ)) → n ∈ preorderAll ts →
    n ∈ ts ∨ (∃ b ∈ ts, n ∈ b.children) ∨
      ∃ q ∈ preorderAll ts, ∃ b ∈ q.children, n ∈ b.children
  | [], hn => by simp [preorderAll] at hn
  | t :: ts, hn => by
    rw [preorderAll, List.mem_append] at hn
    simp only [preorderAll, List.mem_append, List.mem_cons]
    rcases hn with hn | hn
    · rcases mem_preorder_cases t hn with rfl | hn | ⟨q, hq, b, hb, hn⟩
      · exact .inl (.inl rfl)
      · exact .inr (.inl ⟨t, .inl rfl, hn⟩)
      · exact .inr (.inr ⟨q, .inl hq, b, hb, hn⟩)
    · rcases mem_preorderAll_cases ts hn with hn | ⟨b, hb, hn⟩ | ⟨q, hq, b, hb, hn⟩
      · exact .inl (.inr hn)
      · exact .inr (.inl ⟨b, .inr hb, hn⟩)
      · exact .inr (.inr ⟨q, .inr hq, b, hb, hn⟩)

end

/-! ## Kinds that do not occur -/

/-- No node of the tree is of the kind. -/
def Lacks (kind : κ) (t : Tree κ) : Prop := ∀ n ∈ t.preorder, n.kind ≠ kind

theorem lacks_iff {kind : κ} {t : Tree κ} :
    t.Lacks kind ↔ t.kind ≠ kind ∧ ∀ s ∈ t.children, s.Lacks kind :=
  forall_mem_preorder

/-! ## Normalized trees -/

/-- A Java tree in the normalized vocabulary. -/
def normalized (t : Tree JavaKind) : Tree NodeKind := t.mapKind JavaKind.normalized

theorem normalized_mk (kind : JavaKind) (text : String) (pos : Text.Position)
    (doc : Option String) (children : List (Tree JavaKind)) :
    normalized ⟨kind, text, pos, doc, children⟩ =
      ⟨kind.normalized, text, pos, doc, children.map normalized⟩ :=
  mapKind_mk ..

theorem kind_normalized (t : Tree JavaKind) : t.normalized.kind = t.kind.normalized := by
  obtain ⟨kind, text, pos, doc, children⟩ := t
  rw [normalized_mk]

theorem kind_normalized_eq {t : Tree JavaKind} {kind : JavaKind} (h : t.kind = kind) :
    t.normalized.kind = kind.normalized := by
  rw [kind_normalized, h]

theorem text_normalized (t : Tree JavaKind) : t.normalized.text = t.text := by
  obtain ⟨kind, text, pos, doc, children⟩ := t
  rw [normalized_mk]

theorem children_normalized (t : Tree JavaKind) :
    t.normalized.children = t.children.map normalized := by
  obtain ⟨kind, text, pos, doc, children⟩ := t
  rw [normalized_mk]

end Tree

theorem JavaKind.normalized_injective : Function.Injective JavaKind.normalized := by
  have hall : ∀ a ∈ all, ∀ b ∈ all, a.normalized = b.normalized → a = b := by decide +kernel
  exact fun a b => hall a (by cases a <;> decide) b (by cases b <;> decide)

namespace TagTable

theorem lookup?_java (kind : JavaKind) : java.lookup? kind.tag = some kind.normalized := by
  have hall : ∀ k ∈ JavaKind.all, java.lookup? k.tag = some k.normalized := by decide +kernel
  exact hall kind (by cases kind <;> decide)

/-- Every Java tree has a normalized form. -/
theorem normalize_java (t : Tree JavaKind) : java.normalize t = .ok t.normalized := by
  refine t.retag_eq_mapKind fun n _ => ?_
  rw [show Vocabulary.tag n.kind = n.kind.tag from rfl, lookup?_java]

end TagTable

end ApiDoc.Syntax
