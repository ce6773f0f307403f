import ApiDoc.Data.NameMap

/-!
# Laws of maps from names

A map is known by what it gives for each name: `get?` of an operation is described by `get?` of its
argument, and `ext_get?` says that nothing else tells two maps apart. The other listings of a map,
its entries, its names and its values, are described by `get?` as well, so that no later proof looks
at the order of the entries.
-/

namespace ApiDoc.NameMap

variable {β γ : Type}

/-! ### Entries -/

theorem sorted_names (m : NameMap β) : m.names.Pairwise (· < ·) :=
  List.pairwise_map.2 m.sorted

theorem nodup_of_sorted {names : List String} (h : names.Pairwise (· < ·)) : names.Nodup := by
  refine h.imp ?_
  intro a b hab heq
  exact String.lt_irrefl b (heq ▸ hab)

theorem nodup_names (m : NameMap β) : m.names.Nodup :=
  nodup_of_sorted m.sorted_names

/-- In a list of entries in order, the first entry of a name is the only one. -/
theorem find?_eq_some_of_mem {name : String} {value : β} {es : List (String × β)}
    (h : es.Pairwise fun a b => a.1 < b.1) (hmem : (name, value) ∈ es) :
    es.find? (fun e => e.1 = name) = some (name, value) := by
  induction es with
  | nil => cases hmem
  | cons e es ih =>
    have ⟨he, hes⟩ := List.pairwise_cons.1 h
    rcases List.mem_cons.1 hmem with rfl | hmem
    · rw [List.find?_cons_of_pos (by simp)]
    · have hne : e.1 ≠ name := by
        intro heq
        have hlt : e.1 < name := he _ hmem
        exact String.lt_irrefl name (heq ▸ hlt)
      rw [List.find?_cons_of_neg (by simpa using hne)]
      exact ih hes hmem

/-- The value of a name is the one that is entered under it. -/
theorem get?_eq_some_iff {m : NameMap β} {name : String} {value : β} :
    m.get? name = some value ↔ (name, value) ∈ m.entries := by
  constructor
  · intro h
    obtain ⟨e, he, rfl⟩ := Option.map_eq_some_iff.1 h
    have hname : e.1 = name := by simpa using List.find?_some he
    subst hname
    exact List.mem_of_find?_eq_some he
  · intro h
    show (m.entries.find? fun e => e.1 = name).map Prod.snd = some value
    rw [find?_eq_some_of_mem m.sorted h]
    rfl

theorem mem_names_iff {m : NameMap β} {name : String} :
    name ∈ m.names ↔ ∃ value, m.get? name = some value := by
  constructor
  · intro h
    obtain ⟨e, he, rfl⟩ := List.mem_map.1 h
    exact ⟨e.2, get?_eq_some_iff.2 he⟩
  · rintro ⟨value, h⟩
    exact List.mem_map.2 ⟨(name, value), get?_eq_some_iff.1 h, rfl⟩

theorem mem_values_iff {m : NameMap β} {value : β} :
    value ∈ m.values ↔ ∃ name, m.get? name = some value := by
  constructor
  · intro h
    obtain ⟨e, he, rfl⟩ := List.mem_map.1 h
    exact ⟨e.1, get?_eq_some_iff.2 he⟩
  · rintro ⟨name, h⟩
    exact List.mem_map.2 ⟨(name, value), get?_eq_some_iff.1 h, rfl⟩

/-! ### Extensionality -/

/-- Two lists of entries in order that hold the same entries are equal. -/
theorem entries_eq_of_mem_iff {es fs : List (String × β)}
    (hes : es.Pairwise fun a b => a.1 < b.1) (hfs : fs.Pairwise fun a b => a.1 < b.1)
    (h : ∀ e, e ∈ es ↔ e ∈ fs) : es = fs := by
  have nodup : ∀ {l : List (String × β)}, l.Pairwise (fun a b => a.1 < b.1) → l.Nodup := by
    intro l hl
    refine hl.imp ?_
    rintro a b hab rfl
    exact String.lt_irrefl _ hab
  have hperm : es.Perm fs := (List.perm_ext_iff_of_nodup (nodup hes) (nodup hfs)).2 h
  refine hperm.eq_of_pairwise ?_ hes hfs
  intro a b _ _ hab hba
  exact absurd (String.lt_trans hab hba) (String.lt_irrefl _)

/-- Maps that give the same value for every name are equal. -/
theorem ext_get? {m n : NameMap β} (h : ∀ name, m.get? name = n.get? name) : m = n := by
  have hentries : m.entries = n.entries := by
    apply entries_eq_of_mem_iff m.sorted n.sorted
    rintro ⟨name, value⟩
    rw [← get?_eq_some_iff, ← get?_eq_some_iff, h name]
  cases m
  cases n
  cases hentries
  rfl

/-! ### The value of a name behind each operation -/

@[simp] theorem get?_empty (name : String) : (∅ : NameMap β).get? name = none := rfl

/-- The entry of a name behind an insertion. -/
theorem find?_insertEntry (name other : String) (value : β) (es : List (String × β)) :
    (insertEntry name value es).find? (fun e => e.1 = other) =
      if other = name then some (name, value) else es.find? fun e => e.1 = other := by
  induction es with
  | nil => by_cases h : name = other <;> simp [insertEntry, h, eq_comm]
  | cons e es ih =>
    rw [insertEntry]
    -- The entry is put in front of this one, in its place, or behind it.
    by_cases hother : other = name
    · subst hother
      rw [if_pos rfl]
      split
      · rw [List.find?_cons_of_pos (by simp)]
      · split
        · rw [List.find?_cons_of_pos (by simp)]
        · next hne =>
          rw [List.find?_cons_of_neg (by simpa using Ne.symm hne), ih, if_pos rfl]
    · rw [if_neg hother] at ih ⊢
      split
      · rw [List.find?_cons_of_neg (by simpa using Ne.symm hother)]
      · split
        · next heq =>
          rw [List.find?_cons_of_neg (by simpa using Ne.symm hother),
            List.find?_cons_of_neg (by simpa [← heq] using Ne.symm hother)]
        · rw [List.find?_cons, List.find?_cons, ih]

/-- An insertion changes the value of its own name alone. -/
theorem get?_insert (m : NameMap β) (name other : String) (value : β) :
    (m.insert name value).get? other = if other = name then some value else m.get? other := by
  show ((insertEntry name value m.entries).find? fun e => e.1 = other).map Prod.snd = _
  rw [find?_insertEntry]
  split <;> rfl

/-- Removing a name changes the value of that name alone. -/
theorem get?_erase (m : NameMap β) (name other : String) :
    (m.erase name).get? other = if other = name then none else m.get? other := by
  show ((m.entries.filter fun e => e.1 ≠ name).find? fun e => e.1 = other).map Prod.snd = _
  rw [List.find?_filter]
  split
  · next h =>
    subst h
    rw [List.find?_eq_none.2 (by simp)]
    rfl
  · next h =>
    congr 2
    funext e
    by_cases he : e.1 = other
    · simp [he, h]
    · simp [he]

@[simp] theorem get?_map (f : β → γ) (m : NameMap β) (name : String) :
    (m.map f).get? name = (m.get? name).map f := by
  show ((m.entries.map fun e => (e.1, f e.2)).find? fun e => e.1 = name).map Prod.snd = _
  rw [List.find?_map, Option.map_map]
  show _ = ((m.entries.find? fun e => e.1 = name).map Prod.snd).map f
  rw [Option.map_map]
  rfl

@[simp] theorem names_map (f : β → γ) (m : NameMap β) : (m.map f).names = m.names := by
  show (m.entries.map fun e => (e.1, f e.2)).map Prod.fst = m.entries.map Prod.fst
  rw [List.map_map]
  rfl

@[simp] theorem values_map (f : β → γ) (m : NameMap β) : (m.map f).values = m.values.map f := by
  show (m.entries.map fun e => (e.1, f e.2)).map Prod.snd = (m.entries.map Prod.snd).map f
  rw [List.map_map, List.map_map]
  rfl

/-- Maps with the same names list them alike. -/
theorem names_eq_of_mem_iff {m : NameMap β} {n : NameMap γ}
    (h : ∀ name, name ∈ m.names ↔ name ∈ n.names) : m.names = n.names := by
  -- Without their values the two maps are equal.
  have hunit : (m.map fun _ => ()) = n.map fun _ => () := by
    apply ext_get?
    intro name
    have hname := h name
    rw [mem_names_iff, mem_names_iff] at hname
    rw [get?_map, get?_map]
    cases hm : m.get? name <;> cases hn : n.get? name <;> simp_all
  rw [← names_map (fun _ => ()) m, hunit, names_map]

/-! ### Maps of lists -/

/-- What holds of every entry of a list holds of every entry of its map. -/
theorem forall_mem_ofList {p : String → β → Prop} {es : List (String × β)}
    (h : ∀ e ∈ es, p e.1 e.2) : ∀ e ∈ (ofList es).entries, p e.1 e.2 := by
  -- The map grows along the list, so the statement is carried from any map that satisfies it.
  have grow : ∀ (fs : List (String × β)) (m : NameMap β), (∀ e ∈ fs, p e.1 e.2) →
      (∀ e ∈ m.entries, p e.1 e.2) →
      ∀ e ∈ (fs.foldl (fun m e => m.insert e.1 e.2) m).entries, p e.1 e.2 := by
    intro fs
    induction fs with
    | nil => exact fun m _ hm => hm
    | cons f fs ih =>
      intro m hfs hm
      apply ih
      · exact fun e he => hfs e (List.mem_cons_of_mem _ he)
      · intro e he
        rcases mem_of_mem_insertEntry he with rfl | he
        · exact hfs f List.mem_cons_self
        · exact hm e he
  exact grow es empty h (by simp [empty])

theorem ofList_concat (es : List (String × β)) (e : String × β) :
    ofList (es ++ [e]) = (ofList es).insert e.1 e.2 := by
  rw [ofList, List.foldl_append]
  rfl

/-- The names of the map of a list are those of the list. -/
theorem contains_ofList (es : List (String × β)) (name : String) :
    (ofList es).contains name = es.any fun e => e.1 = name := by
  have grow : ∀ (fs : List (String × β)) (m : NameMap β),
      (fs.foldl (fun m e => m.insert e.1 e.2) m).contains name =
        (m.contains name || fs.any fun e => e.1 = name) := by
    intro fs
    induction fs with
    | nil => simp
    | cons f fs ih =>
      intro m
      rw [List.foldl_cons, ih, contains, get?_insert, List.any_cons]
      by_cases hname : name = f.1
      · simp [hname]
      · simp [hname, Ne.symm hname, contains]
  rw [ofList, grow]
  rfl

theorem map_insert (f : β → γ) (m : NameMap β) (name : String) (value : β) :
    (m.insert name value).map f = (m.map f).insert name (f value) := by
  apply ext_get?
  intro other
  rw [get?_map, get?_insert, get?_insert, get?_map]
  split <;> rfl

theorem map_ofList (f : β → γ) (es : List (String × β)) :
    (ofList es).map f = ofList (es.map fun e => (e.1, f e.2)) := by
  have grow : ∀ (fs : List (String × β)) (m : NameMap β),
      (fs.foldl (fun m e => m.insert e.1 e.2) m).map f =
        (fs.map fun e => (e.1, f e.2)).foldl (fun m e => m.insert e.1 e.2) (m.map f) := by
    intro fs
    induction fs with
    | nil => exact fun m => rfl
    | cons e fs ih =>
      intro m
      rw [List.foldl_cons, ih, map_insert, List.map_cons, List.foldl_cons]
  exact grow es empty

end ApiDoc.NameMap
