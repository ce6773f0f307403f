/-!
# Maps from names

A map from names to values, kept as a list of entries in increasing order of their names. The order
is part of the type, so two maps with the same entries are equal, and listing a map gives each name
once, in order.
-/

namespace ApiDoc

/-- A map from names to values of type `β`. -/
structure NameMap (β : Type) where
  entries : List (String × β)
  /-- The names strictly increase. -/
  sorted : entries.Pairwise fun a b => a.1 < b.1 := by simp
deriving DecidableEq

namespace NameMap

variable {β γ : Type}

/-! ### Insertion into a sorted list -/

/-- Put an entry into a list of entries, in place of the one of the same name if there is one. -/
def insertEntry (name : String) (value : β) : List (String × β) → List (String × β)
  | [] => [(name, value)]
  | e :: es =>
    if name < e.1 then (name, value) :: e :: es
    else if name = e.1 then (name, value) :: es
    else e :: insertEntry name value es

/-- Every entry after an insertion is the new one or an old one. -/
theorem mem_of_mem_insertEntry {name : String} {value : β} :
    ∀ {es : List (String × β)} {x : String × β}, x ∈ insertEntry name value es →
      x = (name, value) ∨ x ∈ es
  | [], x, h => by simpa [insertEntry] using h
  | e :: es, x, h => by
    unfold insertEntry at h
    split at h
    · simpa using h
    · split at h
      · rcases List.mem_cons.1 h with h | h
        · exact .inl h
        · exact .inr (List.mem_cons_of_mem _ h)
      · rcases List.mem_cons.1 h with h | h
        · exact .inr (h ▸ List.mem_cons_self)
        · exact (mem_of_mem_insertEntry h).imp_right (List.mem_cons_of_mem _)

/-- Of two different names one comes first. -/
theorem lt_of_not_lt_of_ne {a b : String} (h : ¬a < b) (hne : ¬a = b) : b < a := by
  rcases String.le_total a b with hab | hba
  · exact absurd (String.le_antisymm hab (String.not_lt.1 h)) hne
  · exact Decidable.byContradiction fun hn =>
      hne (String.le_antisymm (String.not_lt.1 hn) hba)

/-- Insertion keeps the names in order. -/
theorem sorted_insertEntry {name : String} {value : β} :
    ∀ {es : List (String × β)}, es.Pairwise (fun a b => a.1 < b.1) →
      (insertEntry name value es).Pairwise fun a b => a.1 < b.1
  | [], _ => by simp [insertEntry]
  | e :: es, h => by
    have ⟨he, hes⟩ := List.pairwise_cons.1 h
    unfold insertEntry
    split
    · next hlt =>
      refine List.pairwise_cons.2 ⟨fun x hx => ?_, h⟩
      rcases List.mem_cons.1 hx with rfl | hx
      · exact hlt
      · exact String.lt_trans hlt (he x hx)
    · next hnlt =>
      split
      · next heq => exact List.pairwise_cons.2 ⟨fun x hx => heq ▸ he x hx, hes⟩
      · next hne =>
        refine List.pairwise_cons.2 ⟨fun x hx => ?_, sorted_insertEntry hes⟩
        rcases mem_of_mem_insertEntry hx with rfl | hx
        · exact lt_of_not_lt_of_ne hnlt hne
        · exact he x hx

/-! ### Operations -/

/-- The map without entries. -/
def empty : NameMap β where
  entries := []

instance : EmptyCollection (NameMap β) := ⟨empty⟩

instance : Inhabited (NameMap β) := ⟨empty⟩

/-- The value of a name. -/
def get? (m : NameMap β) (name : String) : Option β :=
  (m.entries.find? fun e => e.1 = name).map Prod.snd

/-- Is there a value for the name? -/
def contains (m : NameMap β) (name : String) : Bool := (m.get? name).isSome

/-- Set the value of a name. -/
def insert (m : NameMap β) (name : String) (value : β) : NameMap β where
  entries := insertEntry name value m.entries
  sorted := sorted_insertEntry m.sorted

/-- Remove a name. -/
def erase (m : NameMap β) (name : String) : NameMap β where
  entries := m.entries.filter fun e => e.1 ≠ name
  sorted := m.sorted.filter _

/-- Apply a function to the value of every name. -/
def map (f : β → γ) (m : NameMap β) : NameMap γ where
  entries := m.entries.map fun e => (e.1, f e.2)
  sorted := List.pairwise_map.2 m.sorted

/-- The map of a list of entries; of two entries of one name the later counts. -/
def ofList (es : List (String × β)) : NameMap β :=
  es.foldl (fun m e => m.insert e.1 e.2) empty

/-- The names, in increasing order. -/
def names (m : NameMap β) : List String := m.entries.map Prod.fst

/-- The values, in the order of their names. -/
def values (m : NameMap β) : List β := m.entries.map Prod.snd

/-- The number of names. -/
def size (m : NameMap β) : Nat := m.entries.length

end NameMap

end ApiDoc
