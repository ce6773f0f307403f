/-!
# Looking up by halving

An array whose entries are in order is searched by halving the part where an entry can be. What is
looked for is given by a rank: it says of each entry whether it comes too early (`lt`), is the right
one (`eq`) or comes too late (`gt`). The search ends at an entry, or at the place between two
entries where one is missing.

Two look-ups are searches of this kind: that of a number in a table of increasing numbers
(`SortedTable`), and that of the point up to which the entries satisfy a predicate
(`partitionPoint`).
-/

namespace ApiDoc

namespace BinarySearch

variable {α : Type}

/-- Where a search ends. -/
inductive Place where
  /-- At entry `i`. -/
  | found (i : Nat)
  /-- Before entry `i`, where one could be put in. -/
  | missing (i : Nat)
deriving DecidableEq, Repr

/-- The number of entries before the place. -/
def Place.index : Place → Nat
  | .found i => i
  | .missing i => i

/-- The last entry that does not come too late. -/
def Place.last? : Place → Option Nat
  | .found i => some i
  | .missing 0 => none
  | .missing (i + 1) => some i

/-- Search the entries from `low` up to `high`. -/
def searchBetween (entries : Array α) (rank : α → Ordering) (low high : Nat)
    (hhigh : high ≤ entries.size) : Place :=
  if hlow : low < high then
    have hmiddle : (low + high) / 2 < entries.size := by omega
    match rank entries[(low + high) / 2] with
    | .eq => .found ((low + high) / 2)
    | .lt => searchBetween entries rank ((low + high) / 2 + 1) high hhigh
    | .gt => searchBetween entries rank low ((low + high) / 2) (Nat.le_of_lt hmiddle)
  else .missing low
termination_by high - low

/-- Search all entries. -/
def search (entries : Array α) (rank : α → Ordering) : Place :=
  searchBetween entries rank 0 entries.size (Nat.le_refl _)

/-- The number of entries that satisfy `p`, if they all come before those that do not. -/
def partitionPoint (entries : Array α) (p : α → Bool) : Nat :=
  (search entries fun a => if p a then .lt else .gt).index

end BinarySearch

/-- Numbers in increasing order. -/
structure SortedTable where
  entries : Array Nat
  /-- The entries strictly increase. -/
  sorted : entries.toList.Pairwise (· < ·)
deriving Repr

/-- Look a number up. -/
def SortedTable.search (table : SortedTable) (n : Nat) : BinarySearch.Place :=
  BinarySearch.search table.entries (compare · n)

end ApiDoc
