import ApiDoc.Data.BinarySearch

/-!
# Positions in a source text

A position is a line and a column, both counted from one; a column counts characters. Reading from
the start of a text, `Position.past` keeps count. `LineIndex` finds the position of a byte offset:
where the lines start is found once, and a look-up counts the characters of one line only.
-/

namespace ApiDoc.Text

/-- A line and a column. -/
structure Position where
  line : Nat := 0
  column : Nat := 0
deriving DecidableEq, Repr, Inhabited

/-- Where a text starts. -/
def Position.start : Position := ⟨1, 1⟩

/-- `line:column`. -/
def Position.render (p : Position) : String :=
  p.line.repr ++ ":" ++ p.column.repr

/-- The position behind a character that stands at `p`. -/
def Position.next (p : Position) (c : Char) : Position :=
  if c = '\n' then ⟨p.line + 1, 1⟩ else ⟨p.line, p.column + 1⟩

/-- The position behind a text that starts at `p`. -/
def Position.past (p : Position) (cs : List Char) : Position :=
  cs.foldl Position.next p

/-- The number of bytes of a text in UTF-8. -/
def byteLength : List Char → Nat
  | [] => 0
  | c :: cs => c.utf8Size + byteLength cs

/-- The text behind its first `n` bytes, if they are whole characters. -/
def dropBytes? : (n : Nat) → List Char → Option (List Char)
  | 0, cs => some cs
  | _ + 1, [] => none
  | n + 1, c :: cs =>
    if c.utf8Size ≤ n + 1 then dropBytes? (n + 1 - c.utf8Size) cs else none

/-- The first `n` bytes of a text, if they are whole characters. -/
def takeBytes? : (n : Nat) → List Char → Option (List Char)
  | 0, _ => some []
  | _ + 1, [] => none
  | n + 1, c :: cs =>
    if c.utf8Size ≤ n + 1 then (takeBytes? (n + 1 - c.utf8Size) cs).map (c :: ·) else none

/-- The bytes of a text from `i` up to `j`, if they are whole characters. -/
def slice? (cs : List Char) (i j : Nat) : Option (List Char) :=
  if i ≤ j then (dropBytes? i cs).bind (takeBytes? (j - i)) else none

/-! ### Lines -/

/-- The byte offsets behind the line feeds of `cs`, which starts at byte `offset`. -/
def startsFrom (offset : Nat) : List Char → List Nat
  | [] => []
  | c :: cs =>
    if c = '\n' then (offset + 1) :: startsFrom (offset + 1) cs
    else startsFrom (offset + c.utf8Size) cs

/-- Lines start further on. -/
theorem lt_of_mem_startsFrom {offset start : Nat} {cs : List Char}
    (h : start ∈ startsFrom offset cs) : offset < start := by
  induction cs generalizing offset with
  | nil => cases h
  | cons c cs ih =>
    unfold startsFrom at h
    split at h
    · rcases List.mem_cons.mp h with rfl | h
      · exact Nat.lt_succ_self offset
      · exact Nat.lt_of_succ_lt (ih h)
    · exact Nat.lt_of_le_of_lt (Nat.le_add_right offset _) (ih h)

theorem sorted_startsFrom (offset : Nat) (cs : List Char) :
    (startsFrom offset cs).Pairwise (· < ·) := by
  induction cs generalizing offset with
  | nil => exact .nil
  | cons c cs ih =>
    unfold startsFrom
    split
    · exact .cons (fun _ h => lt_of_mem_startsFrom h) (ih _)
    · exact ih _

/-- A source text and where its lines start. Every line feed starts a new line, so there is at least
one. -/
structure LineIndex where
  source : List Char
  starts : SortedTable
  starts_eq : starts.entries.toList = 0 :: startsFrom 0 source
deriving Repr

/-- The index of a source text. -/
def LineIndex.ofSource (cs : List Char) : LineIndex where
  source := cs
  starts := ⟨(0 :: startsFrom 0 cs).toArray, .cons (fun _ h => lt_of_mem_startsFrom h)
    (sorted_startsFrom 0 cs)⟩
  starts_eq := rfl

/-- The position of a byte offset: the last line that starts at or before it, and the characters of
that line before it. There is none if the text between the two cannot be cut out. -/
def LineIndex.position? (index : LineIndex) (offset : Nat) : Option Position := do
  let line ← (index.starts.search offset).last?
  let start ← index.starts.entries[line]?
  let before ← slice? index.source start offset
  return ⟨line + 1, before.length + 1⟩

/-- The position of a byte offset where characters end. Any other offset counts as the start. -/
def LineIndex.position (index : LineIndex) (offset : Nat) : Position :=
  (index.position? offset).getD .start

end ApiDoc.Text
