import ApiDoc.Toml.Value

/-!
# Defining tables

A TOML document defines its tables piece by piece. A table remembers how it came about, since that
decides what may be added to it later: no key and no table is defined twice.
-/

namespace ApiDoc.Toml

/-- How a table came about. -/
inductive Origin where
  /-- It has a header of its own. -/
  | header
  /-- A header of a table inside it mentions it. -/
  | mentioned
  /-- A dotted key mentions it. -/
  | dotted
deriving DecidableEq, Repr

/-- What a key stands for while the document is read. -/
inductive Node where
  | value (v : Value)
  | table (origin : Origin) (entries : List (String × Node))
  /-- The tables under one repeated header. Each has its entries; the last one can still grow. -/
  | tables (earlier : List (List (String × Node))) (last : List (String × Node))
deriving Inhabited

/-- The entries of a table. -/
abbrev Entries := List (String × Node)

namespace Entries

/-- What a key stands for. -/
def get? (es : Entries) (key : String) : Option Node :=
  (es.find? fun e => e.1 = key).map Prod.snd

/-- Let a key stand for something, in its place if it is there already. -/
def set (key : String) (node : Node) : Entries → Entries
  | [] => [(key, node)]
  | e :: es => if e.1 = key then (key, node) :: es else e :: set key node es

/-- Change the table at a path. Tables on the way that are not there are created, with the given
origin. A dotted key does not lead through a table that has a header of its own. -/
def onTable (created : Origin) (change : Origin → Entries → Option Entries) :
    Origin → List String → Entries → Option Entries
  | origin, [], es => change origin es
  | _, key :: path, es =>
    match es.get? key with
    | none => do
      let inner ← onTable created change created path []
      return es.set key (.table created inner)
    | some (.value _) => none
    | some (.tables earlier last) => do
      let inner ← onTable created change .header path last
      return es.set key (.tables earlier inner)
    | some (.table origin inner) =>
      if created = .dotted && origin = .header then none
      else do
        let inner ← onTable created change origin path inner
        return es.set key (.table origin inner)

/-- Define a key that stands in the table at a path. A key with a path leads to a table that dotted
keys alone have defined. -/
def define (path : List String) (key : String) (v : Value) (es : Entries) : Option Entries :=
  onTable .dotted
    (fun origin es =>
      if !path.isEmpty && origin ≠ .dotted then none
      else if (es.get? key).isSome then none
      else some (es.set key (.value v)))
    .header path es

/-- Change the table that the header at a path has opened. -/
def inOpened (header : List String) (change : Entries → Option Entries) (es : Entries) :
    Option Entries :=
  onTable .mentioned (fun _ es => change es) .header header es

/-- Open a table by its header. Only a table that other headers mention can be there already. -/
def openTable (path : List String) (key : String) (es : Entries) : Option Entries :=
  onTable .mentioned
    (fun _ es =>
      match es.get? key with
      | none => some (es.set key (.table .header []))
      | some (.table .mentioned inner) => some (es.set key (.table .header inner))
      | some _ => none)
    .header path es

/-- Open one more table under a repeated header. -/
def openItem (path : List String) (key : String) (es : Entries) : Option Entries :=
  onTable .mentioned
    (fun _ es =>
      match es.get? key with
      | none => some (es.set key (.tables [] []))
      | some (.tables earlier last) => some (es.set key (.tables (earlier ++ [last]) []))
      | some _ => none)
    .header path es

end Entries

mutual

/-- The value of a finished key. -/
def Node.toValue : Node → Value
  | .value v => v
  | .table _ entries => .table (valuesOf entries)
  | .tables earlier last => .array (tablesOf earlier ++ [.table (valuesOf last)])

/-- The values of finished entries. -/
def valuesOf : List (String × Node) → List (String × Value)
  | [] => []
  | (key, node) :: es => (key, node.toValue) :: valuesOf es

/-- The values of finished tables. -/
def tablesOf : List (List (String × Node)) → List Value
  | [] => []
  | es :: rest => .table (valuesOf es) :: tablesOf rest

end

end ApiDoc.Toml
