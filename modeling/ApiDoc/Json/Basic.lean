/-!
# JSON values

The values that reports are written in. Objects keep the order of their fields, since that is the
order in which they are printed.
-/

namespace ApiDoc

/-- A JSON value; the only numbers are natural numbers. -/
inductive Json where
  | null
  | bool (b : Bool)
  | nat (n : Nat)
  | str (s : String)
  | arr (items : List Json)
  | obj (fields : List (String × Json))
deriving Repr, Inhabited

namespace Json

/-- A list of strings. -/
def strings (ss : List String) : Json := .arr (ss.map .str)

/-- The field of an optional value, which is left out if there is none. -/
def optional {α : Type} (name : String) (f : α → Json) : Option α → List (String × Json)
  | none => []
  | some a => [(name, f a)]

end Json

end ApiDoc
