import ApiDoc.Toml.Moment

/-!
# TOML values

The values of a TOML document. Numbers are kept as they are spelled, since nothing computes with
them.
-/

namespace ApiDoc.Toml

/-- A value. -/
inductive Value where
  | str (s : String)
  | bool (b : Bool)
  /-- An integer or a float. -/
  | number (spelling : List Char)
  | moment (m : Moment)
  | array (items : List Value)
  | table (entries : List (String × Value))
deriving Inhabited

namespace Value

/-- The value that a bare word spells. -/
def ofWord? (cs : List Char) : Option Value :=
  if cs = ['t', 'r', 'u', 'e'] then some (.bool true)
  else if cs = ['f', 'a', 'l', 's', 'e'] then some (.bool false)
  else if isInteger cs || isFloat cs then some (.number cs)
  else (Moment.ofChars? cs).map .moment

/-- The key of the one entry of a moment. -/
def momentKey : String := "$__toml_private_datetime"

/-- The entries of a value that reads as a table: a table, or a moment, which has its text as its
one entry. -/
def entries? : Value → Option (List (String × Value))
  | .table entries => some entries
  | .moment m => some [(momentKey, .str (String.ofList m.render))]
  | _ => none

end Value

end ApiDoc.Toml
