/-!
# Cutting text

Cutting a text at every occurrence of a character, and taking known ends off it.
-/

namespace ApiDoc.Text

/-- The pieces of a text between the occurrences of `sep`; there is always at least one. -/
def segments (sep : Char) : List Char → List (List Char)
  | [] => [[]]
  | c :: cs =>
    if c = sep then [] :: segments sep cs
    else
      match segments sep cs with
      | [] => [[c]]
      | s :: ss => (c :: s) :: ss

/-- The text behind `start`, if the text starts with it. -/
def afterStart? (start cs : List Char) : Option (List Char) :=
  if start.isPrefixOf cs then some (cs.drop start.length) else none

/-- The text before `finish`, if the text ends with it. -/
def beforeEnd? (finish cs : List Char) : Option (List Char) :=
  if finish.isSuffixOf cs then some (cs.take (cs.length - finish.length)) else none

/-- What stands before and behind the first occurrence of `mark`. -/
def cutAt? (mark : List Char) : List Char → Option (List Char × List Char)
  | [] => if mark.isEmpty then some ([], []) else none
  | c :: cs =>
    if mark.isPrefixOf (c :: cs) then some ([], (c :: cs).drop mark.length)
    else (cutAt? mark cs).map fun (before, behind) => (c :: before, behind)

end ApiDoc.Text
