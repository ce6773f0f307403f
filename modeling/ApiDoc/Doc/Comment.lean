import ApiDoc.Text.Blank
import ApiDoc.Text.Segments

/-!
# Doc comments

A doc comment holds a description and, behind it, block tags: lines that start with `@`, each with
the lines that follow it. The stars at the start of the lines are decoration.
-/

namespace ApiDoc

open Text (isBlank trim cutStart cutEnd collapse segments)

/-- A block tag. -/
structure DocTag where
  name : String
  /-- The parameter or exception that the tag is about. -/
  argument : Option String
  text : String
deriving DecidableEq, Repr

/-- What a doc comment says. -/
structure DocComment where
  description : String := ""
  /-- The first sentence of the description, on one line. -/
  firstSentence : String := ""
  tags : List DocTag := []
deriving DecidableEq, Repr, Inhabited

namespace DocComment

/-! ### Lines -/

/-- The comment without the marks that open and close it. -/
def inside (raw : List Char) : List Char :=
  let raw := trim raw
  let raw := (Text.afterStart? ['/', '*', '*'] raw).getD raw
  (Text.beforeEnd? ['*', '/'] raw).getD raw

/-- A line without its margin: the blanks before it, one star and one space behind the star. -/
def withoutMargin (line : List Char) : List Char :=
  let line := cutStart isBlank line
  let line := (Text.afterStart? ['*'] line).getD line
  let line := (Text.afterStart? [' '] line).getD line
  cutEnd isBlank line

/-- Does a line start a block tag? -/
def startsTag (line : List Char) : Bool := line.head? = some '@'

/-- The lines of each block tag, the line that starts it first. -/
def tagBlocks : List (List Char) → List (List (List Char))
  | [] => []
  | line :: lines =>
    (line :: lines.takeWhile fun l => !startsTag l)
      :: tagBlocks (lines.dropWhile fun l => !startsTag l)
termination_by lines => lines.length
decreasing_by
  have := (List.dropWhile_suffix (l := lines) fun l => !startsTag l).length_le
  simp only [List.length_cons]
  omega

/-- Lines as one text. -/
def joinLines (lines : List (List Char)) : List Char := ['\n'].intercalate lines

/-! ### Block tags -/

/-- The tags whose first word is an argument. -/
def tagsWithArgument : List String := ["param", "throws", "exception"]

/-- A text up to its first blank, and the rest. -/
def splitWord (cs : List Char) : List Char × List Char :=
  (cs.takeWhile fun c => !isBlank c, cs.dropWhile fun c => !isBlank c)

/-- The tag of a given name and text. -/
def makeTag (name : String) (text : List Char) : DocTag :=
  if tagsWithArgument.contains name then
    let (argument, rest) := splitWord text
    { name, argument := if argument.isEmpty then none else some (String.ofList argument),
      text := String.ofList (trim rest) }
  else { name, argument := none, text := String.ofList text }

/-- The tag that a block of lines makes. -/
def tagOfBlock : List (List Char) → DocTag
  | [] => makeTag "" []
  | line :: lines =>
    let (name, text) := splitWord line.tail
    makeTag (String.ofList name)
      (trim (joinLines (cutStart isBlank text :: lines.map (cutStart isBlank))))

/-! ### Sentences -/

/-- The text up to and with the first period that a blank or the end follows; all of it, if there
is none. -/
def sentence : List Char → List Char
  | [] => []
  | c :: cs => if c = '.' && cs.head?.all isBlank then [c] else c :: sentence cs

/-! ### Reading -/

/-- Read a doc comment, with or without the marks that open and close it. -/
def parse (raw : String) : DocComment :=
  let lines := (segments '\n' (inside raw.toList)).map withoutMargin
  let description := trim (joinLines (lines.takeWhile fun l => !startsTag l))
  { description := String.ofList description
    firstSentence := String.ofList (collapse (sentence description))
    tags := (tagBlocks (lines.dropWhile fun l => !startsTag l)).map tagOfBlock }

/-! ### Asking -/

/-- Does the comment say nothing? -/
def isEmpty (c : DocComment) : Bool := c.description.isEmpty && c.tags.isEmpty

/-- The texts of the tags of a name. -/
def tagTexts (c : DocComment) (name : String) : List String :=
  (c.tags.filter fun t => t.name = name).map DocTag.text

/-- What the comment says about a parameter. -/
def param? (c : DocComment) (param : String) : Option String :=
  (c.tags.find? fun t => t.name = "param" && t.argument = some param).map DocTag.text

/-- Does the comment mark its declaration as deprecated? -/
def isDeprecated (c : DocComment) : Bool := c.tags.any fun t => t.name = "deprecated"

end DocComment

end ApiDoc
