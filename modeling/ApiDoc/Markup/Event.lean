import ApiDoc.Text.Blank
import ApiDoc.Text.Position
import ApiDoc.Text.Segments

/-!
# Markup events

Package descriptions are written in the well-formed part of HTML. The text is read as a sequence of
events:

    text (List Char) ── Event.readFrom ──▶ events (List (Nat × Event)) ── Body.extract ──▶ text

Reading stops at the first place where no event can be read; that is an event of its own.
-/

namespace ApiDoc.Markup

open Text (isBlank byteLength)

/-- A piece of markup. -/
inductive Event where
  /-- A comment, a processing instruction or a declaration. -/
  | ignored
  | startTag (name : List Char) (selfClosing : Bool)
  | endTag (name : List Char)
  /-- Text in which entities stand for characters. -/
  | text (raw : List Char)
  /-- Text that is taken as it is. -/
  | cdata (raw : List Char)
  /-- No event can be read from here on. -/
  | malformed (rest : List Char)
deriving DecidableEq, Repr

namespace Event

/-! ### Tags -/

/-- Is `c` a space, a tab or the end of a line? -/
def isSpace (c : Char) : Bool := c = ' ' || c = '\t' || c = '\r' || c = '\n'

/-- Can `c` stand in a name behind its first letter? -/
def isNamePart (c : Char) : Bool := c.isAlphanum || c = '-' || c = '_' || c = ':' || c = '.'

/-- Read a name: an ASCII letter, then letters, digits and a few signs. -/
def name? : List Char → Option (List Char × List Char)
  | [] => none
  | c :: cs =>
    if c.isAlpha then some (c :: cs.takeWhile isNamePart, cs.dropWhile isNamePart) else none

/-- What stands behind the next `quote`. -/
def pastQuote? (quote : Char) (cs : List Char) : Option (List Char) :=
  match cs.dropWhile (· ≠ quote) with
  | [] => none
  | _ :: rest => some rest

/-- What stands behind a bare attribute value, which ends at a blank or at `>`. -/
def pastBareValue? (cs : List Char) : Option (List Char) :=
  let rest := cs.dropWhile fun c => !isBlank c && c ≠ '>'
  if rest.length < cs.length then some rest else none

/-- What stands behind an attribute value. Where a quote is not closed, the value is bare. -/
def pastValue? (cs : List Char) : Option (List Char) :=
  match cs with
  | [] => none
  | c :: rest =>
    if c = '"' || c = '\'' then (pastQuote? c rest).or (pastBareValue? cs)
    else pastBareValue? cs

/-- What stands behind an equals sign and an attribute value, between optional spaces. -/
def pastAssignment? (cs : List Char) : Option (List Char) :=
  match cs.dropWhile isSpace with
  | '=' :: rest => pastValue? (rest.dropWhile isSpace)
  | _ => none

/-- What stands behind an attribute: blanks, a name, and perhaps a value. -/
def pastAttribute? (cs : List Char) : Option (List Char) :=
  match cs with
  | [] => none
  | c :: rest =>
    if isBlank c then
      match name? (rest.dropWhile isBlank) with
      | none => none
      | some (_, rest) => some ((pastAssignment? rest).getD rest)
    else none

/-- What stands behind all attributes. -/
def pastAttributes (cs : List Char) : List Char :=
  match pastAttribute? cs with
  | none => cs
  | some rest => if rest.length < cs.length then pastAttributes rest else cs
termination_by cs.length

/-- Read the rest of a start tag behind its name: whether it closes itself, and what follows. -/
def tagEnd? (cs : List Char) : Option (Bool × List Char) :=
  match (pastAttributes cs).dropWhile isSpace with
  | '/' :: '>' :: rest => some (true, rest)
  | '>' :: rest => some (false, rest)
  | _ => none

/-- Read a start tag behind its `<`. -/
def startTag? (cs : List Char) : Option (Event × List Char) := do
  let (name, rest) ← name? cs
  let (selfClosing, rest) ← tagEnd? rest
  return (.startTag name selfClosing, rest)

/-- Read an end tag behind its `</`. -/
def endTag? (cs : List Char) : Option (Event × List Char) := do
  let (name, rest) ← name? cs
  match rest.dropWhile isSpace with
  | '>' :: rest => some (.endTag name, rest)
  | _ => none

/-! ### Other events -/

/-- Read a section of raw text. -/
def cdata? (cs : List Char) : Option (Event × List Char) := do
  let rest ← Text.afterStart? "<![CDATA[".toList cs
  let (raw, rest) ← Text.cutAt? "]]>".toList rest
  return (.cdata raw, rest)

/-- Read what stands between two marks. -/
def delimited? (start finish cs : List Char) : Option (Event × List Char) := do
  let rest ← Text.afterStart? start cs
  let (_, rest) ← Text.cutAt? finish rest
  return (.ignored, rest)

/-- Read a comment, a processing instruction or a declaration. A comment that is not closed is read
as a declaration, if it can be. -/
def ignored? (cs : List Char) : Option (Event × List Char) :=
  (delimited? "<!--".toList "-->".toList cs).or
    ((delimited? "<?".toList "?>".toList cs).or (delimited? "<!".toList ">".toList cs))

/-- Read a tag. -/
def tag? (cs : List Char) : Option (Event × List Char) :=
  match cs with
  | '<' :: '/' :: rest => endTag? rest
  | '<' :: rest => startTag? rest
  | _ => none

/-- The event that starts with `c` and goes on in `cs`, and what follows it. -/
def first (c : Char) (cs : List Char) : Event × List Char :=
  if c ≠ '<' then (.text (c :: cs.takeWhile (· ≠ '<')), cs.dropWhile (· ≠ '<'))
  else
    ((cdata? (c :: cs)).or ((ignored? (c :: cs)).or (tag? (c :: cs)))).getD
      (.malformed (c :: cs), [])

/-- The events of a text that starts at byte `offset`, each with its offset. -/
def readFrom (offset : Nat) (cs : List Char) : List (Nat × Event) :=
  match cs with
  | [] => []
  | c :: tail =>
    let (event, rest) := first c tail
    let used := cs.length - rest.length
    (offset, event) :: readFrom (offset + byteLength (cs.take used)) (tail.drop (used - 1))
termination_by cs.length

/-- The events of a text. -/
def read (cs : List Char) : List (Nat × Event) := readFrom 0 cs

end Event

end ApiDoc.Markup
