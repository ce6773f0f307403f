import ApiDoc.Markup.Entity
import ApiDoc.Markup.Event
import ApiDoc.Text.Quoted

/-!
# Package descriptions

A package is described by the text of the first `body` element of a file. Elements have to be closed
innermost first, but for the void ones, which have no content. Where a block-level element starts or
ends, words are apart.
-/

namespace ApiDoc.Markup

open Text (Position LineIndex)

/-- The elements without content, which need no end tag. -/
def voidElements : List String :=
  ["area", "base", "br", "col", "embed", "hr", "img", "input", "link", "meta", "param", "source",
   "track", "wbr"]

/-- The elements that separate words. -/
def blockElements : List String :=
  ["address", "blockquote", "br", "dd", "div", "dl", "dt", "h1", "h2", "h3", "h4", "h5", "h6",
   "hr", "li", "ol", "p", "pre", "table", "td", "th", "tr", "ul"]

/-! ### Errors -/

/-- What can be wrong with a description. -/
inductive MarkupError where
  /-- A comment has no end. -/
  | unterminatedComment (pos : Position)
  /-- A tag cannot be read. -/
  | malformedTag (pos : Position) (snippet : String)
  /-- An end tag closes nothing. -/
  | strayEndTag (pos : Position) (name : String)
  /-- An end tag does not close the innermost open element. -/
  | mismatchedTag (pos : Position) (expected found : String)
  /-- An element is never closed. -/
  | unclosed (name : String) (pos : Position)
  | missingBody
deriving DecidableEq, Repr

/-- The wording of an error. -/
def MarkupError.message : MarkupError → String
  | .unterminatedComment pos => "malformed markup at " ++ pos.render ++ ": unterminated comment"
  | .malformedTag pos snippet =>
    "malformed markup at " ++ pos.render ++ ": malformed tag near " ++ Text.quoted snippet
  | .strayEndTag pos name =>
    "malformed markup at " ++ pos.render ++ ": closing tag </" ++ name
      ++ "> without an open element"
  | .mismatchedTag pos expected found =>
    "mismatched tag at " ++ pos.render ++ ": expected </" ++ expected ++ ">, found </" ++ found
      ++ ">"
  | .unclosed name pos => "unclosed <" ++ name ++ "> opened at " ++ pos.render
  | .missingBody => "no <body> element"

/-- The error of meeting text that is no markup. -/
def malformedError (pos : Position) (rest : List Char) : MarkupError :=
  if "<!--".toList.isPrefixOf rest then .unterminatedComment pos
  else .malformedTag pos (String.ofList (rest.take 20))

namespace Body

/-! ### Events, one after the other -/

/-- An element that is not closed yet. -/
structure OpenElement where
  name : String
  pos : Position
deriving DecidableEq, Repr

/-- What is known after some events. -/
structure State where
  /-- The open elements, innermost first. -/
  elements : List OpenElement := []
  /-- Inside the body, the number of elements around it. -/
  bodyDepth : Option Nat := none
  seenBody : Bool := false
  text : List Char := []
deriving DecidableEq, Repr

/-- Names of elements do not depend on case. -/
def elementName (name : List Char) : String := String.ofList (name.map Char.toLower)

/-- Is the body open? -/
def State.inBody (s : State) : Bool := s.bodyDepth.isSome

/-- Append to the text if the body is open. -/
def State.append (s : State) (cs : List Char) : State :=
  if s.inBody then { s with text := s.text ++ cs } else s

/-- Set words apart at a block-level element. -/
def State.separate (s : State) (name : String) : State :=
  if blockElements.contains name then s.append [' '] else s

/-- Open an element. The first `body` is the one whose text counts. -/
def State.openElement (s : State) (name : String) (pos : Position) : State :=
  let s :=
    if name = "body" && !s.seenBody then
      { s with bodyDepth := some s.elements.length, seenBody := true }
    else s
  { s with elements := ⟨name, pos⟩ :: s.elements }

/-- Close the innermost element, which has to have the given name. -/
def State.closeElement (s : State) (name : String) (pos : Position) : Except MarkupError State :=
  match s.elements with
  | [] => .error (.strayEndTag pos name)
  | e :: outer =>
    if e.name ≠ name then .error (.mismatchedTag pos e.name name)
    else
      let s := { s with elements := outer }
      if s.bodyDepth = some outer.length then .ok { s with bodyDepth := none }
      else .ok (s.separate name)

/-- Take in one event. -/
def State.step (s : State) (pos : Position) : Event → Except MarkupError State
  | .ignored => .ok s
  | .startTag name selfClosing =>
    let name := elementName name
    let s := s.separate name
    if selfClosing || voidElements.contains name then .ok s else .ok (s.openElement name pos)
  | .endTag name =>
    let name := elementName name
    if voidElements.contains name then .ok s else s.closeElement name pos
  | .text raw => .ok (s.append (Entity.decodeAll raw))
  | .cdata raw => .ok (s.append raw)
  | .malformed rest => .error (malformedError pos rest)

/-- The text of the body, once all events are in. -/
def State.finish (s : State) : Except MarkupError String :=
  match s.elements with
  | e :: _ => .error (.unclosed e.name e.pos)
  | [] =>
    if s.seenBody then .ok (String.ofList (Text.collapse s.text)) else .error .missingBody

/-- The text of the first `body` element of a description, with its blanks collapsed. -/
def extract (source : String) : Except MarkupError String := do
  let chars := source.toList
  let index := LineIndex.ofSource chars
  let state ← (Event.read chars).foldlM
    (fun s (e : Nat × Event) => s.step (index.position e.1) e.2) ({} : State)
  state.finish

end Body

end ApiDoc.Markup
