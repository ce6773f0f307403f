import ApiDoc.Markup.Body
import ApiDoc.Proofs.Markup.Grammar

/-!
# Documents

A description, as its author thinks of it, is a forest of nodes. Writing it down (`renderAll`) gives
the text that is read as events; here each piece that is written is read back as one event:

    reads_startTag, reads_endTag, reads_comment, reads_rawText

The text content of nodes (`contentAll`) and the first body among them (`bodyIn?`) are defined on
the forest, without events.
-/

namespace ApiDoc.Markup

open Text (isBlank)

/-! ## Nodes -/

namespace Name

/-- The element of that name. Case does not matter. -/
def element (name : Name) : String := Body.elementName name.chars

def isVoid (name : Name) : Bool := voidElements.contains name.element

/-- What the start or the end of the element adds to the text: block-level elements set words
apart. -/
def gap (name : Name) : List Char := if blockElements.contains name.element then [' '] else []

end Name

/-- An attribute, whose value is written between double quotes. -/
structure Attribute where
  name : Name
  value : List Char
  unquoted : '"' ∉ value

/-- An attribute with the blanks in front of it and the spaces around its equals sign. -/
structure SpacedAttribute extends Attribute where
  gap : List Char
  gap_ne_nil : gap ≠ []
  isBlank_gap : ∀ c ∈ gap, isBlank c = true
  before : List Char
  isSpace_before : ∀ c ∈ before, Event.isSpace c = true
  behind : List Char
  isSpace_behind : ∀ c ∈ behind, Event.isSpace c = true

/-- A piece of a document. -/
inductive Node where
  | element (name : Name) (hasContent : name.isVoid = false) (attributes : List Attribute)
      (children : List Node)
  /-- An element without content; it may be written as one that closes itself. -/
  | void (name : Name) (isVoid : name.isVoid = true) (attributes : List Attribute)
      (selfClosing : Bool)
  | text (chars : List Char)
  | comment (chars : List Char) (unclosed : ¬ "-->".toList <:+: chars)
  | cdata (chars : List Char) (unclosed : ¬ "]]>".toList <:+: chars)

/-! ### Writing -/

/-- Text cannot hold the characters that start entities and tags. -/
def escapeChar (c : Char) : List Char :=
  if c = '&' then "&amp;".toList else if c = '<' then "&lt;".toList else [c]

def escape (cs : List Char) : List Char := cs.flatMap escapeChar

def Attribute.render (a : Attribute) : List Char :=
  ' ' :: a.name.chars ++ '=' :: '"' :: a.value ++ ['"']

def SpacedAttribute.render (a : SpacedAttribute) : List Char :=
  a.gap ++ (a.name.chars ++ (a.before ++ '=' :: (a.behind ++ '"' :: (a.value ++ ['"']))))

/-- An attribute behind one space. -/
def Attribute.spaced (a : Attribute) : SpacedAttribute :=
  { a with
    gap := [' '], gap_ne_nil := by simp, isBlank_gap := List.all_eq_true.mp (by decide)
    before := [], isSpace_before := by simp
    behind := [], isSpace_behind := by simp }

theorem Attribute.render_spaced (a : Attribute) : a.spaced.render = a.render := by
  simp [SpacedAttribute.render, Attribute.render, Attribute.spaced]

/-- A start tag. -/
def startTag (name : Name) (attributes : List Attribute) (selfClosing : Bool) : List Char :=
  '<' :: name.chars ++ attributes.flatMap Attribute.render ++ closing selfClosing

def endTag (name : Name) : List Char := '<' :: '/' :: name.chars ++ ['>']

def comment (chars : List Char) : List Char := "<!--".toList ++ chars ++ "-->".toList

/-- A section of raw text. -/
def rawText (chars : List Char) : List Char := "<![CDATA[".toList ++ chars ++ "]]>".toList

mutual

def Node.render : Node → List Char
  | .element name _ attributes children =>
    startTag name attributes false ++ renderAll children ++ endTag name
  | .void name _ attributes selfClosing => startTag name attributes selfClosing
  | .text chars => escape chars
  | .comment chars _ => comment chars
  | .cdata chars _ => rawText chars

def renderAll : List Node → List Char
  | [] => []
  | node :: nodes => node.render ++ renderAll nodes

end

/-! ### Content -/

mutual

/-- The text of a node, in document order. -/
def Node.content : Node → List Char
  | .element name _ _ children => name.gap ++ contentAll children ++ name.gap
  | .void name _ _ _ => name.gap
  | .text chars => chars
  | .comment _ _ => []
  | .cdata chars _ => chars

def contentAll : List Node → List Char
  | [] => []
  | node :: nodes => node.content ++ contentAll nodes

end

mutual

/-- What the first `body` element of a node holds. -/
def Node.body? : Node → Option (List Node)
  | .element name _ _ children => if name.element = "body" then some children else bodyIn? children
  | .void _ _ _ _ | .text _ | .comment _ _ | .cdata _ _ => none

/-- What the first `body` element of a forest holds. -/
def bodyIn? : List Node → Option (List Node)
  | [] => none
  | node :: nodes => node.body?.or (bodyIn? nodes)

end

/-! ## Reading what is written -/

open Event (Reads AreAttributes IsValue)

theorem areAttributes_render (attributes : List SpacedAttribute) (rest : List Char) :
    AreAttributes (attributes.flatMap SpacedAttribute.render) rest := by
  induction attributes with
  | nil => exact .nil rest
  | cons a attributes ih =>
    have hvalue : IsValue ('"' :: (a.value ++ ['"']))
        (attributes.flatMap SpacedAttribute.render ++ rest) := .quoted (.inl rfl) a.unquoted
    exact .cons (.valued a.name a.gap_ne_nil a.isBlank_gap
      (.intro a.isSpace_before a.isSpace_behind hvalue)) ih

theorem reads_startTag (name : Name) (attributes : List Attribute) (selfClosing : Bool)
    (rest : List Char) :
    Reads (startTag name attributes selfClosing) (.startTag name.chars selfClosing) rest := by
  have hspaced : attributes.flatMap Attribute.render =
      (attributes.map Attribute.spaced).flatMap SpacedAttribute.render := by
    simp only [List.flatMap_map, Attribute.render_spaced]
  have htag : startTag name attributes selfClosing = '<' :: (name.chars ++
      ((attributes.map Attribute.spaced).flatMap SpacedAttribute.render ++
        ([] ++ closing selfClosing))) := by
    simp [startTag, hspaced]
  rw [htag]
  exact .startTag name (areAttributes_render _ _) nofun

theorem reads_endTag (name : Name) (rest : List Char) :
    Reads (endTag name) (.endTag name.chars) rest :=
  @Reads.endTag name [] rest nofun

theorem reads_comment {chars : List Char} (h : ¬ "-->".toList <:+: chars) (rest : List Char) :
    Reads (comment chars) .ignored rest := by
  have hwritten : comment chars =
      Enclosure.comment.start ++ (chars ++ Enclosure.comment.finish) := List.append_assoc _ _ _
  rw [hwritten]
  exact .enclosed .comment h

theorem reads_rawText {chars : List Char} (h : ¬ "]]>".toList <:+: chars) (rest : List Char) :
    Reads (rawText chars) (.cdata chars) rest := by
  have hwritten : rawText chars =
      Enclosure.rawText.start ++ (chars ++ Enclosure.rawText.finish) := List.append_assoc _ _ _
  rw [hwritten]
  exact .enclosed .rawText h

end ApiDoc.Markup
