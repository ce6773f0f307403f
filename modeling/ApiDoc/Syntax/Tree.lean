import ApiDoc.Syntax.Kind
import ApiDoc.Text.Position

/-!
# Syntax trees

A tree of declarations. The vocabulary of its nodes is a parameter, so a grammar can build a tree in
its own vocabulary, and `retag` carries the tree over to another one node by node.
-/

namespace ApiDoc.Syntax

open Text (Position)

/-- A syntax tree over the vocabulary `κ`. -/
structure Tree (κ : Type) where
  kind : κ
  /-- A declared name, the spelling of a type, or source text that is left unread. -/
  text : String
  /-- Where the first token of the node stands. -/
  pos : Position
  /-- The doc comment of a declaration. -/
  doc : Option String := none
  children : List (Tree κ) := []
deriving BEq, Repr

namespace Tree

variable {κ μ ε : Type}

/-- A node without children. -/
def leaf (kind : κ) (text : String) (pos : Position) : Tree κ :=
  { kind, text, pos }

/-- The same node with other children. -/
def withChildren (t : Tree κ) (children : List (Tree κ)) : Tree κ :=
  { t with children }

/-! ### Children -/

/-- The first child of a kind. -/
def child? [DecidableEq κ] (t : Tree κ) (kind : κ) : Option (Tree κ) :=
  t.children.find? fun c => c.kind = kind

/-- The children of a kind, in order. -/
def childrenOf [DecidableEq κ] (t : Tree κ) (kind : κ) : List (Tree κ) :=
  t.children.filter fun c => c.kind = kind

/-- Change the first tree of a kind in a list. -/
def modifyFirst [DecidableEq κ] (kind : κ) (f : Tree κ → Tree κ) : List (Tree κ) → List (Tree κ)
  | [] => []
  | t :: ts => if t.kind = kind then f t :: ts else t :: modifyFirst kind f ts

/-! ### All nodes -/

mutual

/-- The nodes of a tree, every node before its children. -/
def preorder : Tree κ → List (Tree κ)
  | ⟨kind, text, pos, doc, children⟩ => ⟨kind, text, pos, doc, children⟩ :: preorderAll children

/-- The nodes of a list of trees, in order. -/
def preorderAll : List (Tree κ) → List (Tree κ)
  | [] => []
  | t :: ts => preorder t ++ preorderAll ts

end

/-- The number of nodes. -/
def count (t : Tree κ) : Nat := t.preorder.length

mutual

/-- Replace every tag of a tree; nothing else changes. The first tag, every node before its
children, that `f` rejects decides the error. -/
def retag (f : κ → Except ε μ) : Tree κ → Except ε (Tree μ)
  | ⟨kind, text, pos, doc, children⟩ => do
    let kind ← f kind
    let children ← retagAll f children
    return ⟨kind, text, pos, doc, children⟩

/-- Replace every tag of a list of trees. -/
def retagAll (f : κ → Except ε μ) : List (Tree κ) → Except ε (List (Tree μ))
  | [] => return []
  | t :: ts => do
    let t ← retag f t
    let ts ← retagAll f ts
    return t :: ts

end

/-! ### Outlines -/

/-- One line of an outline: the tag and the text of a node, behind two spaces for each level. -/
def outlineLine (tag text : String) (depth : Nat) : String :=
  "".pushn ' ' (2 * depth) ++ tag ++ (if text.isEmpty then "" else " " ++ text) ++ "\n"

mutual

/-- The lines of a tree whose root stands at `depth`. -/
def outlineFrom [Vocabulary κ] (depth : Nat) : Tree κ → String
  | ⟨kind, text, _, _, children⟩ =>
    outlineLine (Vocabulary.tag kind) text depth ++ outlineAll (depth + 1) children

/-- The lines of a list of trees at `depth`. -/
def outlineAll [Vocabulary κ] (depth : Nat) : List (Tree κ) → String
  | [] => ""
  | t :: ts => outlineFrom depth t ++ outlineAll depth ts

end

/-- A tree as an indented list of its nodes. -/
def outline [Vocabulary κ] (t : Tree κ) : String := outlineFrom 0 t

end Tree

end ApiDoc.Syntax
