import ApiDoc.Syntax.Fault
import ApiDoc.Syntax.Tree

/-!
# From one vocabulary to another

A tag table says which normalized kind the tag of a grammar stands for: the kind with the same tag,
unless an alias names another. Retagging a tree by a table changes its tags and nothing else.
-/

namespace ApiDoc.Syntax

/-- A table from tags to normalized kinds. -/
structure TagTable where
  /-- The tags that have a counterpart. -/
  entries : List (String × NodeKind)
  /-- The tags that have none. -/
  missing : List String

namespace TagTable

/-- The tag that `tag` stands for: the target of its first alias, or itself. -/
def target (aliases : List (String × String)) (tag : String) : String :=
  match aliases.find? fun a => a.1 = tag with
  | some a => a.2
  | none => tag

/-- The table of a list of tags. -/
def ofTags (tags : List String) (aliases : List (String × String)) : TagTable where
  entries := tags.filterMap fun tag =>
    (Vocabulary.ofTag? (target aliases tag)).map fun kind => (tag, kind)
  missing := tags.filter fun tag =>
    (Vocabulary.ofTag? (target aliases tag) : Option NodeKind).isNone

/-- The table of the Java vocabulary, where constructors have a tag of their own. -/
def java : TagTable :=
  ofTags (JavaKind.all.map JavaKind.tag) [("CTOR_DEF", "CTOR_IDENT")]

/-- The normalized kind of a tag. -/
def lookup? (table : TagTable) (tag : String) : Option NodeKind :=
  (table.entries.find? fun e => e.1 = tag).map Prod.snd

/-- Carry a tree over to the normalized vocabulary. A tag without counterpart is an error at the
root of the tree. -/
def normalize {κ : Type} [Vocabulary κ] (table : TagTable) (t : Tree κ) :
    Except ParseError (Tree NodeKind) :=
  t.retag fun kind =>
    match table.lookup? (Vocabulary.tag kind) with
    | some kind => .ok kind
    | none => .error ⟨t.pos, .noCounterpart (Vocabulary.tag kind)⟩

end TagTable

end ApiDoc.Syntax
