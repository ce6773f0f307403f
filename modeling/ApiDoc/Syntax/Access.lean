import ApiDoc.Syntax.Fault
import ApiDoc.Syntax.Tree

/-!
# Access the Groovy way

A declaration without an access modifier is private to its package in Java, and public in Groovy.
`Tree.withGroovyAccess` turns a normalized Java tree into one that means the same when it is read
the Groovy way:

* a declaration without access modifier gains the annotation `PackageScope`, save the members of
  interfaces and annotation types, which are public anyway, and the constructors of enums, which are
  private;
* `public` is dropped, save on fields: a Groovy field without an access modifier is a property;
* array dimensions behind a name move to the type.
-/

namespace ApiDoc.Syntax

/-- What a declaration stands in. -/
inductive Enclosing where
  | file
  | classBody
  | enumBody
  /-- An interface or an annotation type. -/
  | interfaceBody
deriving DecidableEq, Repr

/-- What the members of a type stand in. -/
def Enclosing.ofKind : NodeKind → Enclosing
  | .interfaceDef | .annotationDef => .interfaceBody
  | .enumDef => .enumBody
  | _ => .classBody

namespace Access

/-! ### Modifiers -/

/-- Is the node an access modifier? -/
def isAccessModifier (m : Tree NodeKind) : Bool :=
  m.kind = .modifier && (m.text = "public" || m.text = "protected" || m.text = "private")

/-- Is the node an annotation whose name ends in `PackageScope`? -/
def isPackageScope (m : Tree NodeKind) : Bool :=
  m.kind = .annotationMark && "PackageScope".toList.isSuffixOf m.text.toList

/-- Put a marker in front of the modifiers. -/
def mark (kind : NodeKind) (text : String) (modifiers : Tree NodeKind) : Tree NodeKind :=
  modifiers.withChildren (.leaf kind text modifiers.pos :: modifiers.children)

/-- Mark modifiers without access modifier as private to the package. -/
def addPackageScope (modifiers : Tree NodeKind) : Tree NodeKind :=
  if modifiers.children.any isAccessModifier || modifiers.children.any isPackageScope then modifiers
  else mark .annotationMark "PackageScope" modifiers

/-- Mark modifiers without access modifier as private. -/
def makePrivate (modifiers : Tree NodeKind) : Tree NodeKind :=
  if modifiers.children.any isAccessModifier then modifiers else mark .modifier "private" modifiers

/-- Drop `public`. -/
def dropPublic (modifiers : Tree NodeKind) : Tree NodeKind :=
  modifiers.withChildren
    (modifiers.children.filter fun m => !(m.kind = .modifier && m.text = "public"))

/-- Change the modifiers of a declaration. -/
def onModifiers (f : Tree NodeKind → Tree NodeKind) (t : Tree NodeKind) : Tree NodeKind :=
  t.withChildren (Tree.modifyFirst .modifiers f t.children)

/-- Change the modifiers of a declaration, which has to have some. -/
def onModifiers? (f : Tree NodeKind → Tree NodeKind) (t : Tree NodeKind) :
    Except ParseError (Tree NodeKind) :=
  match t.child? .modifiers with
  | none => .error ⟨t.pos, .noModifiers t.text⟩
  | some _ => .ok (onModifiers f t)

/-- Mark a declaration as private to the package, where that is not implied by what it stands
in. -/
def packageScoped (enclosing : Enclosing) (t : Tree NodeKind) : Except ParseError (Tree NodeKind) :=
  if enclosing = .interfaceBody then .ok t else onModifiers? addPackageScope t

/-! ### Array dimensions -/

/-- The first tree of a kind, taken out of a list. -/
def extract? (kind : NodeKind) : List (Tree NodeKind) →
    Option (Tree NodeKind × List (Tree NodeKind))
  | [] => none
  | t :: ts =>
    if t.kind = kind then some (t, ts)
    else (extract? kind ts).map fun (found, rest) => (found, t :: rest)

/-- Move the array dimensions behind a name to the type. -/
def foldDimensions (t : Tree NodeKind) : Except ParseError (Tree NodeKind) :=
  match extract? .arrayDeclarator t.children with
  | none => .ok t
  | some (dims, rest) =>
    match (t.withChildren rest).child? .type with
    | none => .error ⟨dims.pos, .dimensionsWithoutType t.text⟩
    | some _ =>
      .ok (t.withChildren
        (Tree.modifyFirst .type (fun type => { type with text := type.text ++ dims.text }) rest))

/-- Move the array dimensions behind the names of parameters to their types. -/
def foldParameterDimensions (t : Tree NodeKind) : Except ParseError (Tree NodeKind) := do
  match t.child? .parameters with
  | none => return t
  | some parameters =>
    let folded ← parameters.children.mapM foldDimensions
    return t.withChildren (Tree.modifyFirst .parameters (·.withChildren folded) t.children)

/-! ### Declarations -/

/-- A method or an annotation element that stands in `enclosing`, with Groovy access. -/
def method (enclosing : Enclosing) (t : Tree NodeKind) : Except ParseError (Tree NodeKind) := do
  let t ← foldDimensions t
  let t ← foldParameterDimensions t
  let t ← packageScoped enclosing t
  return onModifiers dropPublic t

/-- A constructor that stands in `enclosing`, with Groovy access. That of an enum is private. -/
def constructor (enclosing : Enclosing) (t : Tree NodeKind) :
    Except ParseError (Tree NodeKind) := do
  let t ← foldParameterDimensions t
  let t ← onModifiers? (if enclosing = .enumBody then makePrivate else addPackageScope) t
  return onModifiers dropPublic t

mutual

/-- A declaration that stands in `enclosing`, with Groovy access. -/
def declaration (enclosing : Enclosing) : Tree NodeKind → Except ParseError (Tree NodeKind)
  | ⟨kind, text, pos, doc, children⟩ => do
    let t : Tree NodeKind := ⟨kind, text, pos, doc, children⟩
    if kind.isTypeDef then
      let _ ← packageScoped enclosing t
      let children ← body (.ofKind kind) children
      let t ← packageScoped enclosing ⟨kind, text, pos, doc, children⟩
      return onModifiers dropPublic t
    else
      match kind with
      | .variableDef => packageScoped enclosing (← foldDimensions t)
      | .methodDef | .annotationFieldDef => method enclosing t
      | .ctorIdent => constructor enclosing t
      | .enumConstantDef => return ⟨kind, text, pos, doc, ← body .classBody children⟩
      | _ => return t

/-- The children of a declaration, with Groovy access for the members of the first body. -/
def body (enclosing : Enclosing) : List (Tree NodeKind) → Except ParseError (List (Tree NodeKind))
  | [] => return []
  | ⟨kind, text, pos, doc, children⟩ :: ts => do
    if kind = .objBlock then
      return ⟨kind, text, pos, doc, ← declarations enclosing children⟩ :: ts
    else return ⟨kind, text, pos, doc, children⟩ :: (← body enclosing ts)

/-- Declarations with Groovy access, in order. -/
def declarations (enclosing : Enclosing) :
    List (Tree NodeKind) → Except ParseError (List (Tree NodeKind))
  | [] => return []
  | t :: ts => do
    let t ← declaration enclosing t
    let ts ← declarations enclosing ts
    return t :: ts

end

end Access

/-- A normalized Java file with Groovy access: it means the same when it is read the Groovy way. -/
def Tree.withGroovyAccess (t : Tree NodeKind) : Except ParseError (Tree NodeKind) := do
  if t.kind ≠ .compilationUnit then
    throw ⟨t.pos, .wrongRoot NodeKind.compilationUnit.tag t.kind.tag⟩
  return t.withChildren (← Access.declarations .file t.children)

end ApiDoc.Syntax
