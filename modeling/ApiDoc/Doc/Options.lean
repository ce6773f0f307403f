import ApiDoc.Data.NameMap
import ApiDoc.Doc.Class

/-!
# Options

Properties are named texts that a run is configured with. The documented ones are read off them as
`DocOptions`. A link says where the classes of some packages are documented.
-/

namespace ApiDoc

/-! ### Properties -/

/-- Named texts. -/
abbrev Properties := NameMap String

namespace Properties

/-- Does a text say yes? It does if it reads `true`, in any case, between blanks. -/
def isTrue (value : String) : Bool :=
  (Text.trim value.toList).map Char.toLower = ['t', 'r', 'u', 'e']

/-- A property as a switch, which stands at `default` where it is not set. -/
def switch (p : Properties) (key : String) (default : Bool) : Bool :=
  match p.get? key with
  | some value => isTrue value
  | none => default

/-- Set every property of `other`. -/
def merge (p other : Properties) : Properties :=
  other.entries.foldl (fun p e => p.insert e.1 e.2) p

end Properties

/-! ### Links -/

/-- Where the classes of some packages are documented. -/
structure Link where
  /-- What the qualified names of the classes start with, between commas. -/
  packages : String
  href : String
deriving DecidableEq, Repr

namespace Link

/-- What the qualified names of the classes start with. -/
def starts (l : Link) : List String :=
  (Text.segments ',' l.packages.toList).filterMap fun s =>
    let s := Text.trim s
    if s.isEmpty then none else some (String.ofList s)

/-- Does the link cover a class? -/
def covers (l : Link) (qualifiedName : String) : Bool :=
  l.starts.any fun s => s.toList.isPrefixOf qualifiedName.toList

end Link

/-! ### Documented properties -/

/-- What of a file is documented. -/
structure DocOptions where
  /-- Members that are less visible are left out. -/
  minVisibility : Visibility := .prot
  /-- Is a script documented as a class? -/
  processScripts : Bool := true
  /-- Does the class of a script have the methods that every script has? -/
  includeMainForScripts : Bool := true
deriving DecidableEq, Repr

namespace DocOptions

/-- The least visibility that the scope switches ask for: the widest scope that is on counts. -/
def minVisibilityOf (p : Properties) : Visibility :=
  if p.switch "privateScope" false then .priv
  else if p.switch "packageScope" false then .pkg
  else if p.switch "protectedScope" false then .prot
  else if p.switch "publicScope" false then .pub
  else .prot

/-- Read the options off the properties. -/
def ofProperties (p : Properties) : DocOptions where
  minVisibility := minVisibilityOf p
  processScripts := p.switch "processScripts" true
  includeMainForScripts := p.switch "includeMainForScripts" true

/-- Is a member of the given visibility documented? -/
def includes (o : DocOptions) (v : Visibility) : Bool := o.minVisibility ≤ v

end DocOptions

end ApiDoc
