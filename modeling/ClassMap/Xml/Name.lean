import ClassMap.Xml.Character
import ClassMap.Xml.Node

/-!
Qualified names and namespaces. Every namespace in use has to be declared on the element or
around it, and no element has two attributes of one name in one namespace.
-/

set_option autoImplicit false
set_option relaxedAutoImplicit false

namespace ClassMap.Xml

/-- A name with the short name of its namespace, which is empty if it has none. -/
structure QualifiedName where
  space : String
  name : String
deriving DecidableEq, Repr

namespace QualifiedName

def startsWell : List Char → Bool
  | [] => true
  | c :: _ => isNameStart c

/-- The name at the start of a text: at most one colon, and something after it. -/
def read? (cs : List Char) : Option (QualifiedName × List Char) :=
  let run := cs.takeWhile isNameChar
  let rest := cs.dropWhile isNameChar
  let space := run.takeWhile (· != ':')
  match run.dropWhile (· != ':') with
  | [] => if !run.isEmpty && startsWell run then some (⟨"", String.ofList run⟩, rest) else none
  | _ :: name =>
    if name.contains ':' || name.isEmpty || !startsWell name || !startsWell space then none
    else some (⟨String.ofList space, String.ofList name⟩, rest)

end QualifiedName

/-- Declared namespaces by short name, the inner ones first. -/
abbrev Namespaces := List (String × String)

def xmlSpace := "http://www.w3.org/XML/1998/namespace"
def xmlnsSpace := "http://www.w3.org/2000/xmlns/"

/-- An attribute as it is written, its value read. -/
structure RawAttribute where
  name : QualifiedName
  value : String
deriving DecidableEq, Repr

namespace RawAttribute

/-- Whether the attribute declares a namespace. -/
def isDeclaration (a : RawAttribute) : Bool :=
  a.name.space == "xmlns" || a.name.name == "xmlns"

/-- The short name that a declaration gives to a namespace; the default one has none. -/
def declaredSpace (a : RawAttribute) : String :=
  if a.name.space == "xmlns" then a.name.name else ""

/-- Two namespaces have fixed short names: one keeps it, the other is never declared. -/
def isLawful (a : RawAttribute) : Bool :=
  a.value != xmlnsSpace &&
    if a.name.space == "xmlns" && a.name.name == "xml" then a.value == xmlSpace
    else a.value != xmlSpace

end RawAttribute

/-- The namespaces that are declared by some attributes. No short name is declared twice; of two
default namespaces the first one counts. -/
def declaredNamespaces? (attributes : List RawAttribute) : Option Namespaces :=
  let declarations := attributes.filter (·.isDeclaration)
  let others := declarations.filter fun a ↦ a.value != xmlSpace
  let spaces := (others.map (·.declaredSpace)).filter (!·.isEmpty)
  if declarations.all (·.isLawful) && spaces.eraseDups.length == spaces.length then
    some (others.map fun a ↦ (a.declaredSpace, a.value))
  else none

/-- The namespace of an attribute, `none` inside if it has none. -/
def attributeSpace? (namespaces : Namespaces) (a : RawAttribute) : Option (Option String) :=
  if a.name.space.isEmpty then some none
  else if a.name.space == "xml" then some (some xmlSpace)
  else (namespaces.lookup a.name.space).map some

/-- The attributes of an element with their namespaces looked up, none of them twice. -/
def resolveAttributes? (namespaces : Namespaces) (attributes : List RawAttribute) :
    Option (List Attribute) := do
  let resolved ← (attributes.filter (!·.isDeclaration)).mapM fun a ↦ do
    return (← attributeSpace? namespaces a, a)
  let names := resolved.map fun (space, a) ↦ (space, a.name.name)
  if names.eraseDups.length == names.length then
    some (resolved.map fun (space, a) ↦ ⟨a.name.name, space.isNone, a.value⟩)
  else none

/-- Whether the namespace of an element is declared. -/
def isDeclared (namespaces : Namespaces) (name : QualifiedName) : Bool :=
  name.space.isEmpty || (namespaces.lookup name.space).isSome

end ClassMap.Xml
